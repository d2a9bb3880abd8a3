import NftStore.Proofs.DumpLines
import NftStore.Proofs.Handle

/-!
Interleavings. Operations about different places can be run in any order. The handles come out
differently then, and so does the order within each catalog; but a run that succeeds in one order
succeeds in the other, uses up as many handles, and leaves the same dump.
-/
namespace NftStore

/-! ## Lists with the same operations at every place -/

/-- Both lists have the same operations about each place, in the same order. -/
def Interleaved (xs ys : List Operation) : Prop :=
  ∀ p, xs.filter (Operation.isAt p) = ys.filter (Operation.isAt p)

theorem filter_isAt_eq_nil {p : Place} {ops : List Operation}
    (h : p ∉ ops.filterMap fun op => op.object.place?) : ops.filter (Operation.isAt p) = [] := by
  refine List.filter_eq_nil_iff.2 fun op hop hat => h ?_
  exact List.mem_filterMap.2 ⟨op, hop, by simpa [Operation.isAt] using hat⟩

/-- Only the places that an operation is about need to be looked at. -/
theorem interleaved_iff {xs ys : List Operation} :
    Interleaved xs ys ↔ ∀ p ∈ (xs ++ ys).filterMap fun op => op.object.place?,
      xs.filter (Operation.isAt p) = ys.filter (Operation.isAt p) := by
  refine ⟨fun h p _ => h p, fun h p => ?_⟩
  by_cases hp : p ∈ (xs ++ ys).filterMap fun op => op.object.place?
  · exact h p hp
  · -- no operation is about any other place
    simp only [List.filterMap_append, List.mem_append, not_or] at hp
    rw [filter_isAt_eq_nil hp.1, filter_isAt_eq_nil hp.2]

instance (xs ys : List Operation) : Decidable (Interleaved xs ys) :=
  decidable_of_iff' _ interleaved_iff

namespace Interleaved

variable {xs ys : List Operation}

theorem count_eq (h : Interleaved xs ys) {op : Operation} {p : Place}
    (hp : op.object.place? = some p) : xs.count op = ys.count op := by
  have hat : op.isAt p = true := by simpa [Operation.isAt] using hp
  rw [← List.count_filter hat, h p, List.count_filter hat]

/-- Lists of operations about places are permutations of each other. -/
theorem perm (h : Interleaved xs ys) (hx : ∀ op ∈ xs, op.object.place?.isSome)
    (hy : ∀ op ∈ ys, op.object.place?.isSome) : xs.Perm ys := by
  refine List.perm_iff_count.2 fun op => ?_
  cases hp : op.object.place? with
  | some p => exact h.count_eq hp
  | none =>
    have hnx : op ∉ xs := fun hm => by simpa [hp] using hx op hm
    have hny : op ∉ ys := fun hm => by simpa [hp] using hy op hm
    rw [List.count_eq_zero_of_not_mem hnx, List.count_eq_zero_of_not_mem hny]

end Interleaved

/-! ## Runs -/

namespace Store

/-- Of two runs with the same operations at each place, none of them about the table, the second
succeeds if the first does, and the two use up as many handles and leave the same dump. Rules that
were there before may be deleted by their handles, and chains, sets and maps may be deleted and
added again. -/
theorem dump_run_interleaved {s : Store} {c : Contents} (hc : s.contents = some c)
    {xs ys : List Operation} (hx : ∀ op ∈ xs, op.object.place?.isSome)
    (hy : ∀ op ∈ ys, op.object.place?.isSome)
    (hd : ∀ op ∈ xs, ∀ h ∈ op.deletedHandle?, h ≤ s.lastHandle) (hxy : Interleaved xs ys)
    (hok : (s.run (Transaction.empty.queueRaw xs)).fault = none) :
    (s.run (Transaction.empty.queueRaw ys)).fault = none ∧
    (s.run (Transaction.empty.queueRaw ys)).store.lastHandle
      = (s.run (Transaction.empty.queueRaw xs)).store.lastHandle ∧
    (s.run (Transaction.empty.queueRaw ys)).store.dump
      = (s.run (Transaction.empty.queueRaw xs)).store.dump := by
  have hperm := hxy.perm hx hy
  have hdy : ∀ op ∈ ys, ∀ h ∈ op.deletedHandle?, h ≤ s.lastHandle :=
    fun op hop => hd op (hperm.mem_iff.2 hop)
  rw [run_queueRaw] at hok
  rw [run_queueRaw, run_queueRaw]
  rcases applyAll_traced hc hx hd (Nat.le_refl _) with ⟨c₁, hc₁, -, ht₁, htr₁⟩ | ⟨fault, p, hf, -⟩
  · rcases applyAll_traced hc hy hdy (Nat.le_refl _) with
      ⟨c₂, hc₂, hf₂, ht₂, htr₂⟩ | ⟨fault, p, -, htr₂⟩
    · refine ⟨hf₂, ?_, ?_⟩
      · rw [lastHandle_applyAll_of_ok hf₂, lastHandle_applyAll_of_ok hok,
          hperm.countP_eq fun op => op.verb.makes]
      · rw [dump_of_contents hc₁, dump_of_contents hc₂, target_applyAll, target_applyAll]
        refine congrArg String.join (Contents.lines_congr (by rw [ht₁, ht₂]) fun p => ?_)
        -- at each place both runs end with what the one trace ends with
        have hp : (.ok (c₂.trimmed s.lastHandle p) : Except Fault (Option p.shelf.Entry))
            = .ok (c₁.trimmed s.lastHandle p) := by
          rw [← htr₂ p, ← htr₁ p, trace_congr (hxy p)]
        rw [← c₁.lines_trimmed p, ← c₂.lines_trimmed p, Except.ok.inj hp]
    · -- no trace fails, for none does in the first run
      rw [← trace_congr (hxy p), htr₁ p] at htr₂
      cases htr₂
  · rw [hok] at hf
    cases hf

end Store

/-- Operations on what `refilling` leaves: a chain of old and new rules, a chain that is deleted and
added again, and a set and a map of one name, each place by itself. -/
def reworking : List Operation :=
  [⟨.delete, .rule ⟨"in", none, none, none, some 7⟩⟩,
   ⟨.add, .rule ⟨"in", some "accept", none, none, none⟩⟩,
   ⟨.delete, .chain ⟨"out", none, none, none, none, none, none⟩⟩,
   ⟨.add, .chain ⟨"out", none, none, none, none, none, none⟩⟩,
   ⟨.add, .rule ⟨"out", some "drop", none, none, none⟩⟩,
   ⟨.add, .set .map ⟨"in", some "ipv4_addr : verdict", none, none, none, none, none, none, none,
      none, none⟩⟩,
   ⟨.add, .element ⟨"in", "10.0.0.1", some "accept", none⟩⟩,
   ⟨.add, .element ⟨"in", "10.0.0.2", none, none⟩⟩]

/-- The same operations with the places taken in turns. -/
def reworkingInTurns : List Operation :=
  [⟨.add, .element ⟨"in", "10.0.0.2", none, none⟩⟩,
   ⟨.add, .set .map ⟨"in", some "ipv4_addr : verdict", none, none, none, none, none, none, none,
      none, none⟩⟩,
   ⟨.delete, .chain ⟨"out", none, none, none, none, none, none⟩⟩,
   ⟨.delete, .rule ⟨"in", none, none, none, some 7⟩⟩,
   ⟨.add, .element ⟨"in", "10.0.0.1", some "accept", none⟩⟩,
   ⟨.add, .chain ⟨"out", none, none, none, none, none, none⟩⟩,
   ⟨.add, .rule ⟨"in", some "accept", none, none, none⟩⟩,
   ⟨.add, .rule ⟨"out", some "drop", none, none, none⟩⟩]

/-- What operations come to after `refilling`. -/
def rework (ops : List Operation) : Outcome :=
  ((Store.new .inet "filter").replay refilling).run (Transaction.empty.queueRaw ops)

theorem dump_reworked :
    Interleaved reworking reworkingInTurns ∧
    (rework reworking).fault = none ∧
    (rework reworkingInTurns).store.contents ≠ (rework reworking).store.contents ∧
    (rework reworkingInTurns).fault = none ∧
    (rework reworkingInTurns).store.lastHandle = (rework reworking).store.lastHandle ∧
    (rework reworkingInTurns).store.dump = (rework reworking).store.dump := by
  have hc : ((Store.new .inet "filter").replay refilling).contents = some refilled := by
    decide +kernel
  have hd : ∀ op ∈ reworking, ∀ h ∈ op.deletedHandle?,
      h ≤ ((Store.new .inet "filter").replay refilling).lastHandle := by
    decide +kernel
  have hxy : Interleaved reworking reworkingInTurns := by decide +kernel
  have hok : (rework reworking).fault = none := by decide +kernel
  exact ⟨hxy, hok, by decide +kernel,
    Store.dump_run_interleaved hc (by decide) (by decide) hd hxy hok⟩

end NftStore
