import Mathlib
import NftStore.Proofs.Emptied
import NftStore.Proofs.OneLine
import NftStore.Proofs.QuotedReading

/-!
What the line of an added object tells about its fields. A body is written clause by clause, and a
clause that may be left out is told by its keyword, for none of the keywords of a body begins
another. A value goes up to a mark that is not in it. So where two lines are the same, clause after
clause is, and what is left is the comment, which may hold anything but comes last
(`Clause.chars_inj`). Hence two chains, two sets or two maps with the same line have the same
fields, as far as these are written at all (`fields_eq_of_line_eq`).
-/
namespace NftStore

/-! ## Texts up to a mark -/

namespace Text

variable {mark : Char} {s t : String} {a b rest rest' : List Char}

/-- A text without the mark is read off what goes on with the mark, and so is what follows. -/
theorem append_mark_inj (ha : mark ∉ a) (hb : mark ∉ b)
    (h : a ++ mark :: rest = b ++ mark :: rest') : a = b ∧ rest = rest' := by
  induction a generalizing b with
  | nil =>
    cases b with
    | nil => exact ⟨rfl, (List.cons.inj h).2⟩
    | cons c b => exact absurd ((List.cons.inj h).1 ▸ List.mem_cons_self) hb
  | cons c a ih =>
    cases b with
    | nil => exact absurd ((List.cons.inj h).1 ▸ List.mem_cons_self) ha
    | cons d b =>
      obtain ⟨rfl, htail⟩ := List.cons.inj h
      obtain ⟨rfl, hrest⟩ :=
        ih (List.not_mem_of_not_mem_cons ha) (List.not_mem_of_not_mem_cons hb) htail
      exact ⟨rfl, hrest⟩

/-- Neither of the texts begins the other. -/
def Apart (s t : String) : Prop :=
  ¬ s.toList <+: t.toList ∧ ¬ t.toList <+: s.toList

instance (s t : String) : Decidable (Apart s t) :=
  inferInstanceAs (Decidable (_ ∧ _))

/-- What begins with one of them does not begin with the other. -/
theorem Apart.not_begins (h : Apart s t) (ht : t.toList <+: rest) : ¬ s.toList <+: rest :=
  fun hs => (List.prefix_or_prefix_of_prefix hs ht).elim h.1 h.2

theorem Apart.ne_nil (h : Apart s t) : s.toList ≠ [] :=
  fun hs => h.1 (hs ▸ List.nil_prefix)

theorem intercalate_inj {sep : String} (hsep : sep.toList = [mark]) {parts parts' : List String}
    (hne : parts ≠ []) (hne' : parts' ≠ []) (h : ∀ part ∈ parts, mark ∉ part.toList)
    (h' : ∀ part ∈ parts', mark ∉ part.toList)
    (heq : sep.intercalate parts = sep.intercalate parts') : parts = parts' := by
  have hsplit : ∀ {ps : List String}, ps ≠ [] → (∀ part ∈ ps, mark ∉ part.toList) →
      (sep.intercalate ps).toList.splitOn mark = ps.map String.toList := by
    intro ps hps hfree
    rw [String.toList_intercalate, hsep]
    refine List.splitOn_intercalate mark (fun l hl => ?_) (by simpa using hps)
    obtain ⟨part, hpart, rfl⟩ := List.mem_map.1 hl
    exact hfree part hpart
  refine List.map_injective_iff.2 (fun _ _ => String.toList_inj.1) ?_
  rw [← hsplit hne h, ← hsplit hne' h', heq]

end Text

/-! ## Clauses -/

/-- A clause of a body: its keyword, the value it gives if it is there, and what closes it. The
value and the gap after it go up to a mark. -/
structure Clause (α : Type) where
  keyword : String
  value : α → Option String
  gap : String
  mark : Char
  tail : String
  mark_not_mem : mark ∉ gap.toList

namespace Clause

variable {α : Type} {a b : α} {clause : Clause α} {clauses : List (Clause α)}
  {rest rest' : List Char}

/-- The clause as it is written, nothing if it is not there. -/
def chars (clause : Clause α) (a : α) : List Char :=
  ((clause.value a).map fun value => clause.keyword.toList ++ (value.toList ++ clause.gap.toList
    ++ clause.mark :: clause.tail.toList)).getD []

/-- A clause that a semicolon closes. -/
def plain (keyword : String) (value : α → Option String) : Clause α :=
  ⟨keyword, value, " ", ';', " ", by decide⟩

/-- The mark of the clause is not in its value. -/
def Marks (clause : Clause α) (a : α) : Prop :=
  ∀ value ∈ clause.value a, clause.mark ∉ value.toList

theorem chars_of_none (h : clause.value a = none) : clause.chars a = [] := by
  rw [chars, h]
  rfl

theorem chars_append {value : String} (h : clause.value a = some value) (rest : List Char) :
    clause.chars a ++ rest = clause.keyword.toList ++ (value.toList ++ clause.gap.toList
      ++ clause.mark :: (clause.tail.toList ++ rest)) := by
  rw [chars, h]
  simp

theorem prefix_chars_append {value : String} (h : clause.value a = some value) (rest : List Char) :
    clause.keyword.toList <+: clause.chars a ++ rest := by
  rw [chars_append h]
  exact List.prefix_append _ _

/-- A keyword that begins no other and not the rest is not what is written begins with. -/
theorem not_prefix_flatMap (happart : ∀ c ∈ clauses, Text.Apart clause.keyword c.keyword)
    (hrest : ¬ clause.keyword.toList <+: rest) :
    ¬ clause.keyword.toList <+: clauses.flatMap (·.chars a) ++ rest := by
  induction clauses with
  | nil => exact hrest
  | cons c clauses ih =>
    rw [List.flatMap_cons, List.append_assoc]
    cases hv : c.value a with
    | none =>
      rw [chars_of_none hv]
      exact ih fun d hd => happart d (List.mem_cons_of_mem _ hd)
    | some value =>
      exact (happart c List.mem_cons_self).not_begins (prefix_chars_append hv _)

/-- A clause is read off what is written: its value is the same, and so is what follows, if what
follows does not begin with its keyword where it is left out. -/
theorem chars_append_inj (ha : clause.Marks a) (hb : clause.Marks b)
    (hrest : ¬ clause.keyword.toList <+: rest) (hrest' : ¬ clause.keyword.toList <+: rest')
    (h : clause.chars a ++ rest = clause.chars b ++ rest') :
    clause.value a = clause.value b ∧ rest = rest' := by
  cases hva : clause.value a with
  | none =>
    rw [chars_of_none hva, List.nil_append] at h
    cases hvb : clause.value b with
    | none =>
      rw [chars_of_none hvb] at h
      exact ⟨rfl, h⟩
    | some w =>
      rw [h] at hrest
      exact absurd (prefix_chars_append hvb _) hrest
  | some v =>
    cases hvb : clause.value b with
    | none =>
      rw [chars_of_none hvb, List.nil_append] at h
      rw [← h] at hrest'
      exact absurd (prefix_chars_append hva _) hrest'
    | some w =>
      rw [chars_append hva, chars_append hvb, List.append_cancel_left_eq] at h
      have hfree : ∀ {u : String}, clause.mark ∉ u.toList →
          clause.mark ∉ u.toList ++ clause.gap.toList := fun hu =>
        List.not_mem_append hu clause.mark_not_mem
      obtain ⟨hvalue, htail⟩ := Text.append_mark_inj (hfree (ha v hva)) (hfree (hb w hvb)) h
      rw [List.append_cancel_right_eq, String.toList_inj] at hvalue
      exact ⟨congrArg some hvalue, List.append_cancel_left htail⟩

/-- Clauses with keywords that do not begin one another are told apart, whichever are there: if the
same is written, each of them has the same value, and the same is left behind them. -/
theorem chars_inj (happart : clauses.Pairwise fun c d => Text.Apart c.keyword d.keyword)
    (ha : ∀ c ∈ clauses, c.Marks a) (hb : ∀ c ∈ clauses, c.Marks b)
    (hrest : ∀ c ∈ clauses, ¬ c.keyword.toList <+: rest)
    (hrest' : ∀ c ∈ clauses, ¬ c.keyword.toList <+: rest')
    (h : clauses.flatMap (·.chars a) ++ rest = clauses.flatMap (·.chars b) ++ rest') :
    (∀ c ∈ clauses, c.value a = c.value b) ∧ rest = rest' := by
  induction clauses with
  | nil => exact ⟨by simp, h⟩
  | cons c clauses ih =>
    obtain ⟨hc, happart⟩ := List.pairwise_cons.1 happart
    obtain ⟨hca, ha⟩ := List.forall_mem_cons.1 ha
    obtain ⟨hcb, hb⟩ := List.forall_mem_cons.1 hb
    obtain ⟨hcrest, hrest⟩ := List.forall_mem_cons.1 hrest
    obtain ⟨hcrest', hrest'⟩ := List.forall_mem_cons.1 hrest'
    rw [List.flatMap_cons, List.flatMap_cons, List.append_assoc, List.append_assoc] at h
    obtain ⟨hvalue, hothers⟩ := chars_append_inj hca hcb (not_prefix_flatMap hc hcrest)
      (not_prefix_flatMap hc hcrest') h
    obtain ⟨hvalues, hsame⟩ := ih happart ha hb hrest hrest' hothers
    exact ⟨List.forall_mem_cons.2 ⟨hvalue, hvalues⟩, hsame⟩

end Clause

/-! ## Bodies -/

/-- The parts of a body, each of them closed. -/
def closed (parts : List String) : List Char :=
  parts.flatMap fun part => part.toList ++ " ; ".toList

variable {parts parts' : List String} {name name' : String} {comment comment' : Option String}

theorem closed_append : closed (parts ++ parts') = closed parts ++ closed parts' :=
  List.flatMap_append

theorem Clause.chars_plain {α : Type} {keyword : String} {value : α → Option String} {a : α} :
    (Clause.plain keyword value).chars a = closed ((value a).map (keyword ++ ·)).toList := by
  cases hv : value a <;> simp [closed, chars, plain, hv]

theorem toList_intercalate_append (h : parts ≠ []) :
    (" ; ".intercalate parts).toList ++ " ; ".toList = closed parts := by
  induction parts with
  | nil => exact absurd rfl h
  | cons part rest ih =>
    cases rest with
    | nil => simp [closed]
    | cons next rest =>
      have hrest := ih (by simp)
      rw [String.intercalate_cons_cons, String.toList_append, String.toList_append,
        List.append_assoc, hrest]
      simp [closed]

theorem toList_body (h : parts ≠ []) :
    (body parts).toList = ' ' :: ("\x7b ".toList ++ closed parts ++ ['\x7d']) := by
  rw [body, if_neg (by simpa using h), ← toList_intercalate_append h]
  simp

theorem space_mem_append_body (name : String) (h : parts ≠ []) :
    ' ' ∈ (name ++ body parts).toList := by
  rw [String.toList_append, toList_body h]
  exact List.mem_append_right _ List.mem_cons_self

/-- The name goes up to the body, and the body tells its parts as they are closed. -/
theorem line_inj {opening : String} (hn : ' ' ∉ name.toList) (hn' : ' ' ∉ name'.toList)
    (h : opening ++ name ++ body parts ++ "\n" = opening ++ name' ++ body parts' ++ "\n") :
    name = name' ∧ closed parts = closed parts' := by
  rw [String.append_left_inj, String.append_assoc, String.append_assoc,
    String.append_right_inj] at h
  -- a body brings a space with it, so either both lines have one or neither has
  by_cases hp : parts = [] <;> by_cases hp' : parts' = []
  · subst hp hp'
    exact ⟨by simpa [body] using h, rfl⟩
  · have hspace := space_mem_append_body name' hp'
    rw [← h, hp] at hspace
    exact absurd (by simpa [body] using hspace) hn
  · have hspace := space_mem_append_body name hp
    rw [h, hp'] at hspace
    exact absurd (by simpa [body] using hspace) hn'
  · have hlist : name.toList ++ (body parts).toList = name'.toList ++ (body parts').toList := by
      rw [← String.toList_append, h, String.toList_append]
    rw [toList_body hp, toList_body hp'] at hlist
    obtain ⟨hname, hbody⟩ := Text.append_mark_inj hn hn' hlist
    rw [List.append_cancel_right_eq, List.append_cancel_left_eq] at hbody
    exact ⟨String.toList_inj.1 hname, hbody⟩

theorem closed_commentPart_of_none (h : filled comment = none) :
    closed (commentPart comment) = [] := by
  simp [commentPart, h, closed]

theorem closed_commentPart_of_some {text : String} (h : filled comment = some text) :
    closed (commentPart comment)
      = "comment ".toList ++ ((Text.quote text).toList ++ " ; ".toList) := by
  simp [commentPart, h, closed]

/-- A comment may hold anything, for it is the last part. -/
theorem closed_commentPart_inj (h : closed (commentPart comment) = closed (commentPart comment')) :
    filled comment = filled comment' := by
  cases hc : filled comment with
  | none =>
    rw [closed_commentPart_of_none hc] at h
    cases hc' : filled comment' with
    | none => rfl
    | some text => cases h.trans (closed_commentPart_of_some hc')
  | some text =>
    rw [closed_commentPart_of_some hc] at h
    cases hc' : filled comment' with
    | none => cases h.trans (closed_commentPart_of_none hc')
    | some text' =>
      rw [closed_commentPart_of_some hc', List.append_cancel_left_eq,
        List.append_cancel_right_eq, String.toList_inj] at h
      rw [Text.quote_inj h]

theorem not_prefix_closed_commentPart {keyword : String} (h : Text.Apart keyword "comment ") :
    ¬ keyword.toList <+: closed (commentPart comment) := by
  cases hc : filled comment with
  | none =>
    rw [closed_commentPart_of_none hc]
    exact fun hp => h.ne_nil (List.prefix_nil.1 hp)
  | some text =>
    rw [closed_commentPart_of_some hc]
    exact h.not_begins (List.prefix_append _ _)

/-! ## Sets and maps -/

namespace SetSpec

/-- The typeof where it counts. -/
def typeofUsed (s : SetSpec) : Option String :=
  if (filled s.type).isSome then none else filled s.typeof

/-- The flags in one text. -/
def flagsText (s : SetSpec) : Option String :=
  if s.flags.getD [] = [] then none else some (",".intercalate (s.flags.getD []))

/-- The clauses of a set or map, all but its comment. -/
def clauses : List (Clause SetSpec) :=
  [.plain "type " fun s => filled s.type,
   .plain "typeof " typeofUsed,
   .plain "flags " flagsText,
   .plain "timeout " fun s => s.timeout.map fun n => toString n ++ "s",
   .plain "gc-interval " fun s => s.gcInterval.map fun n => toString n ++ "s",
   .plain "size " fun s => s.size.map toString,
   .plain "policy " fun s => filled s.policy,
   .plain "auto-merge" fun s => if s.autoMerge.getD false then some "" else none]

theorem closed_parts (s : SetSpec) :
    closed s.parts = clauses.flatMap (·.chars s) ++ closed (commentPart s.comment) := by
  have htype : s.typePart = ((filled s.type).map ("type " ++ ·)).toList
      ++ (s.typeofUsed.map ("typeof " ++ ·)).toList := by
    unfold typePart typeofUsed
    split <;> simp [*]
  have hflags : s.flagsPart = (s.flagsText.map ("flags " ++ ·)).toList := by
    unfold flagsPart flagsText
    split
    · simp [*]
    · simp [*]
    · rename_i flags hne hflags
      rw [hflags, Option.getD_some, if_neg hne]
      rfl
  have hmerge : (if s.autoMerge = some true then ["auto-merge"] else [])
      = ((if s.autoMerge.getD false then some "" else none).map ("auto-merge" ++ ·)).toList := by
    rcases s.autoMerge with _ | _ | _ <;> rfl
  simp only [clauses, List.flatMap_cons, List.flatMap_nil, Clause.chars_plain, List.append_nil,
    List.append_assoc, ← closed_append]
  simp only [parts, htype, hflags, hmerge, Option.map_map, Function.comp_def, String.append_assoc,
    List.append_assoc]

/-- The set or map can be added, and no text of it but the comment has the mark in it that its
clause goes up to. -/
structure Separable (s : SetSpec) (kind : SetKind) : Prop where
  valid : s.invalid? kind .add = none
  name : ' ' ∉ s.name.toList
  type : ∀ type ∈ s.type, ';' ∉ type.toList
  typeof : ∀ typeof ∈ s.typeof, ';' ∉ typeof.toList
  flags : ∀ flags ∈ s.flags, ∀ flag ∈ flags, ',' ∉ flag.toList ∧ ';' ∉ flag.toList
  policy : ∀ policy ∈ s.policy, ';' ∉ policy.toList

instance (s : SetSpec) (kind : SetKind) : Decidable (s.Separable kind) :=
  decidable_of_iff
    (s.invalid? kind .add = none ∧ ' ' ∉ s.name.toList ∧ (∀ type ∈ s.type, ';' ∉ type.toList) ∧
      (∀ typeof ∈ s.typeof, ';' ∉ typeof.toList) ∧
      (∀ flags ∈ s.flags, ∀ flag ∈ flags, ',' ∉ flag.toList ∧ ';' ∉ flag.toList) ∧
      ∀ policy ∈ s.policy, ';' ∉ policy.toList)
    ⟨fun ⟨hv, hn, ht, ho, hf, hp⟩ => ⟨hv, hn, ht, ho, hf, hp⟩,
      fun h => ⟨h.valid, h.name, h.type, h.typeof, h.flags, h.policy⟩⟩

/-- What is written of both is the same. An unset text is as good as an empty one, no flags as an
empty list of them, and not merging as not saying so; a number that is unset is not zero. -/
structure SaysSame (s t : SetSpec) : Prop where
  name : s.name = t.name
  type : filled s.type = filled t.type
  typeof : filled s.typeof = filled t.typeof
  flags : s.flags.getD [] = t.flags.getD []
  timeout : s.timeout = t.timeout
  gcInterval : s.gcInterval = t.gcInterval
  size : s.size = t.size
  policy : filled s.policy = filled t.policy
  autoMerge : s.autoMerge.getD false = t.autoMerge.getD false
  comment : filled s.comment = filled t.comment

variable {s t : SetSpec} {kind : SetKind}

theorem mem_flags_getD {c : Char} (h : ∀ flags ∈ s.flags, ∀ flag ∈ flags, c ∉ flag.toList) :
    ∀ flag ∈ s.flags.getD [], c ∉ flag.toList := by
  cases hf : s.flags with
  | none => simp
  | some flags => exact h flags hf

theorem Separable.marks (h : s.Separable kind) : ∀ c ∈ clauses, c.Marks s := by
  have hseconds : ∀ n : Int, ';' ∉ (toString n ++ "s").toList := by
    intro n
    rw [String.toList_append, List.mem_append, not_or]
    exact ⟨Text.not_mem_number (by decide) (by decide) n, by decide⟩
  have hflags : ∀ text ∈ s.flagsText, ';' ∉ text.toList := by
    intro text htext
    unfold flagsText at htext
    split at htext
    · cases htext
    · obtain rfl := Option.some.inj htext
      exact Text.not_mem_intercalate (by decide)
        (mem_flags_getD fun flags hf flag hin => (h.flags flags hf flag hin).2)
  have htypeof : ∀ text ∈ s.typeofUsed, ';' ∉ text.toList := by
    intro text htext
    unfold typeofUsed at htext
    split at htext
    · cases htext
    · exact h.typeof text (mem_of_mem_filled htext)
  simp only [clauses, List.forall_mem_cons, Clause.Marks, Clause.plain]
  refine ⟨fun text ht => h.type text (mem_of_mem_filled ht), htypeof, hflags, ?_, ?_, ?_,
    fun text ht => h.policy text (mem_of_mem_filled ht), ?_, nofun⟩
  · exact Option.forall_mem_map.2 fun n _ => hseconds n
  · exact Option.forall_mem_map.2 fun n _ => hseconds n
  · exact Option.forall_mem_map.2 fun n _ => Text.not_mem_number (by decide) (by decide) n
  · split
    · simp
    · nofun

theorem Separable.typeofUsed_eq (h : s.Separable kind) : s.typeofUsed = filled s.typeof := by
  obtain ⟨-, hone⟩ := invalid?_add_eq_none_iff.1 h.valid
  unfold typeofUsed
  split
  · rename_i htype
    rw [htype] at hone
    exact (Option.not_isSome_iff_eq_none.1 (Ne.symm hone)).symm
  · rfl

theorem flags_eq_of_flagsText_eq (hs : s.Separable kind) (ht : t.Separable kind)
    (h : s.flagsText = t.flagsText) : s.flags.getD [] = t.flags.getD [] := by
  have hcomma : ∀ {u : SetSpec}, u.Separable kind → ∀ flag ∈ u.flags.getD [], ',' ∉ flag.toList :=
    fun hu => mem_flags_getD fun flags hf flag hin => (hu.flags flags hf flag hin).1
  unfold flagsText at h
  split at h <;> rename_i hempty <;> split at h <;> rename_i hempty'
  · rw [hempty, hempty']
  · cases h
  · cases h
  · exact Text.intercalate_inj rfl hempty hempty' (hcomma hs) (hcomma ht) (Option.some.inj h)

theorem saysSame_of_line_eq {target : Target} (hs : s.Separable kind) (ht : t.Separable kind)
    (h : s.line kind .add target = t.line kind .add target) : s.SaysSame t := by
  obtain ⟨hname, hbody⟩ := line_inj hs.name ht.name h
  rw [closed_parts, closed_parts] at hbody
  have happart : clauses.Pairwise fun c d => Text.Apart c.keyword d.keyword := by decide
  have hcomment : ∀ c ∈ clauses, Text.Apart c.keyword "comment " := by decide
  obtain ⟨hvalues, hlast⟩ := Clause.chars_inj happart hs.marks ht.marks
    (fun c hc => not_prefix_closed_commentPart (hcomment c hc))
    (fun c hc => not_prefix_closed_commentPart (hcomment c hc)) hbody
  simp only [clauses, List.forall_mem_cons, Clause.plain] at hvalues
  obtain ⟨htype, htypeof, hflags, htimeout, hinterval, hsize, hpolicy, hmerge, -⟩ := hvalues
  have hseconds : Function.Injective fun n : Int => toString n ++ "s" := by
    intro m n hmn
    exact Int.repr_injective ((String.append_left_inj "s").1 hmn)
  have hsame : ∀ a b : Bool,
      (if a then some "" else none) = (if b then some "" else none) → a = b := by
    decide
  exact {
    name := hname
    type := htype
    typeof := by rw [← hs.typeofUsed_eq, htypeof, ht.typeofUsed_eq]
    flags := flags_eq_of_flagsText_eq hs ht hflags
    timeout := Option.map_injective hseconds htimeout
    gcInterval := Option.map_injective hseconds hinterval
    size := Option.map_injective (fun _ _ => Int.repr_injective) hsize
    policy := hpolicy
    autoMerge := hsame _ _ hmerge
    comment := closed_commentPart_inj hlast }

end SetSpec

/-! ## Chains -/

namespace Chain

/-- The clauses of a base chain. Without a type none of them is there. Each takes the space behind
it, which the line writes in front of the next. -/
def clauses : List (Clause Chain) :=
  [⟨"type ", fun c => filled c.type, "", ' ', "", by decide⟩,
   ⟨"hook ", fun c => (filled c.type).map fun _ => c.hook.getD "None", "", ' ', "", by decide⟩,
   ⟨"device \"", fun c => (filled c.type).bind fun _ => filled c.device, "", '"', " ", by decide⟩,
   ⟨"priority ", fun c => (filled c.type).bind fun _ => c.priority, " ", ';', " ", by decide⟩]

/-- What follows the clauses. Where there is a priority, it has closed the part already. -/
def ending (c : Chain) : List Char :=
  (if (filled c.type).isSome ∧ c.priority = none then "; " else "").toList
    ++ closed (commentPart c.comment)

/-- The chain is valid, and no text of it but the comment has the mark in it that its clause goes up
to. -/
structure Separable (c : Chain) : Prop where
  valid : c.invalid? = none
  name : ' ' ∉ c.name.toList
  type : ∀ type ∈ c.type, ' ' ∉ type.toList
  hook : ∀ hook ∈ c.hook, ' ' ∉ hook.toList
  device : ∀ device ∈ c.device, '"' ∉ device.toList
  priority : ∀ priority ∈ c.priority, ';' ∉ priority.toList

instance (c : Chain) : Decidable c.Separable :=
  decidable_of_iff
    (c.invalid? = none ∧ ' ' ∉ c.name.toList ∧ (∀ type ∈ c.type, ' ' ∉ type.toList) ∧
      (∀ hook ∈ c.hook, ' ' ∉ hook.toList) ∧ (∀ device ∈ c.device, '"' ∉ device.toList) ∧
      ∀ priority ∈ c.priority, ';' ∉ priority.toList)
    ⟨fun ⟨hv, hn, ht, hh, hd, hp⟩ => ⟨hv, hn, ht, hh, hd, hp⟩,
      fun h => ⟨h.valid, h.name, h.type, h.hook, h.device, h.priority⟩⟩

/-- What is written of both is the same. An unset text is as good as an empty one, but for the
priority, which is only written where there is a type. -/
structure SaysSame (c d : Chain) : Prop where
  name : c.name = d.name
  type : filled c.type = filled d.type
  hook : filled c.hook = filled d.hook
  device : filled c.device = filled d.device
  priority : (filled c.type).isSome → c.priority = d.priority
  comment : filled c.comment = filled d.comment

variable {c d : Chain}

theorem Separable.closed_parts (h : c.Separable) :
    closed (c.basePart ++ commentPart c.comment) = clauses.flatMap (·.chars c) ++ c.ending := by
  rw [closed_append]
  cases ht : filled c.type with
  | none => simp [basePart, clauses, ending, Clause.chars, closed, ht]
  | some type =>
    have hquote : ∀ device ∈ filled c.device,
        (Text.quote device).toList = '"' :: device.toList ++ ['"'] := by
      intro device hd
      rw [Text.toList_quote,
        Text.Quoted.escape_of_not_mem (h.device device (mem_of_mem_filled hd))]
    -- the semicolon closes the priority if there is one, else what is before it
    cases hd : filled c.device with
    | none =>
      cases hp : c.priority <;> simp [basePart, clauses, ending, Clause.chars, closed, ht, hd, hp]
    | some device =>
      cases hp : c.priority <;>
        simp [basePart, clauses, ending, Clause.chars, closed, ht, hd, hp, hquote device hd]

theorem Separable.marks (h : c.Separable) : ∀ clause ∈ clauses, clause.Marks c := by
  have hhook : ' ' ∉ (c.hook.getD "None").toList := by
    cases hc : c.hook with
    | none => decide
    | some hook => exact h.hook hook hc
  simp only [clauses, List.forall_mem_cons, Clause.Marks]
  refine ⟨fun text ht => h.type text (mem_of_mem_filled ht),
    Option.forall_mem_map.2 fun _ _ => hhook, fun text ht => ?_, fun text ht => ?_, nofun⟩
  · obtain ⟨_, _, hdevice⟩ := Option.bind_eq_some_iff.1 ht
    exact h.device text (mem_of_mem_filled hdevice)
  · obtain ⟨_, _, hpriority⟩ := Option.bind_eq_some_iff.1 ht
    exact h.priority text hpriority

/-- Without a type there is neither a hook nor a device. -/
theorem Separable.bare (h : c.Separable) (ht : filled c.type = none) :
    filled c.hook = none ∧ filled c.device = none := by
  obtain ⟨-, hboth, hplaced⟩ := invalid?_eq_none_iff.1 h.valid
  have hhook : filled c.hook = none := by
    rw [ht] at hboth
    exact Option.not_isSome_iff_eq_none.1 (hboth ▸ nofun)
  refine ⟨hhook, Option.eq_none_iff_forall_not_mem.2 fun device hd => ?_⟩
  have hsome := hplaced (hd ▸ rfl)
  rw [hhook] at hsome
  cases hsome

/-- With a type there is a hook. -/
theorem Separable.filled_hook (h : c.Separable) {type : String} (ht : filled c.type = some type) :
    filled c.hook = some (c.hook.getD "None") := by
  obtain ⟨-, hboth, -⟩ := invalid?_eq_none_iff.1 h.valid
  rw [ht] at hboth
  obtain ⟨hook, hhook⟩ := Option.isSome_iff_exists.1 hboth.symm
  rw [hhook, mem_of_mem_filled hhook]
  rfl

theorem not_prefix_ending {keyword : String} (hs : Text.Apart keyword "; ")
    (hc : Text.Apart keyword "comment ") : ¬ keyword.toList <+: c.ending := by
  unfold ending
  split
  · exact hs.not_begins (List.prefix_append _ _)
  · simpa using not_prefix_closed_commentPart hc

theorem saysSame_of_line_eq {target : Target} (hc : c.Separable) (hd : d.Separable)
    (h : c.line .add target = d.line .add target) : c.SaysSame d := by
  obtain ⟨hname, hbody⟩ := line_inj hc.name hd.name h
  rw [hc.closed_parts, hd.closed_parts] at hbody
  have happart : clauses.Pairwise fun c d => Text.Apart c.keyword d.keyword := by decide
  have hending : ∀ c ∈ clauses, Text.Apart c.keyword "; " ∧ Text.Apart c.keyword "comment " := by
    decide
  obtain ⟨hvalues, hlast⟩ := Clause.chars_inj happart hc.marks hd.marks
    (fun k hk => not_prefix_ending (hending k hk).1 (hending k hk).2)
    (fun k hk => not_prefix_ending (hending k hk).1 (hending k hk).2) hbody
  simp only [clauses, List.forall_mem_cons] at hvalues
  obtain ⟨htype, hhook, hdevice, hpriority, -⟩ := hvalues
  cases ht : filled c.type with
  | none =>
    have ht' : filled d.type = none := htype ▸ ht
    obtain ⟨hhooked, hplaced⟩ := hc.bare ht
    obtain ⟨hhooked', hplaced'⟩ := hd.bare ht'
    refine ⟨hname, htype, hhooked.trans hhooked'.symm, hplaced.trans hplaced'.symm, ?_, ?_⟩
    · rw [ht]
      nofun
    · refine closed_commentPart_inj ?_
      simpa [ending, ht, ht'] using hlast
  | some type =>
    have ht' : filled d.type = some type := htype ▸ ht
    simp only [ht, ht', Option.map_some, Option.bind_some, Option.some.injEq]
      at hhook hdevice hpriority
    refine ⟨hname, htype, ?_, hdevice, fun _ => hpriority, ?_⟩
    · rw [hc.filled_hook ht, hd.filled_hook ht', hhook]
    · refine closed_commentPart_inj ?_
      simpa [ending, ht, ht', hpriority] using hlast

end Chain

/-! ## Lines that are the same -/

/-- The line of a chain, set or map that is added loses nothing that is set: two of them that are
valid, and whose texts do not have the marks in them by which the line is read, only have the same
line if their fields are the same. Comments may hold anything. -/
theorem fields_eq_of_line_eq (target : Target) :
    (∀ c d : Chain, c.Separable → d.Separable →
      c.line .add target = d.line .add target → c.SaysSame d) ∧
    ∀ (kind : SetKind) (s t : SetSpec), s.Separable kind → t.Separable kind →
      s.line kind .add target = t.line kind .add target → s.SaysSame t :=
  ⟨fun _ _ hc hd => Chain.saysSame_of_line_eq hc hd,
    fun _ _ _ hs ht => SetSpec.saysSame_of_line_eq hs ht⟩

/-- A base chain with a comment that looks like the end of its line and another one. -/
def baseChain (device : Option String) (handle : Option Int) : Chain :=
  ⟨"in", some "filter", some "ingress", some "-5", device, some "\" ; \x7d\nadd chain ip t in",
    handle⟩

/-- A set that says its size, or has a comment that does. -/
def sizedSet (size : Option Int) (comment : String) : SetSpec :=
  ⟨"s", some "ipv4_addr", none, some ["interval", "timeout"], some 0, none, size, none, none,
    some comment, none⟩

theorem fields_of_imitating :
    (baseChain none (some 3)).SaysSame (baseChain (some "") none) ∧
    (sizedSet (some 8) "x").line .set .add ⟨"ip", "t"⟩
      ≠ (sizedSet none "size 8 ; comment \"x").line .set .add ⟨"ip", "t"⟩ := by
  constructor
  · exact (fields_eq_of_line_eq ⟨"ip", "t"⟩).1 (baseChain none (some 3)) (baseChain (some "") none)
      (by decide) (by decide) (by decide +kernel)
  · intro h
    have hsame := (fields_eq_of_line_eq ⟨"ip", "t"⟩).2 .set (sizedSet (some 8) "x")
      (sizedSet none "size 8 ; comment \"x") (by decide) (by decide) h
    exact absurd hsame.size (by decide)

end NftStore
