import NftStore.Proofs.ConfigOrigin
import NftStore.Proofs.Decoding
import NftStore.Proofs.Readable

/-!
Faults of a configuration. A configuration has faults of its own: a file that is not there, a section
that is missing, a family that there is none of, a table without a name. Other faults come from what
the file is read with and are handed on as they are. They come up if and only if the file has no
text, its text is not that of a document, or an option that is asked for has no value
(`Config.onlyOwn_iff`).
-/
namespace NftStore

/-- The fault is one of the configuration itself, and of the one sort of error that these have. The
others come from decoding the file, from reading its lines and from replacing references. -/
def ConfigFault.isOwn : ConfigFault → Bool
  | unreadable | noSection _ | unknownFamily _ | noTable => true
  | undecodable _ | malformed _ | badValue _ => false

/-! ## Values of options -/

namespace Ini

/-- The value that the entries of a file give to an option in a section, none if it is not set. -/
def valueIn (sectionName : String) (entries : List Item) (option : String) :
    Except Flaw (Option String) :=
  match (optionsIn sectionName entries).lookup option with
  | none => .ok none
  | some raw =>
    (expand (fun name => (optionsIn sectionName entries).lookup name) maxDepth raw.toList).map
      fun cs => some (String.ofList cs)

variable {d : Document} {entries : List Item} {sectionName : String}

/-- A document has the values of its layout, and finds none where that has none. -/
theorem Document.LaidOut.value?_eq_ok (h : d.LaidOut entries) (hne : sectionName ≠ defaultSection)
    {option : String} {value : Option String} :
    d.value? sectionName option = .ok value ↔ valueIn sectionName entries option = .ok value := by
  rw [value?, valueIn, h.raw?_eq hne]
  dsimp only
  cases (optionsIn sectionName entries).lookup option with
  | none => simp
  | some raw =>
    dsimp only
    rw [expandValue, h.raw?_eq hne]
    cases expand (fun name => (optionsIn sectionName entries).lookup name) maxDepth raw.toList with
    | error flaw => simp [Except.map]
    | ok cs => simp [Except.map]

/-- The values of options are found if that of each of them is. -/
theorem Document.exists_values {options : List String} :
    (∃ pairs, d.values sectionName options = .ok pairs) ↔
      ∀ option ∈ options, ∃ value, d.value? sectionName option = .ok value := by
  induction options with
  | nil => simp [values]
  | cons option options ih =>
    rw [List.forall_mem_cons, ← ih, values]
    cases d.value? sectionName option with
    | error e => simp
    | ok value => cases d.values sectionName options <;> simp [Except.map]

end Ini

namespace Config

variable {α β : Type}

/-! ## Results without other faults -/

/-- If there is a fault, it is one of the configuration itself. -/
def OnlyOwn (r : Except ConfigFault α) : Prop :=
  ∀ fault, r = .error fault → fault.isOwn = true

theorem onlyOwn_ok (a : α) : OnlyOwn (.ok a) := nofun

theorem onlyOwn_error {fault : ConfigFault} :
    OnlyOwn (.error fault : Except ConfigFault α) ↔ fault.isOwn = true :=
  ⟨fun h => h fault rfl, fun h _ he => Except.error.inj he ▸ h⟩

theorem onlyOwn_bind {x : Except ConfigFault α} {f : α → Except ConfigFault β} :
    OnlyOwn (x >>= f) ↔ OnlyOwn x ∧ ∀ a, x = .ok a → OnlyOwn (f a) := by
  cases x with
  | error fault =>
    exact ⟨fun h => ⟨onlyOwn_error.2 (h fault rfl), nofun⟩, fun h => onlyOwn_error.2 (h.1 fault rfl)⟩
  | ok a =>
    refine ⟨fun h => ⟨onlyOwn_ok a, ?_⟩, fun h => h.2 a rfl⟩
    rintro _ ⟨⟩
    exact h

/-- A value that is bad is a fault of its own sort. -/
theorem onlyOwn_mapError {x : Except Ini.BadValue α} :
    OnlyOwn (x.mapError .badValue) ↔ ∃ a, x = .ok a := by
  cases x with
  | error e => simp [Except.mapError, onlyOwn_error, ConfigFault.isOwn]
  | ok a => simp [Except.mapError, onlyOwn_ok]

/-! ## Documents -/

/-- Of a section of defines, all options have values. -/
def DefinesResolve (entries : List Ini.Item) : Prop :=
  .header definesSection ∈ entries → ∀ option ∈ Ini.optionsIn definesSection entries,
    ∃ value, Ini.valueIn definesSection entries option.1 = .ok value

/-- The options that are asked for have values. They are asked for one after the other: none unless
there is a main section, the table only if the family is one, and the defines only if the table has a
name. -/
def Resolves (entries : List Ini.Item) : Prop :=
  .header mainSection ∈ entries →
    (∃ backend, Ini.valueIn mainSection entries "backend" = .ok backend) ∧
    ∃ word, Ini.valueIn mainSection entries "family" = .ok word ∧
      ((Family.ofText? (word.getD defaultFamily.text)).isSome →
        ∃ table, Ini.valueIn mainSection entries "table" = .ok table ∧
          ((filled table).isSome → DefinesResolve entries))

variable {d : Ini.Document} {entries : List Ini.Item}

theorem onlyOwn_definesOf (h : d.LaidOut entries) :
    OnlyOwn (definesOf d) ↔ DefinesResolve entries := by
  have hne : definesSection ≠ Ini.defaultSection := by decide
  rw [definesOf, DefinesResolve, ← h.sections definesSection hne]
  split
  · rename_i hsection
    rw [onlyOwn_mapError, Ini.Document.items, Ini.Document.exists_values, h.optionNames_eq hne]
    simp [hsection, h.value?_eq_ok hne]
  · rename_i hsection
    simp [hsection, onlyOwn_ok]

/-- An option that is asked for has a value, and what follows goes on with it. -/
theorem onlyOwn_option_bind (h : d.LaidOut entries) {name : String}
    {f : Option String → Except ConfigFault β} : OnlyOwn (option d name >>= f) ↔
      ∃ value, Ini.valueIn mainSection entries name = .ok value ∧ OnlyOwn (f value) := by
  have hne : mainSection ≠ Ini.defaultSection := by decide
  simp only [← h.value?_eq_ok hne]
  rw [onlyOwn_bind, option, onlyOwn_mapError]
  cases d.value? mainSection name with
  | error e => simp
  | ok value => simp [Except.mapError]

/-- What is left of the reading once the family is known. -/
theorem onlyOwn_table_bind (h : d.LaidOut entries) {f : String → List (String × String) → β} :
    OnlyOwn (do
      let some table := (← option d "table").filter (· ≠ "") | throw .noTable
      let defines ← definesOf d
      return f table defines) ↔
    ∃ table, Ini.valueIn mainSection entries "table" = .ok table ∧
      ((filled table).isSome → DefinesResolve entries) := by
  rw [onlyOwn_option_bind h, ← onlyOwn_definesOf h]
  refine exists_congr fun table => and_congr_right fun _ => ?_
  show OnlyOwn (match filled table with | some table => _ | _ => _) ↔ _
  cases filled table with
  | none => exact iff_of_true (onlyOwn_error.2 rfl) nofun
  | some name =>
    dsimp only
    rw [onlyOwn_bind]
    exact ⟨fun h _ => h.1, fun h => ⟨h rfl, fun _ _ => onlyOwn_ok _⟩⟩

theorem onlyOwn_ofDocument (h : d.LaidOut entries) : OnlyOwn (ofDocument d) ↔ Resolves entries := by
  have hne : mainSection ≠ Ini.defaultSection := by decide
  rw [ofDocument, Resolves, ← h.sections mainSection hne]
  split
  · rename_i hno
    simp only [Bool.not_eq_true'] at hno
    simp only [hno, Bool.false_eq_true, false_imp_iff, iff_true]
    exact onlyOwn_error.2 rfl
  · rename_i hsection
    simp only [Bool.not_eq_true', Bool.not_eq_false] at hsection
    rw [onlyOwn_option_bind h, forall_prop_of_true hsection, ← exists_and_right]
    refine exists_congr fun backend => and_congr_right fun _ => ?_
    rw [onlyOwn_option_bind h]
    refine exists_congr fun word => and_congr_right fun _ => ?_
    dsimp only
    cases Family.ofText? (word.getD defaultFamily.text) with
    | none => exact iff_of_true (onlyOwn_error.2 rfl) (by simp)
    | some family =>
      rw [imp_iff_right Option.isSome_some]
      exact onlyOwn_table_bind h

/-! ## Files -/

theorem document_of_decode {bytes : List UInt8} {text : List Char}
    (h : Text.Utf8.decode bytes = ⟨text, none⟩) :
    (∃ d, document bytes = .ok d) ↔ Ini.Readable text := by
  rw [← Ini.Draft.exists_finish_iff, document, h]
  dsimp only
  cases Ini.Draft.empty.lines 1 (Text.lines text) with
  | error fault => simp
  | ok draft => cases hfinish : draft.finish <;> simp [hfinish]

/-- There is a document if and only if the file has a text, which is that of one. -/
theorem exists_document_iff {bytes : List UInt8} : (∃ d, document bytes = .ok d) ↔
    ∃ text : String, bytes = text.toUTF8.data.toList ∧ Ini.Readable text.toList := by
  constructor
  · rintro ⟨d, hd⟩
    obtain ⟨text, hdecode, -⟩ := exists_laidOut_of_document hd
    refine ⟨String.ofList text, Text.Utf8.decode_eq_iff.1 hdecode, ?_⟩
    rw [String.toList_ofList]
    exact (document_of_decode hdecode).1 ⟨d, hd⟩
  · rintro ⟨text, rfl, hreadable⟩
    exact (document_of_decode (Text.Utf8.decode_toUTF8 text)).2 hreadable

/-- What keeps a file from being a document is no fault of the configuration. -/
theorem isOwn_eq_false_of_document {bytes : List UInt8} {fault : ConfigFault}
    (h : document bytes = .error fault) : fault.isOwn = false := by
  unfold document at h
  dsimp only at h
  split at h
  · cases h
    rfl
  · cases h
    rfl
  · split at h
    · cases h
      rfl
    · cases h

/-- When all faults of a configuration are its own. A file that is not there is one of these faults.
Any other file either gives a configuration or has such a fault, if and only if it has a text, the
text is that of a document, and the options that are asked for have values. -/
theorem onlyOwn_iff (file : Option (List UInt8)) :
    (∀ fault, read file = .error fault → fault.isOwn = true) ↔
      ∀ bytes, file = some bytes → ∃ text : String, bytes = text.toUTF8.data.toList ∧
        Ini.Readable text.toList ∧ Resolves (Ini.layout text.toList) := by
  cases file with
  | none => simp [read, ConfigFault.isOwn]
  | some bytes =>
    simp only [Option.some.injEq, forall_eq']
    cases hd : document bytes with
    | error fault =>
      refine iff_of_false ?_ ?_
      · intro h
        have hown : fault.isOwn = true := h fault (by rw [read]; simp only [hd])
        rw [isOwn_eq_false_of_document hd] at hown
        cases hown
      · rintro ⟨text, hbytes, hreadable, -⟩
        obtain ⟨d, hok⟩ := exists_document_iff.2 ⟨text, hbytes, hreadable⟩
        cases hd.symm.trans hok
    | ok d =>
      have hread : read (some bytes) = ofDocument d := by
        rw [read]
        simp only [hd]
      obtain ⟨text, hdecode, hlaid⟩ := exists_laidOut_of_document hd
      rw [hread]
      constructor
      · intro h
        refine ⟨String.ofList text, Text.Utf8.decode_eq_iff.1 hdecode, ?_⟩
        rw [String.toList_ofList]
        exact ⟨(document_of_decode hdecode).1 ⟨d, hd⟩, (onlyOwn_ofDocument hlaid).1 h⟩
      · rintro ⟨text', rfl, -, hresolves⟩
        rw [Text.Utf8.decode_toUTF8] at hdecode
        obtain rfl := (Text.Utf8.Decoded.mk.inj hdecode).1
        exact (onlyOwn_ofDocument hlaid).2 hresolves

/-- A file whose table has a percent sign in its name that refers to nothing. -/
def strayPercent : String :=
  "[nftsim]\nfamily = inet\ntable = 5%\n"

/-- Not all faults are of the configuration's own sort: a byte that no text has, an option before any
header, a section that is made twice and a stray percent sign all lead to others. -/
theorem not_onlyOwn_strayPercent :
    ¬ (∀ fault, read (some strayPercent.toUTF8.data.toList) = .error fault →
      fault.isOwn = true) ∧
    read (some strayPercent.toUTF8.data.toList)
      = .error (.badValue ⟨"nftsim", "table", "5%", .stray "%"⟩) ∧
    read (some [0xFF]) = .error (.undecodable ⟨[0xFF], 0, .invalidStart⟩) ∧
    read (some "table = t\n".toUTF8.data.toList)
      = .error (.malformed (.noHeader 1 "table = t\n")) ∧
    read (some "[nftsim]\n[nftsim]\n".toUTF8.data.toList)
      = .error (.malformed (.sectionRepeated 2 "nftsim")) := by
  have hstray : read (some strayPercent.toUTF8.data.toList)
      = .error (.badValue ⟨"nftsim", "table", "5%", .stray "%"⟩) := by
    decide +kernel
  refine ⟨fun h => ?_, hstray, ?_⟩
  · cases h _ hstray
  · decide +kernel

end Config

end NftStore
