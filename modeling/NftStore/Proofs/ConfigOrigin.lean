import NftStore.Proofs.ConfiguredDefines
import NftStore.Proofs.Layout
import Mathlib.Data.List.Forall2

/-!
Where the defines of a configured store come from. A store of a file has the defines of its family,
and behind them those of the file: if there is a section of defines, the options under the headers of
the default section come first, in the order in which they stand in the file, and the others of that
section after them. So an option that is meant as a default for all sections is a define as well, and
one that comes before those of the section.
-/
namespace NftStore

namespace Ini

/-! ## The options that hold in a section -/

variable {d : Document} {entries : List Item} {sectionName : String}

/-- An option has the value of the section, and else that of the default section. -/
theorem lookup_optionsIn (sectionName : String) (entries : List Item) (name : String) :
    (optionsIn sectionName entries).lookup name
      = ((optionsUnder sectionName entries).lookup name).or
          ((optionsUnder defaultSection entries).lookup name) := by
  rw [optionsIn, List.lookup_append,
    Catalog.lookup_map _ fun name value =>
      ((optionsUnder sectionName entries).lookup name).getD value]
  cases hdefault : (optionsUnder defaultSection entries).lookup name with
  | some value =>
    cases (optionsUnder sectionName entries).lookup name <;> rfl
  | none =>
    have hnot : name ∉ (optionsUnder defaultSection entries).map Prod.fst :=
      Catalog.lookup_eq_none_iff_not_mem.1 hdefault
    rw [Catalog.lookup_filter _ fun name =>
      !((optionsUnder defaultSection entries).map Prod.fst).contains name]
    simp [hnot]

namespace Document.LaidOut

theorem raw?_eq (h : d.LaidOut entries) (hne : sectionName ≠ defaultSection) :
    d.raw? sectionName = fun name => (optionsIn sectionName entries).lookup name := by
  funext name
  rw [raw?, lookup_optionsIn, ← h.defaults, ← h.own sectionName hne]
  rfl

theorem optionNames_eq (h : d.LaidOut entries) (hne : sectionName ≠ defaultSection) :
    d.optionNames sectionName = (optionsIn sectionName entries).map Prod.fst := by
  rw [optionNames, optionsIn, ← h.defaults, ← h.own sectionName hne]
  simp [Catalog.names, Catalog.contains, List.filter_map, Function.comp_def]

end Document.LaidOut

/-! ## Their values -/

/-- The options with the given values, each with references to all of them replaced. -/
def Expands (options : List (String × String)) (pairs : List (String × String)) : Prop :=
  List.Forall₂ (fun option pair => pair.1 = option.1 ∧
    expand (fun name => options.lookup name) maxDepth option.2.toList = .ok pair.2.toList)
    options pairs

theorem Document.forall₂_of_values {options pairs : List (String × String)}
    (hraw : ∀ option ∈ options, d.raw? sectionName option.1 = some option.2)
    (h : d.values sectionName (options.map Prod.fst) = .ok pairs) :
    List.Forall₂ (fun option pair => pair.1 = option.1 ∧
      expand (d.raw? sectionName) maxDepth option.2.toList = .ok pair.2.toList) options pairs := by
  induction options generalizing pairs with
  | nil =>
    cases h
    exact .nil
  | cons option options ih =>
    rw [List.map_cons, values, value?, hraw option List.mem_cons_self] at h
    simp only [expandValue] at h
    cases hexpand : expand (d.raw? sectionName) maxDepth option.2.toList with
    | error flaw =>
      rw [hexpand] at h
      cases h
    | ok cs =>
      rw [hexpand] at h
      cases hrest : d.values sectionName (options.map Prod.fst) with
      | error e =>
        rw [hrest] at h
        cases h
      | ok others =>
        rw [hrest] at h
        cases h
        have hothers := ih (fun o ho => hraw o (List.mem_cons_of_mem option ho)) hrest
        exact .cons ⟨rfl, by simpa using hexpand⟩ hothers

/-- The values of a section are those that the layout of the file gives to its options. -/
theorem Document.LaidOut.expands_of_items (h : d.LaidOut entries)
    (hne : sectionName ≠ defaultSection) {pairs : List (String × String)}
    (hitems : d.items sectionName = .ok pairs) :
    Expands (optionsIn sectionName entries) pairs := by
  have hnames := h.optionNames_eq hne
  have hnodup : ((optionsIn sectionName entries).map Prod.fst).Nodup := by
    rw [← hnames]
    exact d.nodup_optionNames sectionName
  rw [items, hnames] at hitems
  have hraw : ∀ option ∈ optionsIn sectionName entries,
      d.raw? sectionName option.1 = some option.2 := by
    intro option hoption
    rw [h.raw?_eq hne]
    exact (Catalog.lookup_eq_some_iff hnodup).2 hoption
  have hvalues := Document.forall₂_of_values hraw hitems
  rw [h.raw?_eq hne] at hvalues
  exact hvalues

end Ini

/-! ## Configurations and stores -/

namespace Config

variable {c : Config}

theorem table_ne_of_ofDocument {d : Ini.Document} (h : ofDocument d = .ok c) : c.table ≠ "" := by
  rw [ofDocument] at h
  split at h
  · cases h
  · obtain ⟨backend, -, h⟩ := exists_of_bind_eq_ok h
    obtain ⟨word, -, h⟩ := exists_of_bind_eq_ok h
    dsimp only at h
    split at h
    · obtain ⟨table, -, h⟩ := exists_of_bind_eq_ok h
      split at h
      · rename_i name hname
        obtain ⟨defines, hdefines, h⟩ := exists_of_bind_eq_ok h
        cases h
        simpa using (Option.filter_eq_some_iff.1 hname).2
      · cases h
    · cases h

theorem exists_laidOut_of_document {bytes : List UInt8} {d : Ini.Document}
    (h : document bytes = .ok d) :
    ∃ text, Text.Utf8.decode bytes = ⟨text, none⟩ ∧ d.LaidOut (Ini.layout text) := by
  unfold document at h
  generalize Text.Utf8.decode bytes = decoded at h ⊢
  obtain ⟨text, fault⟩ := decoded
  cases fault with
  | some fault =>
    -- a text that breaks off is refused, whatever was read before
    dsimp only at h
    split at h
    · cases h
    · cases h
    · rename_i hfault
      cases hfault
  | none =>
    dsimp only at h
    split at h
    · cases h
    · rename_i hfault
      cases hfault
    · rename_i draft hlines _
      split at h
      · cases h
      · rename_i d' hfinish
        cases h
        exact ⟨text, rfl, Ini.Draft.laidOut_of_finish hlines hfinish⟩

theorem exists_document_of_read {bytes : List UInt8} (h : read (some bytes) = .ok c) :
    ∃ d, document bytes = .ok d ∧ ofDocument d = .ok c := by
  unfold read at h
  cases hd : document bytes with
  | error fault =>
    simp only [hd] at h
    cases h
  | ok d =>
    simp only [hd] at h
    exact ⟨d, rfl, h⟩

/-- The defines of a configuration are what the layout of its file gives to the options that hold in
the section of defines, and none if there is no such section. -/
theorem defines_of_laidOut {d : Ini.Document} (hd : ofDocument d = .ok c) {entries : List Ini.Item}
    (h : d.LaidOut entries) :
    if .header definesSection ∈ entries then
      Ini.Expands (Ini.optionsIn definesSection entries) c.defines
    else c.defines = [] := by
  have hne : definesSection ≠ Ini.defaultSection := by decide
  have hdefines := definesOf_of_ofDocument hd
  unfold definesOf at hdefines
  split at hdefines
  · rename_i hsection
    rw [if_pos ((h.sections definesSection hne).1 hsection)]
    cases hitems : d.items definesSection with
    | error e =>
      rw [hitems] at hdefines
      cases hdefines
    | ok pairs =>
      rw [hitems] at hdefines
      rw [← Except.ok.inj hdefines]
      exact h.expands_of_items hne hitems
  · rename_i hsection
    rw [if_neg (mt (h.sections definesSection hne).2 hsection)]
    exact (Except.ok.inj hdefines).symm

end Config

/-- Where a store of a file comes from. If there is one, it has no table yet and no handle was given,
it is of one of the families, and its table has a name. Its defines are those of the family, followed
by what the file sets in its section of defines, if it has one: the options under the headers of the
default section first. There is a store if there is a configuration for the backend in memory, and no
family of a configuration is ever refused. -/
theorem Store.origin_of_ofFile :
    (∀ bytes s, Store.ofFile (some bytes) = .ok s →
      s.contents = none ∧ s.lastHandle = 0 ∧ s.family ∈ Family.all ∧ s.table ≠ "" ∧
      ∃ text pairs, Text.Utf8.decode bytes = ⟨text, none⟩ ∧
        s.defines.toList
          = (Defines.forFamily s.family).toList ++ pairs.map (fun d => ⟨d.1, d.2⟩) ∧
        if .header Config.definesSection ∈ Ini.layout text then
          Ini.Expands (Ini.optionsIn Config.definesSection (Ini.layout text)) pairs
        else pairs = []) ∧
    (∀ file, (∃ s, Store.ofFile file = .ok s) ↔
      ∃ c, Config.read file = .ok c ∧ c.backend = "fake") ∧
    ∀ file c, Config.read file = .ok c →
      Store.new? c.family.text c.table = .ok (Store.new c.family c.table) := by
  refine ⟨?_, ?_, ?_⟩
  · intro bytes s hs
    obtain ⟨c, hc, -⟩ := exists_read_of_ofFile hs
    obtain ⟨d, hdocument, hd⟩ := Config.exists_document_of_read hc
    obtain ⟨text, hdecode, hlaid⟩ := Config.exists_laidOut_of_document hdocument
    have hdefines := Config.defines_of_laidOut hd hlaid
    rw [ofFile_eq hs hc]
    exact ⟨rfl, rfl, c.family.mem_all, Config.table_ne_of_ofDocument hd, text, c.defines, hdecode,
      rfl, hdefines⟩
  · intro file
    constructor
    · rintro ⟨s, hs⟩
      exact exists_read_of_ofFile hs
    · rintro ⟨c, hc, hbackend⟩
      exact ⟨_, ofFile_of_read hc hbackend⟩
  · intro file c _
    rw [new?, Family.ofText?_text]

/-- A file whose default section is opened twice, the second time behind the defines. One of its
options is set by these too, one refers to them, and one has a value on two lines. -/
def defaulting : String :=
  "[DEFAULT]\nnet = 10.0.0\nhost = %(net)s.1\n[nftsim]\ntable = t\nfamily = ip\n[defines]\n"
    ++ "ports = 80,\n  # web\n  443\nhost = %(net)s.9\n[DEFAULT]\nopen = %(ports)s\n"

/-- What the file has for defines, the default options first. -/
def defaultedPairs : List (String × String) :=
  [("net", "10.0.0"), ("host", "10.0.0.9"), ("open", "80,\n443"), ("ports", "80,\n443")]

/-- Its store. -/
def defaulted : Store :=
  { Store.new .ip "t" with
    defines := ⟨(Defines.forFamily .ip).toList ++ defaultedPairs.map fun d => ⟨d.1, d.2⟩⟩ }

theorem origin_of_defaulted :
    Store.ofFile (some defaulting.toUTF8.data.toList) = .ok defaulted ∧
    (∃ text pairs, Text.Utf8.decode defaulting.toUTF8.data.toList = ⟨text, none⟩ ∧
      defaulted.defines.toList
        = (Defines.forFamily defaulted.family).toList ++ pairs.map (fun d => ⟨d.1, d.2⟩) ∧
      if .header Config.definesSection ∈ Ini.layout text then
        Ini.Expands (Ini.optionsIn Config.definesSection (Ini.layout text)) pairs
      else pairs = []) ∧
    ∃ c, Config.read (some defaulting.toUTF8.data.toList) = .ok c ∧ c.backend = "fake" := by
  have hc : Config.read (some defaulting.toUTF8.data.toList)
      = .ok ⟨"fake", .ip, "t", defaultedPairs⟩ := by
    decide +kernel
  have hs : Store.ofFile (some defaulting.toUTF8.data.toList) = .ok defaulted :=
    Store.ofFile_of_read hc rfl
  obtain ⟨-, -, -, -, horigin⟩ := Store.origin_of_ofFile.1 _ _ hs
  exact ⟨hs, horigin, (Store.origin_of_ofFile.2.1 _).1 ⟨_, hs⟩⟩

/-- The section sets an option that is a default one already, and its value is the one that holds. -/
example :
    Ini.optionsIn Config.definesSection
        (Ini.layout "[DEFAULT]\na=1\nb=%(a)s\n[defines]\nc=3\n 4\na=5\n[DEFAULT]\nd=6\n".toList)
      = [("a", "5"), ("b", "%(a)s"), ("d", "6"), ("c", "3\n4")] := by
  decide +kernel

end NftStore
