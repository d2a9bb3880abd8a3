import NftStore.Proofs.ConfiguredDefines
import NftStore.Proofs.Decoding
import NftStore.Proofs.LineReading

/-!
Configurations that are written and read back. Line after line the reader is in a section whose
options are those written so far (`Draft.lines_options`), and at the end the values are what they
were before their percent signs were doubled. So what is read from the file is the configuration
that it was written for, and the store is one of its family and table with its defines after those
of the family.
-/
namespace NftStore

namespace Ini

open Config (escapePercent optionLine headerLine)

/-! ## Reading a section -/

/-- Options that are set in turn to values that were written. -/
def OptionLines.addAll (options : OptionLines) (pairs : List (String × String)) : OptionLines :=
  pairs.foldl (fun options d => options.add d.1 [(escapePercent d.2).toList]) options

/-- Options with names that differ have names that differ once the first of them is set. -/
theorem OptionLines.nodup_add {options : OptionLines} {d : String × String}
    {pairs : List (String × String)} (h : (options.names ++ (d :: pairs).map Prod.fst).Nodup)
    (value : List (List Char)) : d.1 ∉ options.names ∧
      ((options.add d.1 value).names ++ pairs.map Prod.fst).Nodup := by
  have hnew : d.1 ∉ options.names := by
    intro hmem
    exact (List.nodup_append.1 h).2.2 _ hmem _ List.mem_cons_self rfl
  refine ⟨hnew, ?_⟩
  rw [Catalog.names_add_of_not_mem hnew, List.append_assoc]
  exact h

theorem OptionLines.entries_addAll {options : OptionLines} {pairs : List (String × String)}
    (h : (options.names ++ pairs.map Prod.fst).Nodup) : (options.addAll pairs).entries
      = options.entries ++ pairs.map fun d => (d.1, [(escapePercent d.2).toList]) := by
  induction pairs generalizing options with
  | nil => simp [addAll]
  | cons d pairs ih =>
    obtain ⟨hnew, hrest⟩ := nodup_add h [(escapePercent d.2).toList]
    show (addAll (options.add d.1 _) pairs).entries = _
    rw [ih hrest, Catalog.entries_add_of_not_mem hnew, List.append_assoc]
    rfl

namespace Draft

variable {d : Draft} {number : Nat}

/-- Content that is not indented starts an entry, and is never taken for more of a value. -/
theorem line_of_content (d : Draft) (number : Nat) {cs text : List Char}
    (h : Line.ofChars cs = .content 0 text) :
    d.line number cs = { d with indent := 0 }.entry number cs text := by
  rw [line, h]
  cases hp : d.place <;> cases hc : d.current <;> simp

theorem line_header (d : Draft) (number : Nat) {name : String} (hne : name ≠ "") :
    d.line number (headerLine name).toList = { d with indent := 0 }.openSection number name := by
  have hchars : (headerLine name).toList = headerChars name.toList := by
    simp [headerLine, headerChars]
  have hentry : Entry.ofChars ('[' :: (name.toList ++ [']'])) = .header name := by
    rw [Entry.ofChars_header (by simpa using hne), String.ofList_toList]
  rw [hchars, line_of_content d number (Line.ofChars_header name.toList), entry, hentry]

theorem line_option {place : Place} (hplace : d.place = some place) {name value : String}
    (hname : IsName name.toList) (hvalue : IsValue value.toList)
    (hnew : name ∉ (d.options place).names) :
    d.line number (optionLine name value).toList
      = .ok { d.changeOptions place (·.add name [(escapePercent value).toList]) with
          current := some name
          indent := 0 } := by
  have hchars : (optionLine name value).toList
      = optionChars name.toList (escapePercent value).toList := by
    simp [optionLine, optionChars]
  have hentry := Entry.ofChars_option hname (Config.trimmed_escapePercent hvalue.trimmed)
  rw [String.ofList_toList] at hentry
  have hcontains : (d.options place).contains name = false := by
    rw [← Bool.not_eq_true, Catalog.contains_iff]
    exact hnew
  have hnonempty : name ≠ "" := by
    rintro rfl
    exact hname.ne_nil rfl
  rw [hchars, line_of_content d number (Line.ofChars_option hname _), entry, hentry]
  simp only [hplace, setOption]
  cases place <;> simp_all [options, changeOptions]

/-- The reader is in a section, of which these options were read so far. -/
def within (sections : Catalog OptionLines) (name : String) (options : OptionLines)
    (current : Option String) : Draft :=
  ⟨.empty, sections.add name options, some (.named name), current, 0, []⟩

variable {sections : Catalog OptionLines} {name : String} {options : OptionLines}
  {current : Option String}

theorem options_within (h : name ∉ sections.names) :
    (within sections name options current).options (.named name) = options := by
  show ((sections.add name options).find? name).getD .empty = options
  rw [Catalog.find?_add_of_not_mem h, if_pos rfl]
  rfl

theorem changeOptions_within (h : name ∉ sections.names) (f : OptionLines → OptionLines) :
    (within sections name options current).changeOptions (.named name) f
      = within sections name (f options) current := by
  simp only [changeOptions, within, Catalog.modify_add_of_not_mem h]

/-- Lines that set options are read one by one, each after those before it. -/
theorem lines_options (hsection : name ∉ sections.names) {pairs : List (String × String)}
    (hpairs : ∀ d ∈ pairs, IsName d.1.toList ∧ IsValue d.2.toList)
    (hnodup : (options.names ++ pairs.map Prod.fst).Nodup) (current : Option String) (number : Nat)
    (rest : List (List Char)) : ∃ last,
      (within sections name options current).lines number
          (pairs.map (fun d => (optionLine d.1 d.2).toList) ++ rest)
        = (within sections name (options.addAll pairs) last).lines (number + pairs.length)
            rest := by
  induction pairs generalizing options current number with
  | nil => exact ⟨current, rfl⟩
  | cons d pairs ih =>
    obtain ⟨hname, hvalue⟩ := hpairs d List.mem_cons_self
    obtain ⟨hnew, hrest⟩ := OptionLines.nodup_add hnodup [(escapePercent d.2).toList]
    have hline : (within sections name options current).line number (optionLine d.1 d.2).toList
        = .ok (within sections name (options.add d.1 [(escapePercent d.2).toList]) (some d.1)) := by
      rw [line_option rfl hname hvalue (by rwa [options_within hsection]),
        changeOptions_within hsection]
      rfl
    obtain ⟨last, hlast⟩ := ih (fun e he => hpairs e (List.mem_cons_of_mem _ he)) hrest
      (some d.1) (number + 1)
    refine ⟨last, ?_⟩
    rw [List.map_cons, List.cons_append, lines, hline]
    show (within _ _ _ _).lines (number + 1) _ = _
    rw [hlast, List.length_cons, Nat.add_assoc, Nat.add_comm 1]
    rfl

theorem lines_header (d : Draft) (number : Nat) (hempty : d.defaults = .empty ∧ d.flaws = [])
    (hne : name ≠ "") (hdefault : name ≠ defaultSection) (hnew : name ∉ d.sections.names)
    (rest : List (List Char)) : d.lines number ((headerLine name).toList :: rest)
      = (within d.sections name .empty none).lines (number + 1) rest := by
  have hcontains : d.sections.contains name = false := by
    rw [← Bool.not_eq_true, Catalog.contains_iff]
    exact hnew
  rw [lines, line_header d number hne]
  simp [openSection, hcontains, hdefault, within, hempty]

end Draft

/-! ## Values of a document that was written -/

namespace Document

variable {d : Document} {name : String} {pairs : List (String × String)}

/-- A section of a document has the options of these pairs, as they were written. -/
def Holds (d : Document) (name : String) (pairs : List (String × String)) : Prop :=
  d.sections.find? name = some (OptionLines.join (OptionLines.addAll .empty pairs))

theorem Holds.ownOptions_eq (hd : d.Holds name pairs) :
    d.ownOptions name = OptionLines.join (OptionLines.addAll .empty pairs) := by
  have hsection : d.sections.find? name = some _ := hd
  rw [ownOptions, hsection]
  rfl

theorem Holds.entries (h : (pairs.map Prod.fst).Nodup) :
    (OptionLines.addAll .empty pairs).entries
      = pairs.map fun d => (d.1, [(escapePercent d.2).toList]) :=
  OptionLines.entries_addAll (by simpa using h)

theorem Holds.raw? (hd : d.Holds name pairs) (h : (pairs.map Prod.fst).Nodup)
    {p : String × String} (hp : p ∈ pairs) (hvalue : IsValue p.2.toList) :
    d.raw? name p.1 = some (escapePercent p.2) := by
  have hfind : (OptionLines.addAll .empty pairs).find? p.1 = some [(escapePercent p.2).toList] := by
    apply Catalog.find?_eq_some_iff.2
    rw [Holds.entries h]
    exact List.mem_map.2 ⟨p, hp, rfl⟩
  have hjoin : joinValue [(escapePercent p.2).toList] = escapePercent p.2 := by
    have htrim := (Config.trimmed_escapePercent hvalue.trimmed).trimEnd_eq
    simp [joinValue, htrim]
  show ((d.ownOptions name).find? p.1).or _ = _
  rw [hd.ownOptions_eq, OptionLines.join, Catalog.find?_mapEntries, hfind, Option.map_some, hjoin]
  rfl

/-- Each option has the value that it was written for. -/
theorem Holds.value? (hd : d.Holds name pairs) (h : (pairs.map Prod.fst).Nodup)
    {p : String × String} (hp : p ∈ pairs) (hvalue : IsValue p.2.toList) :
    d.value? name p.1 = .ok (some p.2) := by
  rw [Document.value?, hd.raw? h hp hvalue]
  show (d.expandValue name p.1 (escapePercent p.2)).map some = _
  rw [expandValue, maxDepth, expand_escapePercent]
  simp [Except.map]

theorem values_eq_ok (h : ∀ p ∈ pairs, d.value? name p.1 = .ok (some p.2)) :
    d.values name (pairs.map Prod.fst) = .ok pairs := by
  induction pairs with
  | nil => rfl
  | cons p pairs ih =>
    rw [List.map_cons, values, h p List.mem_cons_self]
    show (d.values name _).map _ = _
    rw [ih fun q hq => h q (List.mem_cons_of_mem _ hq)]
    rfl

theorem Holds.items (hd : d.Holds name pairs) (hdefaults : d.defaults = .empty)
    (h : (pairs.map Prod.fst).Nodup) (hvalues : ∀ p ∈ pairs, IsValue p.2.toList) :
    d.items name = .ok pairs := by
  have hnames : d.optionNames name = pairs.map Prod.fst := by
    have hown : (d.ownOptions name).names = pairs.map Prod.fst := by
      rw [hd.ownOptions_eq, OptionLines.join, Catalog.names_mapEntries, Catalog.names,
        Holds.entries h, List.map_map]
      rfl
    rw [optionNames, hdefaults, hown]
    simp [Catalog.contains]
  rw [Document.items, hnames]
  exact values_eq_ok fun p hp => hd.value? h hp (hvalues p hp)

theorem Holds.hasSection (hd : d.Holds name pairs) : d.hasSection name = true := by
  rw [Document.hasSection, ← Catalog.isSome_find?, hd]
  rfl

end Document

end Ini

/-! ## Configurations -/

namespace Config

open Ini

/-- What a file says in the main section, in this order. -/
def settings (c : Config) : List (String × String) :=
  [("backend", c.backend), ("family", c.family.text), ("table", c.table)]

/-- The configuration can be written to a file: what is in it can be set on lines of its own, there
is a table, and no two defines have one name. -/
structure Writable (c : Config) : Prop where
  backend : IsValue c.backend.toList
  table : IsValue c.table.toList
  table_ne : c.table ≠ ""
  names : (c.defines.map Prod.fst).Nodup
  defines : ∀ d ∈ c.defines, IsName d.1.toList ∧ IsValue d.2.toList

/-- The lines of the file. -/
def writtenLines (c : Config) : List (List Char) :=
  (headerLine mainSection).toList :: (c.settings.map (fun d => (optionLine d.1 d.2).toList)
    ++ (headerLine definesSection).toList :: c.defines.map fun d => (optionLine d.1 d.2).toList)

theorem toList_written (c : Config) : c.written.toList = c.writtenLines.flatten := by
  simp [written, writtenLines, settings, List.flatMap, Function.comp_def]

theorem isLine_option {name value : String} (hname : IsValue name.toList)
    (hvalue : IsValue value.toList) : Text.IsLine (optionLine name value).toList := by
  refine ⟨name.toList ++ ' ' :: '=' :: ' ' :: (escapePercent value).toList, ?_, ?_, ?_⟩
  · simp [optionLine]
  · simp [hname.lineFeed, mem_escapePercent, hvalue.lineFeed]
  · simp [hname.carriageReturn, mem_escapePercent, hvalue.carriageReturn]

variable {c : Config}

theorem isLine_header {name : String} (hname : IsValue name.toList) :
    Text.IsLine (headerLine name).toList := by
  refine ⟨'[' :: (name.toList ++ [']']), ?_, ?_, ?_⟩
  · simp [headerLine]
  · simp [hname.lineFeed]
  · simp [hname.carriageReturn]

theorem isValue_family (family : Family) : IsValue family.text.toList := by
  cases family <;> decide

theorem nodup_settings (c : Config) : (c.settings.map Prod.fst).Nodup := by
  show ["backend", "family", "table"].Nodup
  decide

theorem Writable.settings (h : c.Writable) :
    ∀ d ∈ c.settings, IsName d.1.toList ∧ IsValue d.2.toList := by
  have hnames : ∀ name ∈ ["backend", "family", "table"], IsName name.toList := by decide
  intro d hd
  refine ⟨hnames d.1 (List.mem_map_of_mem (f := Prod.fst) hd), ?_⟩
  simp only [Config.settings, List.mem_cons, List.not_mem_nil, or_false] at hd
  rcases hd with rfl | rfl | rfl
  · exact h.backend
  · exact isValue_family c.family
  · exact h.table

theorem Writable.isLine (h : c.Writable) : ∀ line ∈ c.writtenLines, Text.IsLine line := by
  have hoptions : ∀ pairs : List (String × String),
      (∀ d ∈ pairs, IsName d.1.toList ∧ IsValue d.2.toList) →
      ∀ line ∈ pairs.map (fun d => (optionLine d.1 d.2).toList), Text.IsLine line := by
    intro pairs hpairs line hline
    obtain ⟨d, hd, rfl⟩ := List.mem_map.1 hline
    exact isLine_option (hpairs d hd).1.toIsValue (hpairs d hd).2
  intro line hline
  rcases List.mem_cons.1 hline with rfl | hline
  · exact isLine_header (by decide)
  · rcases List.mem_append.1 hline with hline | hline
    · exact hoptions _ h.settings line hline
    · rcases List.mem_cons.1 hline with rfl | hline
      · exact isLine_header (by decide)
      · exact hoptions _ h.defines line hline

/-- The options of the main section, as they are read. -/
def settingLines (c : Config) : OptionLines :=
  OptionLines.addAll .empty c.settings

/-- The options of the other section. -/
def defineLines (c : Config) : OptionLines :=
  OptionLines.addAll .empty c.defines

theorem definesSection_not_mem (options : OptionLines) :
    definesSection ∉ (Catalog.empty.add mainSection options).names := by
  rw [Catalog.names_add_of_not_mem (Catalog.not_mem_names_empty mainSection)]
  decide

/-- The main section is read first, and then that of the defines. -/
theorem Writable.lines (h : c.Writable) : ∃ last, Draft.empty.lines 1 c.writtenLines
    = .ok (Draft.within (Catalog.empty.add mainSection c.settingLines) definesSection c.defineLines
        last) := by
  have hsettings : ((Catalog.empty : OptionLines).names ++ c.settings.map Prod.fst).Nodup :=
    c.nodup_settings
  have hdefines : ((Catalog.empty : OptionLines).names ++ c.defines.map Prod.fst).Nodup := h.names
  obtain ⟨setting, hmain⟩ := Draft.lines_options (Catalog.not_mem_names_empty mainSection)
    h.settings hsettings none 2
    ((headerLine definesSection).toList :: c.defines.map fun d => (optionLine d.1 d.2).toList)
  obtain ⟨last, hlast⟩ := Draft.lines_options (definesSection_not_mem c.settingLines) h.defines
    hdefines none (2 + c.settings.length + 1) []
  refine ⟨last, ?_⟩
  rw [List.append_nil] at hlast
  rw [writtenLines, Draft.lines_header Draft.empty 1 ⟨rfl, rfl⟩ (by decide) (by decide)
    (Catalog.not_mem_names_empty mainSection)]
  show (Draft.within Catalog.empty mainSection Catalog.empty none).lines 2 _ = _
  rw [hmain, Draft.lines_header _ _ ⟨rfl, rfl⟩ (by decide) (by decide)
    (definesSection_not_mem c.settingLines)]
  exact hlast

theorem Writable.document (h : c.Writable) : ∃ d, Config.document c.writtenBytes = .ok d ∧
    d.defaults = .empty ∧ d.Holds mainSection c.settings ∧ d.Holds definesSection c.defines := by
  obtain ⟨last, hlines⟩ := h.lines
  have htext : Text.lines c.written.toList = c.writtenLines := by
    rw [toList_written, Text.lines_flatten h.isLine]
  have hsections : ∀ name, ((Catalog.empty.add mainSection c.settingLines).add definesSection
      c.defineLines).find? name = if name = definesSection then some c.defineLines
        else if name = mainSection then some c.settingLines else none := by
    intro name
    rw [Catalog.find?_add_of_not_mem (definesSection_not_mem _),
      Catalog.find?_add_of_not_mem (Catalog.not_mem_names_empty _)]
    rfl
  refine ⟨⟨.empty, ((Catalog.empty.add mainSection c.settingLines).add definesSection
    c.defineLines).mapEntries fun _ options => OptionLines.join options⟩, ?_, rfl, ?_, ?_⟩
  · rw [Config.document, writtenBytes, Text.Utf8.decode_toUTF8]
    simp only [htext, hlines]
    rfl
  · rw [Document.Holds, Catalog.find?_mapEntries, hsections]
    rfl
  · rw [Document.Holds, Catalog.find?_mapEntries, hsections]
    rfl

theorem Writable.ofDocument (h : c.Writable) {d : Document} (hdefaults : d.defaults = .empty)
    (hmain : d.Holds mainSection c.settings) (hdefines : d.Holds definesSection c.defines) :
    Config.ofDocument d = .ok c := by
  have hoption : ∀ p ∈ c.settings, option d p.1 = .ok (some p.2) := by
    intro p hp
    rw [option, hmain.value? (nodup_settings c) hp (h.settings p hp).2]
    rfl
  have hbackend := hoption ("backend", c.backend) List.mem_cons_self
  have hfamily := hoption ("family", c.family.text) (List.mem_cons_of_mem _ List.mem_cons_self)
  have htable := hoption ("table", c.table)
    (List.mem_cons_of_mem _ (List.mem_cons_of_mem _ List.mem_cons_self))
  have hof : definesOf d = .ok c.defines := by
    rw [definesOf, hdefines.hasSection, if_pos rfl,
      hdefines.items hdefaults h.names fun p hp => (h.defines p hp).2]
    rfl
  have hfilter : (some c.table).filter (· ≠ "") = some c.table := by
    simp [Option.filter, h.table_ne]
  simp only [Config.ofDocument, hmain.hasSection, hbackend, hfamily, htable, hof, bind, Except.bind,
    pure, Except.pure, Option.getD_some, Family.ofText?_text, hfilter]
  rfl

/-- What is read from a file that was written is what it was written for. -/
theorem Writable.read (h : c.Writable) : Config.read (some c.writtenBytes) = .ok c := by
  obtain ⟨d, hd, hdefaults, hmain, hdefines⟩ := h.document
  simp only [Config.read, hd]
  exact h.ofDocument hdefaults hmain hdefines

/-- A configuration of the backend in memory can be written to a file and is read from there as it
was, whatever the values hold that could be taken for more than that: separators, brackets, comment
marks, references or letters of either case. The store of the file is one of that family and table,
with the defines after those of the family. -/
theorem read_written (family : Family) {table : String} (hne : table ≠ "")
    (htable : IsValue table.toList) {pairs : List (String × String)}
    (hnames : (pairs.map Prod.fst).Nodup)
    (hpairs : ∀ d ∈ pairs, IsName d.1.toList ∧ IsValue d.2.toList) :
    Config.read (some (writtenBytes ⟨"fake", family, table, pairs⟩))
        = .ok ⟨"fake", family, table, pairs⟩ ∧
      Store.ofFile (some (writtenBytes ⟨"fake", family, table, pairs⟩))
        = .ok { Store.new family table with
            defines := ⟨(Defines.forFamily family).toList ++ pairs.map fun d => ⟨d.1, d.2⟩⟩ } := by
  have hread := Writable.read (c := ⟨"fake", family, table, pairs⟩)
    ⟨show IsValue "fake".toList by decide, htable, hne, hnames, hpairs⟩
  exact ⟨hread, Store.ofFile_of_read hread rfl⟩

end Config

/-- Two names that differ in case only, and values that a line could be misread by. -/
def misleading : List (String × String) :=
  [("Host", "%(host)s"), ("host", "= [x]: 50%"), ("für alle]", ""), ("DEFAULT", "[nftsim] ;#")]

theorem read_misleading :
    Config.written ⟨"fake", .ip6, "# 5%", misleading⟩
      = "[nftsim]\nbackend = fake\nfamily = ip6\ntable = # 5%%\n[defines]\nHost = %%(host)s\n"
        ++ "host = = [x]: 50%%\nfür alle] = \nDEFAULT = [nftsim] ;#\n" ∧
    "# 5%" ≠ "" ∧ Ini.IsValue "# 5%".toList ∧ (misleading.map Prod.fst).Nodup ∧
    (∀ d ∈ misleading, Ini.IsName d.1.toList ∧ Ini.IsValue d.2.toList) ∧
    Config.read (some (Config.writtenBytes ⟨"fake", .ip6, "# 5%", misleading⟩))
      = .ok ⟨"fake", .ip6, "# 5%", misleading⟩ := by
  have hne : "# 5%" ≠ "" := by decide
  have htable : Ini.IsValue "# 5%".toList := by decide
  have hnames : (misleading.map Prod.fst).Nodup := by decide
  have hpairs : ∀ d ∈ misleading, Ini.IsName d.1.toList ∧ Ini.IsValue d.2.toList := by
    decide +kernel
  obtain ⟨hread, -⟩ := Config.read_written .ip6 hne htable hnames hpairs
  exact ⟨by decide +kernel, hne, htable, hnames, hpairs, hread⟩

end NftStore
