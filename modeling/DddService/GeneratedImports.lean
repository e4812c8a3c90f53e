import Mathlib.Data.List.Chain
import DddService.GeneratedPaths

/- What the texts of a bounded context import and define, and what renaming the content of a
   file makes of that. The chain of replacements works on whole texts; on the lines of the
   template files it is the same as renaming every word, and so every module and every name. -/
namespace DddService.CopyTool
open Replace

/-! ## Reading a text -/

/-- A module, by the parts of its dotted path, and the names taken from it. -/
abbrev Import := List Text × List Text

/-- The import of a line, by its words. An operation id takes a function from its module. -/
def readImport : List Text → Option Import
  | keyword :: target :: rest =>
    if keyword = "from".toList then
      some (target.splitOn '.', rest.tail.map fun word => (word.splitOn ',').headD [])
    else if keyword = "import".toList then some (target.splitOn '.', [])
    else if keyword = "operationId:".toList then
      some ((target.splitOn '.').dropLast, [(target.splitOn '.').getLastD []])
    else none
  | _ => none

def identifier (word : Text) : Text := (((word.splitOn '(').headD []).splitOn ':').headD []

/-- The class or the function that a line begins to define, by its words. -/
def readDefinition : List Text → Option Text
  | keyword :: word :: rest =>
    if keyword = "class".toList then some (identifier word)
    else if keyword = "async".toList then some (identifier (rest.headD []))
    else none
  | _ => none

def statements (content : Text) : List (List Text) := (content.splitOn '\n').map (·.splitOn ' ')

def imports (content : Text) : List Import := (statements content).filterMap readImport

def definitions (content : Text) : List Text := (statements content).filterMap readDefinition

/-- The file of a module. -/
def fileOf (module : List Text) : List Text :=
  module.dropLast ++ [module.getLastD [] ++ ".py".toList]

/-- A module named inside a package: one leading dot stands for the package. -/
def absolute (package module : List Text) : List Text :=
  match module with
  | [] :: rest => package ++ rest
  | _ => module

/-! ## Renaming texts -/

def aggregateClass : Text := "YourAggregate".toList

def aggregateTitle : Text := "Your Aggregate".toList

/-- The content of a file after the first three replacements. -/
def renameWord (name s : Text) : Text :=
  replace aggregateClass (snakeToPascalCase name) (renamePart name s)

theorem class_ne_nil : aggregateClass ≠ [] := by
  unfold aggregateClass
  simp

theorem title_ne_nil : aggregateTitle ≠ [] := by
  unfold aggregateTitle
  simp

theorem space_mem_title : ' ' ∈ aggregateTitle := by
  unfold aggregateTitle
  simp

theorem capital_mem_class : 'Y' ∈ aggregateClass := by
  unfold aggregateClass
  simp

section Renaming
variable {name : Text}

theorem renameContent_eq (s : Text) : renameContent name s =
    replace aggregateTitle (replace ['_'] [' '] (PyText.title name)) (renameWord name s) := rfl

theorem not_mem_pascal {x : Char} (hx : x.isAlpha = false) (h : x ∉ name) :
    x ∉ snakeToPascalCase name := by
  intro hmem
  rcases mem_replaceEach hmem (by simp) with hmem | hmem
  · exact h (PyText.mem_of_mem_title hx hmem)
  · simp at hmem

theorem not_mem_spaced {x : Char} (hx : x.isAlpha = false) (hspace : x ≠ ' ') (h : x ∉ name) :
    x ∉ replace ['_'] [' '] (PyText.title name) := by
  intro hmem
  rcases mem_replaceEach hmem (by simp) with hmem | hmem
  · exact h (PyText.mem_of_mem_title hx hmem)
  · exact hspace (by simpa using hmem)

/-- What separates words, the parts of a module and the names on a line. -/
def separators : List Char := [' ', '\n', '.', ',', '(', ':']

theorem separators_spec : ∀ x ∈ separators,
    x.isAlpha = false ∧ (x.isLower || x.isDigit || x = '_') = false ∧
      x ∉ yourBoundedContext ∧ x ∉ yourAggregate ∧ x ∉ aggregateClass ∧
      (x ≠ ' ' → x ∉ aggregateTitle) := by
  unfold yourBoundedContext yourAggregate aggregateClass aggregateTitle
  simp [separators]

theorem splitOn_renameWord (hname : isSnake name = true) {x : Char} (hx : x ∈ separators)
    (s : Text) : (renameWord name s).splitOn x = (s.splitOn x).map (renameWord name) := by
  obtain ⟨halpha, hsnake, hcontext, haggregate, hclass, -⟩ := separators_spec x hx
  have hno := not_mem_snake hname hsnake
  unfold renameWord renamePart replace
  rw [splitOn_replaceEach (by simp [class_ne_nil]) (by simpa using hclass)
      (not_mem_pascal halpha hno),
    splitOn_replaceEach (by simp [aggregate_ne_nil]) (by simpa using haggregate) hno,
    splitOn_replaceEach (by simp [context_ne_nil]) (by simpa using hcontext) hno,
    List.map_map, List.map_map]
  rfl

theorem splitOn_renameContent (hname : isSnake name = true) {x : Char} (hx : x ∈ separators)
    (hspace : x ≠ ' ') (s : Text) :
    (renameContent name s).splitOn x = (s.splitOn x).map (renameContent name) := by
  obtain ⟨halpha, hsnake, -, -, -, htitle⟩ := separators_spec x hx
  have hno := not_mem_spaced halpha hspace (not_mem_snake hname hsnake)
  rw [renameContent_eq, replace, splitOn_replaceEach (by simp [title_ne_nil])
    (by simpa using htitle hspace) hno, splitOn_renameWord hname hx, List.map_map]
  rfl

theorem renameContent_of_no_title {s : Text} (h : ¬ aggregateTitle <:+: renameWord name s) :
    renameContent name s = renameWord name s :=
  replace_eq_self h

theorem space_not_mem_renameWord (hname : isSnake name = true) {word : Text} (h : ' ' ∉ word) :
    ' ' ∉ renameWord name word := by
  have hno : ' ' ∉ name := not_mem_snake hname (by decide)
  intro hmem
  rcases mem_replaceEach hmem (by simp [class_ne_nil]) with hmem | hmem
  · rcases mem_replaceEach hmem (by simp [aggregate_ne_nil]) with hmem | hmem
    · exact (mem_replaceEach hmem (by simp [context_ne_nil])).elim h hno
    · exact hno hmem
  · exact not_mem_pascal (by decide) hno hmem

/-- In a word there is no room for the last of the replacements. -/
theorem renameContent_word (hname : isSnake name = true) {word : Text} (h : ' ' ∉ word) :
    renameContent name word = renameWord name word := by
  exact renameContent_of_no_title fun hin =>
    space_not_mem_renameWord hname h (hin.subset space_mem_title)

end Renaming

/-! ## Lines without a split title

The last replacement has a space in it. It finds nothing in a line whose words do not follow
each other with an r and an A. -/

theorem splitOn_concat {s : Text} {x c : Char} (hc : c ≠ x) :
    ∃ words word, (s ++ [c]).splitOn x = words ++ [word ++ [c]] := by
  induction s with
  | nil => exact ⟨[], [], by simp [List.splitOn_cons_eq_if_modifyHead, hc]⟩
  | cons d s ih =>
    obtain ⟨words, word, h⟩ := ih
    rw [List.cons_append, List.splitOn_cons_eq_if_modifyHead, h]
    by_cases hd : d = x
    · exact ⟨[] :: words, word, by simp [hd]⟩
    · cases words with
      | nil => exact ⟨[], d :: word, by simp [hd]⟩
      | cons first words => exact ⟨(d :: first) :: words, word, by simp [hd]⟩

theorem splitOn_cons {s : Text} {x c : Char} (hc : c ≠ x) :
    ∃ word words, (c :: s).splitOn x = (c :: word) :: words := by
  rw [List.splitOn_cons_eq_if_modifyHead]
  obtain ⟨word, words, h⟩ := List.exists_cons_of_ne_nil (List.splitOn_ne_nil x s)
  exact ⟨word, words, by simp [h, hc]⟩

theorem not_mem_of_mem_splitOn {s word : Text} {x : Char} (h : word ∈ s.splitOn x) :
    x ∉ word := by
  induction hn : s.length using Nat.strong_induction_on generalizing s with
  | _ n ih =>
    subst hn
    by_cases hs : x ∈ s
    · obtain ⟨a, b, rfl, ha⟩ := List.eq_append_cons_of_mem hs
      rw [List.splitOn_append_cons_self_of_not_mem ha, List.mem_cons] at h
      rcases h with rfl | h
      · exact ha
      · exact ih b.length (by simp; omega) h rfl
    · rw [List.splitOn_eq_singleton hs, List.mem_singleton] at h
      exact h ▸ hs

/-- Words that the title cannot run over. -/
def Apart (u v : Text) : Prop := u.getLast? ≠ some 'r' ∨ v.head? ≠ some 'A'

theorem title_not_within {line : Text} (h : (line.splitOn ' ').IsChain Apart) :
    ¬ aggregateTitle <:+: line := by
  rintro ⟨before, after, hline⟩
  have htitle : aggregateTitle = "You".toList ++ ['r'] ++ ' ' :: ('A' :: "ggregate".toList) := by
    unfold aggregateTitle
    simp
  have hsplit : line = (before ++ "You".toList ++ ['r']) ++
      ' ' :: ('A' :: ("ggregate".toList ++ after)) := by
    rw [← hline, htitle]
    simp only [List.append_assoc, List.cons_append, List.nil_append]
  obtain ⟨words, word, hfirst⟩ :=
    splitOn_concat (s := before ++ "You".toList) (x := ' ') (c := 'r') (by decide)
  obtain ⟨word', words', hsecond⟩ :=
    splitOn_cons (s := "ggregate".toList ++ after) (x := ' ') (c := 'A') (by decide)
  rw [hsplit, List.splitOn_append_cons_self, hfirst, hsecond, List.isChain_append] at h
  have hbad := h.2.2 (word ++ ['r']) (by simp) ('A' :: word') (by simp)
  simp [Apart] at hbad

/-- A word without anything to replace. -/
def untouched (word : Text) : Bool :=
  !decide (yourBoundedContext <:+: word) && !decide (yourAggregate <:+: word) &&
    !decide (aggregateClass <:+: word)

theorem renameWord_untouched {name word : Text} (h : untouched word = true) :
    renameWord name word = word := by
  simp only [untouched, Bool.and_eq_true, Bool.not_eq_true', decide_eq_false_iff_not] at h
  rw [renameWord, renamePart, replace_eq_self h.1.1, replace_eq_self h.1.2, replace_eq_self h.2]

/-- Two words that stay apart when they are renamed: the first ends in a separator, or one of
    the two is not renamed and shows it. -/
def staysApart (u v : Text) : Bool :=
  (u.getLast?.any fun c => separators.contains c) ||
    (untouched u && u.getLast? != some 'r') || (untouched v && v.head? != some 'A')

theorem apart_renameWord {name u v : Text} (h : staysApart u v = true) :
    Apart (renameWord name u) (renameWord name v) := by
  simp only [staysApart, Bool.or_eq_true, Bool.and_eq_true, bne_iff_ne] at h
  rcases h with (hsep | ⟨hu, hlast⟩) | ⟨hv, hhead⟩
  · left
    obtain ⟨c, hc, hmem⟩ : ∃ c, u.getLast? = some c ∧ c ∈ separators := by
      cases hc : u.getLast? with
      | none => simp [hc] at hsep
      | some c => exact ⟨c, rfl, by simpa [hc] using hsep⟩
    obtain ⟨u', rfl⟩ := List.getLast?_eq_some_iff.mp hc
    have hsep := separators_spec c hmem
    have hkeep : renameWord name (u' ++ [c]) = renameWord name u' ++ [c] := by
      unfold renameWord renamePart replace
      rw [replaceEach_sep (by simp [context_ne_nil]) (by simpa using hsep.2.2.1),
        replaceEach_sep (by simp [aggregate_ne_nil]) (by simpa using hsep.2.2.2.1),
        replaceEach_sep (by simp [class_ne_nil]) (by simpa using hsep.2.2.2.2.1)]
      rfl
    have hr : c ≠ 'r' := by
      rintro rfl
      exact absurd hsep.1 (by decide)
    simp [hkeep, hr]
  · left
    rwa [renameWord_untouched hu]
  · right
    rwa [renameWord_untouched hv]

/-- A line that is renamed word by word and keeps its keyword. -/
def isPlainLine (line : Text) : Bool :=
  decide ((line.splitOn ' ').IsChain fun u v => staysApart u v = true) &&
    (line.splitOn ' ').head?.all untouched

section Lines
variable {name line : Text}

theorem splitOn_renameContent_line (hname : isSnake name = true)
    (hline : isPlainLine line = true) :
    (renameContent name line).splitOn ' ' = (line.splitOn ' ').map (renameContent name) := by
  simp only [isPlainLine, Bool.and_eq_true, decide_eq_true_eq] at hline
  have hsplit := splitOn_renameWord hname (x := ' ') (by simp [separators]) line
  have hchain : ((renameWord name line).splitOn ' ').IsChain Apart := by
    rw [hsplit]
    exact List.isChain_map_of_isChain (renameWord name) (fun _ _ h => apart_renameWord h) hline.1
  rw [renameContent_of_no_title (title_not_within hchain), hsplit]
  refine List.map_congr_left fun word hword => (renameContent_word hname ?_).symm
  exact not_mem_of_mem_splitOn hword

theorem headD_splitOn (hname : isSnake name = true) {x : Char} (hx : x ∈ separators)
    (hspace : x ≠ ' ') (s : Text) : ((renameContent name s).splitOn x).headD [] =
      renameContent name ((s.splitOn x).headD []) := by
  rw [splitOn_renameContent hname hx hspace]
  obtain ⟨first, words, h⟩ := List.exists_cons_of_ne_nil (List.splitOn_ne_nil x s)
  rw [h]
  rfl

theorem identifier_renameContent (hname : isSnake name = true) (word : Text) :
    identifier (renameContent name word) = renameContent name (identifier word) := by
  unfold identifier
  rw [headD_splitOn hname (by simp [separators]) (by decide),
    headD_splitOn hname (by simp [separators]) (by decide)]

/-- The words of a renamed line, whose keyword is not renamed. -/
theorem words_renameContent (hname : isSnake name = true) (hline : isPlainLine line = true) :
    ∃ keyword rest, line.splitOn ' ' = keyword :: rest ∧
      (renameContent name line).splitOn ' ' = keyword :: rest.map (renameContent name) := by
  obtain ⟨keyword, rest, hwords⟩ := List.exists_cons_of_ne_nil (List.splitOn_ne_nil ' ' line)
  have hkeyword : renameContent name keyword = keyword := by
    have hplain := hline
    simp only [isPlainLine, hwords, Bool.and_eq_true, List.head?_cons, Option.all_some] at hplain
    rw [renameContent_word hname (not_mem_of_mem_splitOn (hwords ▸ List.mem_cons_self)),
      renameWord_untouched hplain.2]
  refine ⟨keyword, rest, hwords, ?_⟩
  rw [splitOn_renameContent_line hname hline, hwords, List.map_cons, hkeyword]

/-- An import renamed in its module and its names. -/
def renameImport (name : Text) (i : Import) : Import :=
  (i.1.map (renameContent name), i.2.map (renameContent name))

theorem readImport_renameContent (hname : isSnake name = true) (keyword : Text)
    (words : List Text) : readImport (keyword :: words.map (renameContent name)) =
      (readImport (keyword :: words)).map (renameImport name) := by
  cases words with
  | nil => rfl
  | cons target rest =>
    have htarget := splitOn_renameContent hname (x := '.') (by simp [separators]) (by decide) target
    have hnames : ((rest.map (renameContent name)).tail.map fun word =>
        (word.splitOn ',').headD []) =
        (rest.tail.map fun word => (word.splitOn ',').headD []).map (renameContent name) := by
      rw [← List.map_tail, List.map_map, List.map_map]
      refine List.map_congr_left fun word _ => ?_
      exact headD_splitOn hname (by simp [separators]) (by decide) word
    have hlast : ((target.splitOn '.').map (renameContent name)).getLastD [] =
        renameContent name ((target.splitOn '.').getLastD []) := by
      rw [List.getLastD_eq_getLast?, List.getLastD_eq_getLast?, List.getLast?_map]
      cases (target.splitOn '.').getLast? with
      | none => rfl
      | some last => rfl
    simp only [readImport, List.map_cons, htarget]
    split
    · rw [Option.map_some, renameImport, hnames]
    · split
      · rfl
      · split
        · rw [Option.map_some, renameImport, List.map_dropLast, hlast]
          rfl
        · rfl

theorem readDefinition_renameContent (hname : isSnake name = true) (keyword : Text)
    (words : List Text) : readDefinition (keyword :: words.map (renameContent name)) =
      (readDefinition (keyword :: words)).map (renameContent name) := by
  cases words with
  | nil => rfl
  | cons word rest =>
    simp only [readDefinition, List.map_cons]
    split
    · rw [Option.map_some, identifier_renameContent hname]
    · split
      · cases rest with
        | nil => rfl
        | cons word' rest => exact congrArg some (identifier_renameContent hname word')
      · rfl

end Lines

/-! ## Renaming contents -/

def isPlain (content : Text) : Bool := (content.splitOn '\n').all isPlainLine

section Contents
variable {name content : Text}

theorem statements_renameContent (hname : isSnake name = true) :
    statements (renameContent name content) = (content.splitOn '\n').map fun line => (renameContent name line).splitOn ' ' := by
  unfold statements
  rw [splitOn_renameContent hname (by simp [separators]) (by decide), List.map_map]
  rfl

theorem imports_renameContent (hname : isSnake name = true) (hcontent : isPlain content = true) :
    imports (renameContent name content) = (imports content).map (renameImport name) := by
  unfold imports
  rw [statements_renameContent hname, statements, List.filterMap_map, List.filterMap_map,
    List.map_filterMap]
  refine List.filterMap_congr fun line hline => ?_
  obtain ⟨keyword, rest, hwords, hrenamed⟩ :=
    words_renameContent hname (List.all_eq_true.mp hcontent line hline)
  simp only [Function.comp, hwords, hrenamed]
  exact readImport_renameContent hname keyword rest

theorem definitions_renameContent (hname : isSnake name = true)
    (hcontent : isPlain content = true) :
    definitions (renameContent name content) =
      (definitions content).map (renameContent name) := by
  unfold definitions
  rw [statements_renameContent hname, statements, List.filterMap_map, List.filterMap_map,
    List.map_filterMap]
  refine List.filterMap_congr fun line hline => ?_
  obtain ⟨keyword, rest, hwords, hrenamed⟩ :=
    words_renameContent hname (List.all_eq_true.mp hcontent line hline)
  simp only [Function.comp, hwords, hrenamed]
  exact readDefinition_renameContent hname keyword rest

end Contents

/-! ## The imports of the template -/

/-- A part of a module of the template. -/
def isModulePart (part : Text) : Bool := isTame part && !part.contains ' ' && !part.contains 'Y'

/-- The module is a template file's, and the file defines the names. -/
def namesTemplate (i : Import) : Bool :=
  i.1.all isModulePart && templateFiles.any fun file =>
    file.path == fileOf i.1 && i.2.all (definitions file.content).contains

/-- What the appended lines import, with the placeholders for the name. -/
def appendedImports : List Import :=
  [(parts ["app", "adapter", "controller", "your_bounded_context", "your_aggregate_controller"],
    parts ["YourAggregateController"]),
   (parts ["app", "adapter", "event_handler", "your_aggregate_event_handler"],
    parts ["YourAggregateEventHandler"]),
   (parts ["app", "adapter", "repository", "orm", "your_aggregate_model"],
    parts ["YourAggregateModel", "YourAggregateArchiveModel"])]

/-- The parts without a placeholder in the modules that are appended. -/
def appendedPackages : List Text :=
  parts ["app", "adapter", "controller", "event_handler", "repository", "orm"]

/-- The parts with a placeholder in these modules, and what follows it. -/
def appendedModules : List (Text × Text) :=
  [("your_bounded_context".toList, "".toList),
   ("your_aggregate_controller".toList, "_controller".toList),
   ("your_aggregate_event_handler".toList, "_event_handler".toList),
   ("your_aggregate_model".toList, "_model".toList)]

/-- The classes that the appended lines name, and what follows the aggregate's. -/
def appendedClasses : List (Text × Text) :=
  [("YourAggregateController".toList, "Controller".toList),
   ("YourAggregateEventHandler".toList, "EventHandler".toList),
   ("YourAggregateModel".toList, "Model".toList),
   ("YourAggregateArchiveModel".toList, "ArchiveModel".toList)]

/-- The template is closed under its own names, and of what the appended lines name only the
    placeholders are renamed. -/
@[mk_iff]
structure ImportFacts : Prop where
  plain : ∀ file ∈ templateFiles, isPlain file.content = true
  closed : ∀ file ∈ templateFiles, (imports file.content).all namesTemplate = true
  appended : appendedImports.all namesTemplate = true
  interfaces : ∃ file ∈ templateFiles, ∃ i ∈ imports file.content, i.1 = parts interfaces
  packages : ∀ word ∈ appendedPackages, untouched word = true ∧ ' ' ∉ word
  modules : ∀ p ∈ appendedModules, isModulePart p.1 = true ∧ rest p.1 = some p.2
  classes : ∀ p ∈ appendedClasses, p.1 = aggregateClass ++ p.2 ∧
    ¬ yourBoundedContext <:+: p.1 ∧ ¬ yourAggregate <:+: p.1 ∧ ¬ aggregateClass <:+: p.2 ∧
      ' ' ∉ p.1

theorem importFacts : ImportFacts := by
  rw [importFacts_iff]
  decide +kernel

theorem namesTemplate_spec {i : Import} (h : namesTemplate i = true) :
    (∀ part ∈ i.1, isModulePart part = true) ∧ ∃ file ∈ templateFiles, file.path = fileOf i.1 ∧
      ∀ n ∈ i.2, n ∈ definitions file.content := by
  simp only [namesTemplate, Bool.and_eq_true, List.all_eq_true, List.any_eq_true, beq_iff_eq,
    List.contains_eq_mem, decide_eq_true_eq] at h
  exact h

section Modules
variable {name : Text}

/-- Only the first two replacements find something in a part of a module. -/
theorem renameContent_part (hname : isSnake name = true) {part : Text} (hspace : ' ' ∉ part)
    (hcapital : 'Y' ∉ part) : renameContent name part = renamePart name part := by
  rw [renameContent_word hname hspace]
  refine replace_eq_self fun hin => ?_
  have hmem : 'Y' ∈ renamePart name part := hin.subset capital_mem_class
  have hno : 'Y' ∉ name := not_mem_snake hname (by decide)
  rcases mem_replaceEach hmem (by simp [aggregate_ne_nil]) with hmem | hmem
  · exact (mem_replaceEach hmem (by simp [context_ne_nil])).elim hcapital hno
  · exact hno hmem

theorem renameContent_modulePart (hname : isSnake name = true) (hunhit : Unhit name)
    {part : Text} (h : isModulePart part = true) :
    renameContent name part = filled name part := by
  simp only [isModulePart, Bool.and_eq_true, Bool.not_eq_true', List.contains_eq_mem,
    decide_eq_false_iff_not] at h
  rw [renameContent_part hname h.1.2 h.2, renamePart_eq_filled hunhit h.1.1]

/-- The file of a filled module. -/
theorem fileOf_filled (module : List Text) :
    (fileOf module).map (filled name) = fileOf (module.map (filled name)) := by
  have hmarks : ∀ m ∈ [yourBoundedContext, yourAggregate], m ≠ [] := by
    simp [context_ne_nil, aggregate_ne_nil]
  have hdot : ∀ m ∈ [yourBoundedContext, yourAggregate], '.' ∉ m := by
    intro m hm
    rcases List.mem_pair.mp hm with rfl | rfl
    · exact not_mem_snake snake_context (by decide)
    · exact not_mem_snake snake_aggregate (by decide)
  have hpy : filled name "py".toList = "py".toList := filled_short (by simp [length_aggregate])
  have hsuffix : ∀ s, filled name (s ++ ".py".toList) = filled name s ++ ".py".toList := by
    intro s
    calc filled name (s ++ ".py".toList) = filled name (s ++ '.' :: "py".toList) := rfl
      _ = filled name s ++ '.' :: filled name "py".toList := replaceEach_sep hmarks hdot s _
      _ = filled name s ++ ".py".toList := by rw [hpy]; rfl
  have hlast : (module.map (filled name)).getLastD [] = filled name (module.getLastD []) := by
    rw [List.getLastD_eq_getLast?, List.getLastD_eq_getLast?, List.getLast?_map]
    cases module.getLast? with
    | none => rfl
    | some last => rfl
  simp only [fileOf, List.map_append, List.map_dropLast, List.map_singleton, hsuffix, hlast]

end Modules

/-! ## The imports that are appended -/

/-- A text with nothing in it that separates words. -/
def IsWord (s : Text) : Prop := ∀ x ∈ separators, x ∉ s

instance (s : Text) : Decidable (IsWord s) := inferInstanceAs (Decidable (∀ x ∈ separators, x ∉ s))

theorem IsWord.append {s t : Text} (hs : IsWord s) (ht : IsWord t) : IsWord (s ++ t) := by
  intro x hx hmem
  exact (List.mem_append.mp hmem).elim (hs x hx) (ht x hx)

theorem isWord_name {name : Text} (hname : isSnake name = true) : IsWord name := fun x hx =>
  not_mem_snake hname (separators_spec x hx).2.1

theorem isWord_pascal {name : Text} (hname : isSnake name = true) :
    IsWord (snakeToPascalCase name) := fun x hx =>
  not_mem_pascal (separators_spec x hx).1 (isWord_name hname x hx)

theorem IsWord.splitOn {s : Text} (hs : IsWord s) {x : Char} (hx : x ∈ separators) :
    s.splitOn x = [s] :=
  List.splitOn_eq_singleton (hs x hx)

theorem IsWord.splitOn_cons {s : Text} (hs : IsWord s) {x : Char} (hx : x ∈ separators)
    (rest : Text) : (s ++ x :: rest).splitOn x = s :: rest.splitOn x :=
  List.splitOn_append_cons_self_of_not_mem (hs x hx) rest

theorem statements_line {line : Text} (h : '\n' ∉ line) (rest : Text) :
    statements (line ++ '\n' :: rest) = line.splitOn ' ' :: statements rest := by
  unfold statements
  rw [List.splitOn_append_cons_self_of_not_mem h, List.map_cons]

theorem imports_from_line {target names : Text} (hspace : ' ' ∉ target) (htarget : '\n' ∉ target)
    (hnames : '\n' ∉ names) (rest : Text) :
    imports ("from ".toList ++ target ++ " import ".toList ++ names ++ '\n' :: rest) =
      (target.splitOn '.', (names.splitOn ' ').map fun word => (word.splitOn ',').headD []) ::
        imports rest := by
  have hfrom : "from ".toList = "from".toList ++ [' '] := by simp
  have himport : " import ".toList = ' ' :: ("import".toList ++ [' ']) := by simp
  have hline : "from ".toList ++ target ++ " import ".toList ++ names =
      "from".toList ++ ' ' :: (target ++ ' ' :: ("import".toList ++ ' ' :: names)) := by
    simp only [hfrom, himport, List.append_assoc, List.cons_append, List.nil_append]
  have hno : '\n' ∉ "from".toList ++ ' ' :: (target ++ ' ' :: ("import".toList ++ ' ' :: names)) := by
    simp [htarget, hnames]
  unfold imports
  rw [hline, statements_line hno, List.filterMap_cons,
    List.splitOn_append_cons_self_of_not_mem (by simp),
    List.splitOn_append_cons_self_of_not_mem hspace,
    List.splitOn_append_cons_self_of_not_mem (by simp)]
  rfl

theorem imports_other_line {line : Text} (h : '\n' ∉ line)
    (hread : readImport (line.splitOn ' ') = none) (rest : Text) :
    imports (line ++ '\n' :: rest) = imports rest := by
  unfold imports
  rw [statements_line h, List.filterMap_cons, hread]

theorem readImport_eq_none {keyword : Text}
    (h : keyword ∉ parts ["from", "import", "operationId:"]) (rest : List Text) :
    readImport (keyword :: rest) = none := by
  simp only [parts, List.map_cons, List.map_nil, List.mem_cons, List.not_mem_nil, or_false,
    not_or] at h
  cases rest with
  | nil => rfl
  | cons target rest =>
    exact (if_neg h.1).trans ((if_neg h.2.1).trans (if_neg h.2.2))

theorem not_mem_dotted {a b : Text} {x : Char} (hdot : x ≠ '.') (ha : x ∉ a) (hb : x ∉ b) :
    x ∉ a ++ '.' :: b := by
  intro hmem
  rcases List.mem_append.mp hmem with hmem | hmem
  · exact ha hmem
  · exact (List.mem_cons.mp hmem).elim hdot hb

section Appended
variable {name : Text}

theorem imports_controllerLines (hname : isSnake name = true) : imports (controllerLines name) =
    [([[], name, name ++ "_controller".toList],
      [snakeToPascalCase name ++ "Controller".toList])] := by
  have hspace : ' ' ∈ separators := by decide
  have hnewline : '\n' ∈ separators := by decide
  have hdot : '.' ∈ separators := by decide
  have hcomma : ',' ∈ separators := by decide
  have hn := isWord_name hname
  have hmodule : IsWord (name ++ "_controller".toList) := hn.append (by simp [IsWord, separators])
  have hclass : IsWord (snakeToPascalCase name ++ "Controller".toList) :=
    (isWord_pascal hname).append (by simp [IsWord, separators])
  have htext : controllerLines name = "from ".toList ++
      ([] ++ '.' :: (name ++ '.' :: (name ++ "_controller".toList))) ++ " import ".toList ++
      (snakeToPascalCase name ++ "Controller".toList) ++ '\n' ::
        ((name ++ "_controller".toList) ++ ' ' ::
          ("= ".toList ++ snakeToPascalCase name ++ "Controller()".toList) ++ '\n' :: []) := by
    unfold controllerLines
    rw [show "from .".toList = "from ".toList ++ ['.'] by simp,
      show "_controller import ".toList = "_controller".toList ++ " import ".toList by simp,
      show "Controller\n".toList = "Controller".toList ++ ['\n'] by simp,
      show "_controller = ".toList = "_controller".toList ++ ' ' :: "= ".toList by simp,
      show "Controller()\n".toList = "Controller()".toList ++ ['\n'] by simp,
      show ".".toList = ['.'] by simp]
    simp only [List.append_assoc, List.cons_append, List.nil_append]
  have hkeyword : name ++ "_controller".toList ∉ parts ["from", "import", "operationId:"] := by
    intro hmem
    have hno : ∀ keyword ∈ parts ["from", "import", "operationId:"], '_' ∉ keyword := by
      simp [parts]
    exact hno _ hmem (List.mem_append_right name (by simp))
  have hcall : '\n' ∉ (name ++ "_controller".toList) ++ ' ' ::
      ("= ".toList ++ snakeToPascalCase name ++ "Controller()".toList) := by
    simp only [List.mem_append, List.mem_cons, not_or]
    exact ⟨⟨hn _ hnewline, by simp⟩, by decide, ⟨by simp, isWord_pascal hname _ hnewline⟩, by simp⟩
  have hother : readImport (((name ++ "_controller".toList) ++ ' ' ::
      ("= ".toList ++ snakeToPascalCase name ++ "Controller()".toList)).splitOn ' ') = none := by
    rw [hmodule.splitOn_cons hspace, readImport_eq_none hkeyword]
  have htarget : ∀ x ∈ separators, x ≠ '.' →
      x ∉ [] ++ '.' :: (name ++ '.' :: (name ++ "_controller".toList)) := fun x hx hne =>
    not_mem_dotted hne (by simp) (not_mem_dotted hne (hn x hx) (hmodule x hx))
  rw [htext, imports_from_line (htarget ' ' hspace (by decide)) (htarget '\n' hnewline (by decide))
      (hclass _ hnewline), imports_other_line hcall hother,
    List.splitOn_append_cons_self_of_not_mem (by simp), hn.splitOn_cons hdot,
    hmodule.splitOn hdot, hclass.splitOn hspace, List.map_singleton, hclass.splitOn hcomma]
  rfl

theorem imports_eventHandlerLines (hname : isSnake name = true) :
    imports (eventHandlerLines name) =
      [([[], name ++ "_event_handler".toList],
        [snakeToPascalCase name ++ "EventHandler".toList])] := by
  have hspace : ' ' ∈ separators := by decide
  have hnewline : '\n' ∈ separators := by decide
  have hdot : '.' ∈ separators := by decide
  have hcomma : ',' ∈ separators := by decide
  have hn := isWord_name hname
  have hp := isWord_pascal hname
  have hmodule : IsWord (name ++ "_event_handler".toList) := hn.append (by simp [IsWord, separators])
  have hclass : IsWord (snakeToPascalCase name ++ "EventHandler".toList) :=
    hp.append (by simp [IsWord, separators])
  have htext : eventHandlerLines name = "from ".toList ++
      ([] ++ '.' :: (name ++ "_event_handler".toList)) ++ " import ".toList ++
      (snakeToPascalCase name ++ "EventHandler".toList) ++ '\n' ::
        ("__all__.append('".toList ++ snakeToPascalCase name ++ "EventHandler')".toList ++
          '\n' :: []) := by
    unfold eventHandlerLines
    rw [show "from .".toList = "from ".toList ++ ['.'] by simp,
      show "_event_handler import ".toList = "_event_handler".toList ++ " import ".toList by simp,
      show "EventHandler\n__all__.append('".toList =
        "EventHandler".toList ++ '\n' :: "__all__.append('".toList by simp,
      show "EventHandler')\n".toList = "EventHandler')".toList ++ ['\n'] by simp]
    simp only [List.append_assoc, List.cons_append, List.nil_append]
  have hcall : ∀ x ∈ [' ', '\n'],
      x ∉ "__all__.append('".toList ++ snakeToPascalCase name ++ "EventHandler')".toList := by
    intro x hx hmem
    have hlit : ∀ x ∈ [' ', '\n'], x ∈ separators ∧ x ∉ "__all__.append('".toList ∧
        x ∉ "EventHandler')".toList := by simp [separators]
    obtain ⟨hsep, hleft, hright⟩ := hlit x hx
    simp only [List.mem_append] at hmem
    exact hmem.elim (fun h => h.elim hleft (hp x hsep)) hright
  have hother : readImport (("__all__.append('".toList ++ snakeToPascalCase name ++
      "EventHandler')".toList).splitOn ' ') = none := by
    rw [List.splitOn_eq_singleton (hcall ' ' (by decide))]
    rfl
  have htarget : ∀ x ∈ separators, x ≠ '.' → x ∉ [] ++ '.' :: (name ++ "_event_handler".toList) :=
    fun x hx hne => not_mem_dotted hne (by simp) (hmodule x hx)
  rw [htext, imports_from_line (htarget ' ' hspace (by decide)) (htarget '\n' hnewline (by decide))
      (hclass _ hnewline), imports_other_line (hcall '\n' (by decide)) hother,
    List.splitOn_append_cons_self_of_not_mem (by simp), hmodule.splitOn hdot,
    hclass.splitOn hspace, List.map_singleton, hclass.splitOn hcomma]
  rfl

theorem imports_ormLines (hname : isSnake name = true) : imports (ormLines name) =
    [([[], name ++ "_model".toList], [snakeToPascalCase name ++ "Model".toList,
      snakeToPascalCase name ++ "ArchiveModel".toList])] := by
  have hspace : ' ' ∈ separators := by decide
  have hnewline : '\n' ∈ separators := by decide
  have hdot : '.' ∈ separators := by decide
  have hcomma : ',' ∈ separators := by decide
  have hn := isWord_name hname
  have hp := isWord_pascal hname
  have hmodule : IsWord (name ++ "_model".toList) := hn.append (by simp [IsWord, separators])
  have hclass : IsWord (snakeToPascalCase name ++ "Model".toList) := hp.append (by simp [IsWord, separators])
  have harchive : IsWord (snakeToPascalCase name ++ "ArchiveModel".toList) :=
    hp.append (by simp [IsWord, separators])
  have htext : ormLines name = "from ".toList ++
      ([] ++ '.' :: (name ++ "_model".toList)) ++ " import ".toList ++
      ((snakeToPascalCase name ++ "Model".toList ++ [',']) ++ ' ' ::
        (snakeToPascalCase name ++ "ArchiveModel".toList)) ++ '\n' :: [] := by
    unfold ormLines
    rw [show "from .".toList = "from ".toList ++ ['.'] by simp,
      show "_model import ".toList = "_model".toList ++ " import ".toList by simp,
      show "Model, ".toList = "Model".toList ++ [',', ' '] by simp,
      show "ArchiveModel\n".toList = "ArchiveModel".toList ++ ['\n'] by simp]
    simp only [List.append_assoc, List.cons_append, List.nil_append]
  have hfirst : ∀ x ∈ separators, x ≠ ',' →
      x ∉ snakeToPascalCase name ++ "Model".toList ++ [','] := by
    intro x hx hne hmem
    exact (List.mem_append.mp hmem).elim (hclass x hx) fun h => hne (List.mem_singleton.mp h)
  have hnames : '\n' ∉ (snakeToPascalCase name ++ "Model".toList ++ [',']) ++ ' ' ::
      (snakeToPascalCase name ++ "ArchiveModel".toList) := by
    intro hmem
    rcases List.mem_append.mp hmem with hmem | hmem
    · exact hfirst _ hnewline (by decide) hmem
    · exact (List.mem_cons.mp hmem).elim (by decide) (harchive _ hnewline)
  have htarget : ∀ x ∈ separators, x ≠ '.' → x ∉ [] ++ '.' :: (name ++ "_model".toList) :=
    fun x hx hne => not_mem_dotted hne (by simp) (hmodule x hx)
  rw [htext, imports_from_line (htarget ' ' hspace (by decide)) (htarget '\n' hnewline (by decide))
      hnames, List.splitOn_append_cons_self_of_not_mem (by simp), hmodule.splitOn hdot,
    List.splitOn_append_cons_self_of_not_mem (hfirst ' ' hspace (by decide)),
    harchive.splitOn hspace, List.map_cons, List.map_singleton, hclass.splitOn_cons hcomma,
    harchive.splitOn hcomma]
  rfl

theorem renameContent_rest (hname : isSnake name = true) (hunhit : Unhit name) {part s : Text}
    (hpart : isModulePart part = true) (hrest : rest part = some s) :
    renameContent name part = name ++ s := by
  have htame : isTame part = true := by
    simp only [isModulePart, Bool.and_eq_true] at hpart
    exact hpart.1.1
  rw [renameContent_modulePart hname hunhit hpart, filled_eq name htame, hrest]
  rfl

theorem renameContent_untouched (hname : isSnake name = true) {word : Text}
    (h : untouched word = true ∧ ' ' ∉ word) : renameContent name word = word := by
  rw [renameContent_word hname h.2, renameWord_untouched h.1]

theorem renameContent_class (hname : isSnake name = true) {word s : Text}
    (hword : word = aggregateClass ++ s) (h : ¬ yourBoundedContext <:+: word ∧
      ¬ yourAggregate <:+: word ∧ ¬ aggregateClass <:+: s ∧ ' ' ∉ word) :
    renameContent name word = snakeToPascalCase name ++ s := by
  obtain ⟨hcontext, haggregate, hclass, hspace⟩ := h
  rw [renameContent_word hname hspace, renameWord, renamePart, replace_eq_self hcontext,
    replace_eq_self haggregate, hword, replace_append _ class_ne_nil, replace_eq_self hclass]

/-- The appended lines import what the placeholders of the template become. -/
theorem appended_imports (hname : isSnake name = true) (hunhit : Unhit name) :
    ((appended name).map fun lines =>
      (imports lines.text).map fun i => (absolute lines.package i.1, i.2)) =
      appendedImports.map fun i => [renameImport name i] := by
  have hpackages : ∀ word ∈ appendedPackages, renameContent name word = word :=
    fun word hword => renameContent_untouched hname (importFacts.packages word hword)
  have hmodules : ∀ p ∈ appendedModules, renameContent name p.1 = name ++ p.2 := fun p hp =>
    renameContent_rest hname hunhit (importFacts.modules p hp).1 (importFacts.modules p hp).2
  have hclasses : ∀ p ∈ appendedClasses, renameContent name p.1 = snakeToPascalCase name ++ p.2 :=
    fun p hp => renameContent_class hname (importFacts.classes p hp).1
      (importFacts.classes p hp).2
  simp only [appendedPackages, parts, List.map_cons, List.map_nil, List.forall_mem_cons]
    at hpackages
  simp only [appendedModules, List.forall_mem_cons] at hmodules
  simp only [appendedClasses, List.forall_mem_cons] at hclasses
  obtain ⟨happ, hadapter, hcontroller, heventHandler, hrepository, horm, -⟩ := hpackages
  obtain ⟨hcontext, h₁, h₂, h₃, -⟩ := hmodules
  obtain ⟨h₄, h₅, h₆, h₇, -⟩ := hclasses
  unfold appended appendedImports
  simp only [List.map_cons, List.map_nil, imports_controllerLines hname,
    imports_eventHandlerLines hname, imports_ormLines hname, renameImport, parts, happ, hadapter,
    hcontroller, heventHandler, hrepository, horm, hcontext, h₁, h₂, h₃, h₄, h₅, h₆, h₇,
    String.toList_empty, List.append_nil]
  rfl

end Appended

end DddService.CopyTool
