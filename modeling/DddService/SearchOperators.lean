import DddService.Search

/- The search operators. `create_search_key_regexp` writes its anchors around the
   alternatives, so `^` stands in the first and `$` in the last of them; a key in any
   other is looked for everywhere in the value. `regexpMatch_iff` says what the
   expression matches, and `search_operator_iff` when that is what the operator says. -/
namespace DddService

/-- What a search with an operator, or none, asks of a value. -/
def SearchOperator.Holds (op : Option SearchOperator) (key value : String) : Prop :=
  match op with
  | none => key.toList <:+: value.toList
  | some .starts => key.toList <+: value.toList
  | some .ends => key.toList <:+ value.toList
  | some .equals => value = key

/-- The value has a key in an alternative that lacks one of the operator's anchors. -/
def SearchOperator.Loosened (op : Option SearchOperator) (keys : List String) (value : String) :
    Prop :=
  match op with
  | none => False
  | some .starts => ∃ key ∈ keys.tail, key.toList <:+: value.toList
  | some .ends => ∃ key ∈ keys.dropLast, key.toList <:+: value.toList
  | some .equals => 2 ≤ keys.length ∧
      ((∃ key ∈ keys.head?, key.toList <+: value.toList) ∨
        (∃ key ∈ keys.tail.dropLast, key.toList <:+: value.toList) ∨
        ∃ key ∈ keys.getLast?, key.toList <:+ value.toList)

/-- A search key field: the operator's name and colon, if there is one, and the field. -/
def SearchOperator.fieldText (op : Option SearchOperator) (name : String) : String :=
  match op with
  | none => name
  | some op => op.prefixText ++ name

namespace WordChars
variable (w : WordChars)

/-- A text that `\w+` matches whole. -/
def IsName (name : String) : Prop := name ≠ "" ∧ ∀ c ∈ name.toList, w.isWord c = true

variable {w}

theorem colon_not_word : w.isWord ':' = false := w.ascii ':' (by decide)

theorem newline_not_word : w.isWord '\n' = false := w.ascii '\n' (by decide)

/-- A name of ASCII letters, digits and underscores, whatever the rest of the table. -/
theorem isName_of_ascii {name : String} (hne : name ≠ "")
    (h : (name.toList.all fun c => decide (c.toNat < 128) && (c.isAlphanum || c == '_')) = true) :
    w.IsName name := by
  refine ⟨hne, fun c hc => ?_⟩
  have hascii := List.all_eq_true.mp h c hc
  rw [Bool.and_eq_true, decide_eq_true_eq] at hascii
  rw [w.ascii c hascii.1]
  exact hascii.2

theorem matchWord_name {name : String} (h : w.IsName name) :
    w.matchWord name.toList = some name.toList := by
  have hlast : ¬name.toList.getLast? = some '\n' := by
    intro hl
    have hnl := h.2 '\n' (List.mem_of_getLast? hl)
    rw [newline_not_word] at hnl
    cases hnl
  have hne : name.toList ≠ [] := by simpa using h.1
  unfold matchWord
  rw [if_neg hlast, if_pos ⟨hne, List.all_eq_true.mpr h.2⟩]

end WordChars

namespace RepositoryBase
variable {w : WordChars} {name : String}

theorem matchSearchKeyField_text (h : w.IsName name) (op : Option SearchOperator) :
    matchSearchKeyField w (SearchOperator.fieldText op name).toList = some (op, name.toList) := by
  have hword := WordChars.matchWord_name h
  unfold matchSearchKeyField
  cases op with
  | none =>
    -- an operator's colon would be a character of the name
    have hnone : (SearchOperator.all.find? fun op => op.prefixText.toList.isPrefixOf name.toList) =
        none := by
      rw [List.find?_eq_none]
      intro op _ hop
      have hcolon : ':' ∈ op.prefixText.toList := by cases op <;> decide
      have hw := h.2 ':' ((List.isPrefixOf_iff_prefix.mp hop).subset hcolon)
      rw [WordChars.colon_not_word] at hw
      cases hw
    simp only [SearchOperator.fieldText, hnone, hword, Option.map_some]
  | some op =>
    have hfind : (SearchOperator.all.find? fun op' =>
        op'.prefixText.toList.isPrefixOf (op.prefixText ++ name).toList) = some op := by
      cases op <;> simp [SearchOperator.all, SearchOperator.prefixText]
    simp only [SearchOperator.fieldText, hfind]
    rw [String.toList_append, List.drop_left, hword]
    rfl

/-- The atoms before the joined keys. -/
def startAtoms : Option SearchOperator → List Regex.Atom
  | some .starts | some .equals => [.start]
  | _ => []

/-- The atoms after them. -/
def stopAtoms : Option SearchOperator → List Regex.Atom
  | some .ends | some .equals => [.stop]
  | _ => []

/-- The alternatives of the expression: the anchors stand in the first and in the last. -/
theorem parse_createSearchKeyRegexp (h : w.IsName name) (op : Option SearchOperator)
    (init : List String) (last : String) :
    Regex.parse false
        (createSearchKeyRegexp w (SearchOperator.fieldText op name) (init ++ [last])).2.toList =
      some (Regex.prependAll (startAtoms op)
        (init.map (fun key => Regex.literal key.toList) ++
          [Regex.literal last.toList ++ stopAtoms op])) := by
  have hjoin : ∀ (after : List Char) (as : List Regex.Atom), Regex.parse false after = some [as] →
      Regex.parse false (['|'].intercalate
          ((init ++ [last]).map fun key => Regex.escape key.toList) ++ after) =
        some (init.map (fun key => Regex.literal key.toList) ++ [Regex.literal last.toList ++ as]) := by
    intro after as hafter
    have hp := Regex.parse_join (init.map String.toList) last.toList hafter
    simpa [Function.comp_def] using hp
  unfold createSearchKeyRegexp
  rw [matchSearchKeyField_text h op]
  rcases op with _ | _ | _ | _
  · have hp := hjoin [] [] rfl
    simpa [startAtoms, stopAtoms, Function.comp_def] using hp
  · have hp := hjoin [] [] rfl
    simpa [startAtoms, stopAtoms, Function.comp_def, Regex.parse_start, Regex.prependAll_singleton] using
      congrArg (Option.map (Regex.prepend .start)) hp
  · have hp := hjoin _ _ Regex.parse_stop
    simpa [startAtoms, stopAtoms, Function.comp_def] using hp
  · have hp := hjoin _ _ Regex.parse_stop
    simpa [startAtoms, stopAtoms, Function.comp_def, Regex.parse_start, Regex.prependAll_singleton] using
      congrArg (Option.map (Regex.prepend .start)) hp

/-- What the expression matches: what the operator says, and the keys that lost an anchor. -/
theorem regexpMatch_iff (h : w.IsName name) (op : Option SearchOperator) {keys : List String}
    (hkeys : keys ≠ []) (value : String) :
    regexpMatch (createSearchKeyRegexp w (SearchOperator.fieldText op name) keys).2 value = true ↔
      (∃ key ∈ keys, SearchOperator.Holds op key value) ∨ SearchOperator.Loosened op keys value := by
  obtain ⟨init, last, rfl⟩ := (List.eq_nil_or_concat keys).resolve_left hkeys
  rw [List.concat_eq_append]
  unfold regexpMatch
  rw [parse_createSearchKeyRegexp h op init last, Option.any_some]
  -- '^' is in the first alternative and '$' in the last: those between have neither
  rcases op with _ | _ | _ | _
  · simp [startAtoms, stopAtoms, Regex.search, Regex.search_literal, SearchOperator.Holds,
      SearchOperator.Loosened]
  · cases init with
    | nil =>
      simp [startAtoms, stopAtoms, Regex.search, Regex.search_start_literal, SearchOperator.Holds,
        SearchOperator.Loosened]
    | cons first mid =>
      simp only [startAtoms, stopAtoms, List.append_nil, List.map_cons, List.cons_append,
        Regex.prependAll_cons, List.nil_append, Regex.search, List.any_cons, List.any_append,
        List.any_map, List.any_nil, Bool.or_false, Bool.or_eq_true, List.any_eq_true,
        Function.comp_apply, Regex.search_start_literal, Regex.search_literal, SearchOperator.Holds,
        SearchOperator.Loosened, List.mem_cons, List.mem_append, List.tail_cons, List.not_mem_nil,
        or_false]
      grind [List.IsPrefix.isInfix]
  · simp only [startAtoms, stopAtoms, Regex.prependAll_nil, Regex.search, List.any_cons,
      List.any_append, List.any_map, List.any_nil, Bool.or_false, Bool.or_eq_true,
      List.any_eq_true, Function.comp_apply, Regex.search_literal_stop, Regex.search_literal,
      SearchOperator.Holds, SearchOperator.Loosened, List.mem_append, List.mem_singleton,
      List.dropLast_concat]
    grind [List.IsSuffix.isInfix]
  · cases init with
    | nil =>
      simp [startAtoms, stopAtoms, Regex.search, Regex.search_start_literal_stop,
        SearchOperator.Holds, SearchOperator.Loosened, String.toList_inj]
    | cons first mid =>
      simp only [startAtoms, stopAtoms, List.map_cons, List.cons_append, Regex.prependAll_cons,
        List.nil_append, Regex.search, List.any_cons, List.any_append, List.any_map, List.any_nil,
        Bool.or_false, Bool.or_eq_true, List.any_eq_true, Function.comp_apply,
        Regex.search_start_literal, Regex.search_literal, Regex.search_literal_stop,
        SearchOperator.Holds, SearchOperator.Loosened, List.tail_cons, List.dropLast_concat,
        List.head?_cons]
      grind

end RepositoryBase

section
variable {w : WordChars} {name : String}

/-- The expression means what the operator says for just the values that satisfy it or
    have no key in an alternative that lost an anchor. -/
theorem search_operator_iff (h : w.IsName name) (op : Option SearchOperator) {keys : List String}
    (hkeys : keys ≠ []) (value : String) :
    (regexpMatch (RepositoryBase.createSearchKeyRegexp w (SearchOperator.fieldText op name) keys).2
        value = true ↔ ∃ key ∈ keys, SearchOperator.Holds op key value) ↔
      (SearchOperator.Loosened op keys value → ∃ key ∈ keys, SearchOperator.Holds op key value) := by
  rw [RepositoryBase.regexpMatch_iff h op hkeys value]
  constructor
  · intro hiff hloose
    exact hiff.mp (Or.inr hloose)
  · intro hloose
    exact ⟨fun hmatch => hmatch.elim id hloose, Or.inl⟩

end

/-- Its premises hold of a field and two keys. -/
theorem search_operator_iff_starts :
    (regexpMatch (RepositoryBase.createSearchKeyRegexp .plain
        (SearchOperator.fieldText (some .starts) "your_value_object_a") ["a", "b"]).2 "ac" = true ↔
      ∃ key ∈ ["a", "b"], SearchOperator.Holds (some .starts) key "ac") ↔
    (SearchOperator.Loosened (some .starts) ["a", "b"] "ac" →
      ∃ key ∈ ["a", "b"], SearchOperator.Holds (some .starts) key "ac") :=
  search_operator_iff (WordChars.isName_of_ascii (by decide) (by decide)) _ (List.cons_ne_nil _ _) _

/-- `^a|b` matches in `cb`, which starts with neither `a` nor `b`. -/
theorem starts_matches_inside :
    ¬(regexpMatch (RepositoryBase.createSearchKeyRegexp .plain "starts:your_value_object_a"
        ["a", "b"]).2 "cb" = true ↔
      ∃ key ∈ ["a", "b"], SearchOperator.Holds (some .starts) key "cb") := by
  have hmatch : regexpMatch (RepositoryBase.createSearchKeyRegexp .plain
      "starts:your_value_object_a" ["a", "b"]).2 "cb" = true := by decide
  have hnone : ¬∃ key ∈ ["a", "b"], SearchOperator.Holds (some .starts) key "cb" := by
    simp [SearchOperator.Holds]
  exact fun h => hnone (h.mp hmatch)

end DddService
