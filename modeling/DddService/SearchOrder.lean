import DddService.SearchOperators

/- The ORDER BY list of a search. The loop of `create_sort_by_exp` keeps the first
   occurrence of every recognised field (`createSortByExp_first`). Where nothing is
   recognised `_search` asks for `-created`, which is no key of the repository's
   `sort_by_fields`, and the list stays empty (`searchOrderBy_nil`). -/
namespace DddService
open RepositoryBase

/-- A recognised item of `sort_by`: its field, the field's column, and whether the item
    carries `-`. -/
structure SortItem (κ : Type) where
  field : String
  column : κ
  descending : Bool
  deriving DecidableEq, Repr

def SortItem.expression {κ : Type} (i : SortItem κ) : UnaryExpression κ :=
  if i.descending then .desc i.column else .asc i.column

section
variable {κ : Type} (w : WordChars) (sortByFields : Dict String κ)

/-- An item of `sort_by` that has the form asked for and names a known field. -/
def recognise (sort : String) : Option (SortItem κ) := do
  let (order, field) ← matchSort w sort
  let column ← sortByFields.get? field
  pure ⟨field, column, order = "-"⟩

/-- The recognised items of `sort_by`. -/
def recognised (sortBy : List String) : List (SortItem κ) :=
  sortBy.filterMap (recognise w sortByFields)

/-- `chosen` are the items with the first occurrence of each field, in order. -/
structure FirstOccurrences (items chosen : List (SortItem κ)) : Prop where
  once : (chosen.map (·.field)).Nodup
  all : ∀ i ∈ items, i.field ∈ chosen.map (·.field)
  first : ∀ i ∈ chosen, items.find? (fun j => j.field = i.field) = some i
  inOrder : chosen.Pairwise fun i j =>
    items.findIdx (fun k => k.field = i.field) < items.findIdx (fun k => k.field = j.field)

end

/-! ## The form of an item -/

namespace WordChars
variable {w : WordChars}

theorem matchWord_iff {s word : List Char} : w.matchWord s = some word ↔
    (s = word ∨ s = word ++ ['\n']) ∧ word ≠ [] ∧ ∀ c ∈ word, w.isWord c = true := by
  have hnewline : ∀ cs : List Char, (∀ c ∈ cs, w.isWord c = true) → '\n' ∉ cs := by
    intro cs hcs hmem
    have hnl := hcs '\n' hmem
    rw [newline_not_word] at hnl
    cases hnl
  unfold matchWord
  simp only [Option.ite_none_right_eq_some, List.all_eq_true, Option.some.injEq]
  by_cases hlast : s.getLast? = some '\n'
  · obtain ⟨init, rfl⟩ := List.getLast?_eq_some_iff.mp hlast
    rw [if_pos hlast, List.dropLast_concat]
    constructor
    · rintro ⟨⟨hne, hword⟩, rfl⟩
      exact ⟨Or.inr rfl, hne, hword⟩
    · rintro ⟨rfl | hs, hne, hword⟩
      · exact absurd (List.mem_concat_self) (hnewline _ hword)
      · rw [List.append_cancel_right hs]
        exact ⟨⟨hne, hword⟩, rfl⟩
  · rw [if_neg hlast]
    constructor
    · rintro ⟨⟨hne, hword⟩, rfl⟩
      exact ⟨Or.inl rfl, hne, hword⟩
    · rintro ⟨rfl | rfl, hne, hword⟩
      · exact ⟨⟨hne, hword⟩, rfl⟩
      · exact absurd List.getLast?_concat hlast

theorem matchWord_text {s : List Char} {name : String} :
    (w.matchWord s).map String.ofList = some name ↔
      w.IsName name ∧ (s = name.toList ∨ s = name.toList ++ ['\n']) := by
  rw [Option.map_eq_some_iff]
  constructor
  · rintro ⟨word, hword, rfl⟩
    obtain ⟨hs, hne, hall⟩ := matchWord_iff.mp hword
    rw [String.toList_ofList]
    exact ⟨⟨by simpa using hne, by simpa using hall⟩, hs⟩
  · rintro ⟨⟨hne, hall⟩, hs⟩
    exact ⟨name.toList, matchWord_iff.mpr ⟨hs, by simpa using hne, hall⟩, String.ofList_toList⟩

end WordChars

section
variable {κ : Type} {w : WordChars} {sortByFields : Dict String κ}

/-- `field` is read after `order`, up to a newline at the end. -/
def ReadAs (w : WordChars) (sort : List Char) (order field : String) : Prop :=
  order ∈ ["-", "+", ""] ∧ w.IsName field ∧
    (sort = order.toList ++ field.toList ∨ sort = order.toList ++ (field.toList ++ ['\n']))

theorem matchWord_after (cs : List Char) (o order field : String) :
    ((w.matchWord cs).map fun f => (o, String.ofList f)) = some (order, field) ↔
      o = order ∧ w.IsName field ∧ (cs = field.toList ∨ cs = field.toList ++ ['\n']) := by
  rw [← WordChars.matchWord_text]
  cases w.matchWord cs with
  | none => simp
  | some word => simp

theorem sign_ne_name {cs : List Char} {c : Char} {field : String} (hc : w.isWord c = false)
    (hfield : w.IsName field) : ¬(c :: cs = field.toList ∨ c :: cs = field.toList ++ ['\n']) := by
  intro hcs
  obtain ⟨d, ds, hds⟩ := List.exists_cons_of_ne_nil (l := field.toList) (by simpa using hfield.1)
  have hd := hfield.2 d (hds ▸ List.mem_cons_self)
  rw [hds] at hcs
  have hcd : c = d := hcs.elim (fun h => (List.cons.inj h).1) fun h => (List.cons.inj h).1
  rw [hcd, hd] at hc
  cases hc

/-- After the sign `c` the field is read under that sign's text, and under no other. -/
theorem readAs_sign {c : Char} {cs : List Char} {o order field : String} (ho : o.toList = [c])
    (hmem : o ∈ ["-", "+", ""]) (hc : w.isWord c = false) :
    (o = order ∧ w.IsName field ∧ (cs = field.toList ∨ cs = field.toList ++ ['\n'])) ↔
      ReadAs w (c :: cs) order field := by
  constructor
  · rintro ⟨rfl, hfield, h⟩
    refine ⟨hmem, hfield, ?_⟩
    rw [ho]
    exact h.imp (congrArg _) (congrArg _)
  · rintro ⟨horder, hfield, h⟩
    have hone : order.toList = [] ∨ ∃ d, order.toList = [d] := by
      simp only [List.mem_cons, List.not_mem_nil, or_false] at horder
      rcases horder with rfl | rfl | rfl
      · exact Or.inr ⟨'-', rfl⟩
      · exact Or.inr ⟨'+', rfl⟩
      · exact Or.inl rfl
    rcases hone with hnil | ⟨d, hd⟩
    · rw [hnil] at h
      exact absurd h (sign_ne_name hc hfield)
    · rw [hd] at h
      have hcd : c = d := h.elim (fun h => (List.cons.inj h).1) fun h => (List.cons.inj h).1
      have hrest := h.imp (fun h => (List.cons.inj h).2) fun h => (List.cons.inj h).2
      refine ⟨String.toList_inj.mp ?_, hfield, hrest⟩
      rw [ho, hd, hcd]

/-- What `^([\-\+]?)(\w+)$` reads: a sign or none, a name, and perhaps a newline. -/
theorem matchSort_iff {sort order field : String} : matchSort w sort = some (order, field) ↔
    order ∈ ["-", "+", ""] ∧ w.IsName field ∧
      (sort = order ++ field ∨ sort = order ++ field ++ "\n") := by
  have hsort : (sort = order ++ field ∨ sort = order ++ field ++ "\n") ↔
      (sort.toList = order.toList ++ field.toList ∨
        sort.toList = order.toList ++ (field.toList ++ ['\n'])) := by
    rw [← String.toList_inj, ← String.toList_inj]
    simp
  rw [hsort]
  show _ ↔ ReadAs w sort.toList order field
  unfold matchSort
  split
  · rename_i cs hcs
    rw [matchWord_after, hcs]
    exact readAs_sign rfl (by simp) (w.ascii '-' (by decide))
  · rename_i cs hcs
    rw [matchWord_after, hcs]
    exact readAs_sign rfl (by simp) (w.ascii '+' (by decide))
  · rename_i cs hm hp
    rw [matchWord_after]
    constructor
    · rintro ⟨rfl, hfield, h⟩
      exact ⟨by simp, hfield, by simpa using h⟩
    · rintro ⟨ho, hfield, h⟩
      -- a text that does not begin with a sign is read without one
      simp only [List.mem_cons, List.not_mem_nil, or_false] at ho
      rcases ho with rfl | rfl | rfl
      · exact (h.elim (hm _) (hm _)).elim
      · exact (h.elim (hp _) (hp _)).elim
      · exact ⟨rfl, hfield, by simpa using h⟩

/-! ## The loop -/

/-- The items whose field is not in `used` and does not occur before. -/
def firstOccurrences : (used : List String) → List (SortItem κ) → List (SortItem κ)
  | _, [] => []
  | used, i :: items =>
    if i.field ∈ used then firstOccurrences used items
    else i :: firstOccurrences (i.field :: used) items

theorem sortByLoop_eq (used sortBy : List String) : sortByLoop w sortByFields used sortBy =
    (firstOccurrences used (recognised w sortByFields sortBy)).map SortItem.expression := by
  induction sortBy generalizing used with
  | nil => rfl
  | cons sort sortBy ih =>
    unfold sortByLoop
    rw [recognised, List.filterMap_cons, ← recognised]
    cases hm : matchSort w sort with
    | none =>
      have hr : recognise w sortByFields sort = none := by simp [recognise, hm]
      rw [hr]
      exact ih used
    | some m =>
      obtain ⟨order, field⟩ := m
      cases hc : sortByFields.get? field with
      | none =>
        have hr : recognise w sortByFields sort = none := by simp [recognise, hm, hc]
        rw [hr]
        simpa [hc] using ih used
      | some column =>
        have hr : recognise w sortByFields sort = some ⟨field, column, order = "-"⟩ := by
          simp [recognise, hm, hc]
        rw [hr]
        simp only [hc, firstOccurrences]
        by_cases hused : field ∈ used
        · rw [if_pos hused, if_pos hused]
          exact ih used
        · rw [if_neg hused, if_neg hused, List.map_cons]
          refine congr (congrArg _ ?_) (ih (field :: used))
          simp only [SortItem.expression, decide_eq_true_eq]

theorem firstOccurrences_not_used (used : List String) (items : List (SortItem κ)) :
    ∀ i ∈ firstOccurrences used items, i.field ∉ used := by
  induction items generalizing used with
  | nil => simp [firstOccurrences]
  | cons i items ih =>
    unfold firstOccurrences
    by_cases hused : i.field ∈ used
    · rw [if_pos hused]
      exact ih used
    · rw [if_neg hused]
      intro j hj
      rcases List.mem_cons.mp hj with rfl | hj
      · exact hused
      · exact fun hju => ih _ j hj (List.mem_cons_of_mem _ hju)

/-- `FirstOccurrences`, of the fields that are not in `used`. -/
theorem firstOccurrences_spec (used : List String) (items : List (SortItem κ)) :
    ((firstOccurrences used items).map (·.field)).Nodup ∧
      (∀ i ∈ items, i.field ∉ used → i.field ∈ (firstOccurrences used items).map (·.field)) ∧
      (∀ i ∈ firstOccurrences used items, items.find? (fun j => j.field = i.field) = some i) ∧
      (firstOccurrences used items).Pairwise fun i j =>
        items.findIdx (fun k => k.field = i.field) < items.findIdx (fun k => k.field = j.field) := by
  -- each part needs the others: what is kept is unused, the first of its field, and in order
  induction items generalizing used with
  | nil => simp [firstOccurrences]
  | cons i items ih =>
    unfold firstOccurrences
    by_cases hused : i.field ∈ used
    · -- skipped: no item that is kept has this field
      rw [if_pos hused]
      obtain ⟨honce, hall, hfirst, horder⟩ := ih used
      have hne : ∀ j ∈ firstOccurrences used items, ¬i.field = j.field :=
        fun j hj h => firstOccurrences_not_used used items j hj (h ▸ hused)
      refine ⟨honce, ?_, ?_, ?_⟩
      · intro j hj hju
        rcases List.mem_cons.mp hj with rfl | hj
        · exact absurd hused hju
        · exact hall j hj hju
      · intro j hj
        rw [List.find?_cons_of_neg (by simpa using hne j hj)]
        exact hfirst j hj
      · refine horder.imp_of_mem fun {j k} hj hk hlt => ?_
        simpa [List.findIdx_cons, hne j hj, hne k hk] using hlt
    · -- kept: no later item with this field is
      rw [if_neg hused]
      obtain ⟨honce, hall, hfirst, horder⟩ := ih (i.field :: used)
      have hne : ∀ j ∈ firstOccurrences (i.field :: used) items, ¬i.field = j.field :=
        fun j hj h => firstOccurrences_not_used _ items j hj (h ▸ List.mem_cons_self)
      refine ⟨?_, ?_, ?_, ?_⟩
      · refine List.nodup_cons.mpr ⟨fun hmem => ?_, honce⟩
        obtain ⟨j, hj, hji⟩ := List.mem_map.mp hmem
        exact hne j hj hji.symm
      · intro j hj hju
        rw [List.map_cons, List.mem_cons]
        by_cases hji : j.field = i.field
        · exact Or.inl hji
        · rcases List.mem_cons.mp hj with rfl | hj
          · exact absurd rfl hji
          · exact Or.inr (hall j hj (by simp [hji, hju]))
      · intro j hj
        rcases List.mem_cons.mp hj with rfl | hj
        · exact List.find?_cons_of_pos (by simp)
        · rw [List.find?_cons_of_neg (by simpa using hne j hj)]
          exact hfirst j hj
      · refine List.pairwise_cons.mpr ⟨fun j hj => ?_, horder.imp_of_mem fun {j k} hj hk hlt => ?_⟩
        · simp [List.findIdx_cons, hne j hj]
        · simpa [List.findIdx_cons, hne j hj, hne k hk] using hlt

theorem firstOccurrences_nil (items : List (SortItem κ)) :
    FirstOccurrences items (firstOccurrences [] items) := by
  obtain ⟨honce, hall, hfirst, horder⟩ := firstOccurrences_spec [] items
  exact ⟨honce, fun i hi => hall i hi List.not_mem_nil, hfirst, horder⟩

/-- The loop keeps the first occurrence of every recognised field. -/
theorem createSortByExp_eq (sortBy : List String) : createSortByExp w sortByFields sortBy =
    (firstOccurrences [] (recognised w sortByFields sortBy)).map SortItem.expression :=
  sortByLoop_eq [] sortBy

end

/-! ## The repository's searches -/

section
variable (w : WordChars)

theorem recognised_created : recognised w YourAggregateRepository.sortByFields ["-created"] = [] := by
  have hname : w.IsName "created" := WordChars.isName_of_ascii (by decide) (by decide)
  have hm : matchSort w "-created" = some ("-", "created") :=
    matchSort_iff.mpr ⟨by decide, hname, Or.inl (by decide)⟩
  simp [recognised, recognise, hm, YourAggregateRepository.sortByFields]

theorem searchOrderBy_eq (sortBy : List String) :
    searchOrderBy w YourAggregateRepository.sortByFields sortBy =
      (firstOccurrences [] (recognised w YourAggregateRepository.sortByFields sortBy)).map
        SortItem.expression := by
  unfold searchOrderBy
  dsimp only
  rw [createSortByExp_eq, createSortByExp_eq, recognised_created]
  split
  · rename_i h
    exact (List.isEmpty_iff.mp h).symm
  · rfl

/-- The order the API describes: the recognised fields by first occurrence, and creation
    time descending where there is none. -/
def DocumentedOrderBy (sortBy : Option (List String))
    (orderBy : List (UnaryExpression InstrumentedAttribute)) : Prop :=
  let items := recognised w YourAggregateRepository.sortByFields (sortBy.getD [])
  (items ≠ [] → ∃ chosen, FirstOccurrences items chosen ∧ orderBy = chosen.map SortItem.expression) ∧
    (items = [] → orderBy = [.desc .createdAt])

/-- A search is ordered as the API describes just when `sort_by` has a recognised item. -/
theorem search_order_iff (a : SearchArguments) :
    DocumentedOrderBy w a.sortBy (YourAggregateRepository.searchSelect w a).orderBy ↔
      ∃ sort ∈ a.sortBy.getD [],
        (recognise w YourAggregateRepository.sortByFields sort).isSome = true := by
  have horder : (YourAggregateRepository.searchSelect w a).orderBy = _ :=
    searchOrderBy_eq w (a.sortBy.getD [])
  have hsome : (∃ sort ∈ a.sortBy.getD [],
      (recognise w YourAggregateRepository.sortByFields sort).isSome = true) ↔
      recognised w YourAggregateRepository.sortByFields (a.sortBy.getD []) ≠ [] := by
    simp [recognised, List.filterMap_eq_nil_iff, Option.isSome_iff_ne_none]
  rw [hsome, horder]
  constructor
  · intro hdoc hnil
    have hempty := hdoc.2 hnil
    rw [hnil] at hempty
    cases hempty
  · intro hne
    exact ⟨fun _ => ⟨_, firstOccurrences_nil _, rfl⟩, fun hnil => absurd hnil hne⟩

/-- A search without `sort_by` has no order. -/
theorem search_unordered :
    ¬DocumentedOrderBy .plain none (YourAggregateRepository.searchSelect .plain {}).orderBy := by
  intro hdoc
  have horder : (YourAggregateRepository.searchSelect .plain {}).orderBy = [] := by decide
  rw [horder] at hdoc
  exact absurd (hdoc.2 rfl) (by decide)

end

end DddService
