import DddService.SearchOrder
import Mathlib.Data.List.Perm.Basic

/- Going through the pages of a search. Each page is a query of its own, and the
   database may order rows that the ORDER BY leaves equal anew for each, so the pages
   hold every matching aggregate once just when such rows always fall on one page
   (`pagination_lossless_iff`). Nothing but `created_at` is sorted by, which the rows of
   one transaction share. -/
namespace DddService

/-! ## The order of an ORDER BY list -/

theorem nullsLast_comparison : Paging.Comparison nullsLast where
  total a b := by
    cases a <;> cases b <;> simp [nullsLast]
    omega
  trans a b c hab hbc := by
    cases a <;> cases b <;> cases c <;> simp_all [nullsLast]
    omega

theorem InstrumentedAttribute.le_comparison (column : InstrumentedAttribute) :
    Paging.Comparison column.le := by
  cases column with
  | createdAt =>
    exact ⟨fun a b => nullsLast_comparison.total _ _, fun a b c => nullsLast_comparison.trans _ _ _⟩
  | id | status | yourValueObject => exact ⟨fun _ _ => rfl, fun _ _ _ _ _ => rfl⟩

theorem UnaryExpression.le_comparison (e : UnaryExpression InstrumentedAttribute) :
    Paging.Comparison e.le := by
  cases e with
  | asc column => exact column.le_comparison
  | desc column =>
    exact ⟨fun a b => column.le_comparison.total b a,
      fun a b c hab hbc => column.le_comparison.trans c b a hbc hab⟩

/-- An ORDER BY list compares any two rows. -/
theorem orderByLe_comparison (es : List (UnaryExpression InstrumentedAttribute)) :
    Paging.Comparison (orderByLe es) := by
  induction es with
  | nil => exact ⟨fun _ _ => rfl, fun _ _ _ _ _ => rfl⟩
  | cons e es ih =>
    have he := e.le_comparison
    constructor
    · intro a b
      have htot := he.total a b
      have hrest := ih.total a b
      simp only [orderByLe]
      cases hab : e.le a b <;> cases hba : e.le b a <;> simp_all
    · intro a b c hab hbc
      simp only [orderByLe, Bool.and_eq_true, Bool.or_eq_true, Bool.not_eq_true'] at hab hbc ⊢
      refine ⟨he.trans a b c hab.1 hbc.1, ?_⟩
      -- when the first expression leaves `a` and `c` equal, it leaves `b` equal to both
      by_cases hca : e.le c a = true
      · have hba := he.trans b c a hbc.1 hca
        have hcb := he.trans c a b hca hab.1
        exact Or.inr (ih.trans a b c (hab.2.resolve_left (by simp [hba]))
          (hbc.2.resolve_left (by simp [hcb])))
      · exact Or.inl (by simpa using hca)

/-! ## Reading rows -/

/-- A stored set of aggregates: rows of different ids, each of which reads back. -/
structure StoredAggregates (env : Env) where
  rows : List YourAggregateModel
  ids : (rows.map (·.id)).Nodup
  readable : ∀ row ∈ rows, ∃ a, YourAggregateRepository.modelToEntity env row = .ok a

section
variable {env : Env} {rows : List YourAggregateModel} {as : List YourAggregate}

/-- The entities are the rows', read one by one. -/
theorem entities_read (h : rows.mapM (YourAggregateRepository.modelToEntity env) = .ok as) :
    as.map some = rows.map fun row => (YourAggregateRepository.modelToEntity env row).toOption :=
  Lists.mapM_ok_map (fun row e he => by rw [he]; rfl) h

theorem entities_ids (h : rows.mapM (YourAggregateRepository.modelToEntity env) = .ok as) :
    as.map (·.id) = rows.map (·.id) :=
  Lists.mapM_ok_map (fun _ _ he => (modelToEntity_ok he).1) h

end

/-! ## The pages of a search -/

namespace YourAggregateRepository
variable {w : WordChars} {env : Env} {stored : StoredAggregates env} {a : SearchArguments} {n : Nat}

/-- The arguments for page `k`. -/
def pageArguments (a : SearchArguments) (n k : Nat) : SearchArguments :=
  { a with offset := ((k * n : Nat) : Int), limit := (n : Int) }

theorem cut_page (hn : 0 < n) (k : Nat) (listing : List YourAggregateModel) :
    (searchSelect w (pageArguments a n k)).cut listing = Paging.page n k listing := by
  have hpos : (n : Int) > 0 := by omega
  change (if (n : Int) > 0 then _ else _) = _
  rw [if_pos hpos]
  rfl

/-- The rows a search matches. -/
def matching (w : WordChars) (stored : StoredAggregates env) (a : SearchArguments) :
    List YourAggregateModel :=
  stored.rows.filter (searchSelect w a).selects

theorem matching_nodup : ((matching w stored a).map (·.id)).Nodup :=
  stored.ids.sublist (List.filter_sublist.map _)

/-- However the database answers the queries for offsets `0, n, 2n, ..` up to the total,
    the results hold every matching aggregate once and no other. -/
def Lossless (w : WordChars) (stored : StoredAggregates env) (a : SearchArguments) (n : Nat) :
    Prop :=
  ∀ result : Nat → SearchResult,
    (∀ k, SearchYourAggregates w env stored.rows (pageArguments a n k) (result k)) →
    ∃ es, (matching w stored a).mapM (modelToEntity env) = .ok es ∧
      ((List.range ((result 0).total / n + 1)).flatMap fun k => (result k).results).Perm es

/-- What a search may return, by the listing the database makes for it. -/
theorem searchYourAggregates_iff (hn : 0 < n) (k : Nat) (result : SearchResult) :
    SearchYourAggregates w env stored.rows (pageArguments a n k) result ↔
      result.total = (matching w stored a).length ∧ ∃ listing,
        Paging.Listing (orderByLe (searchSelect w a).orderBy) (matching w stored a) listing ∧
          (Paging.page n k listing).mapM (modelToEntity env) = .ok result.results := by
  constructor
  · rintro ⟨rows, ⟨_, listing, hlisting, rfl⟩, htotal, hrows⟩
    rw [cut_page hn] at hrows
    exact ⟨htotal, listing, hlisting, hrows⟩
  · rintro ⟨htotal, listing, hlisting, hrows⟩
    refine ⟨_, ⟨?_, listing, hlisting, rfl⟩, htotal, by rw [cut_page hn]; exact hrows⟩
    exact Int.natCast_nonneg (k * n)

/-- The rows' pages reach the last matching row. -/
theorem length_le_pages (hn : 0 < n) (l : Nat) : l ≤ (l / n + 1) * n := by
  have := Nat.lt_div_mul_add hn (a := l)
  rw [Nat.succ_mul]
  omega

theorem lossless_of_aligned (hn : 0 < n)
    (hal : Paging.Aligned n (orderByLe (searchSelect w a).orderBy) (matching w stored a)) :
    Lossless w stored a n := by
  intro result hresult
  choose htotal listing hlisting hrows using fun k =>
    (searchYourAggregates_iff hn k (result k)).mp (hresult k)
  obtain ⟨es, hes⟩ : ∃ es, (matching w stored a).mapM (modelToEntity env) = .ok es :=
    Lists.mapM_ok_of_forall fun row hrow => stored.readable row (List.mem_filter.mp hrow).1
  refine ⟨es, hes, ?_⟩
  have hpages := Paging.pages_perm (orderByLe_comparison _) hn (List.Nodup.of_map _ matching_nodup)
    (length_le_pages hn (matching w stored a).length) hal hlisting
  refine (List.map_perm_map_iff (fun _ _ => Option.some.inj)).mp ?_
  rw [entities_read hes, List.map_flatMap, htotal 0]
  simp only [entities_read (hrows _)]
  rw [← List.map_flatMap]
  exact hpages.map _

theorem not_lossless_of_not_aligned (hn : 0 < n)
    (hal : ¬Paging.Aligned n (orderByLe (searchSelect w a).orderBy) (matching w stored a)) :
    ¬Lossless w stored a n := by
  intro hlossless
  obtain ⟨listing, hlisting, hrepeated⟩ := Paging.exists_repeated (orderByLe_comparison _) hn
    (length_le_pages hn (matching w stored a).length) hal
  have hreadable : ∀ k, ∃ as, (Paging.page n k (listing k)).mapM (modelToEntity env) = .ok as := by
    intro k
    refine Lists.mapM_ok_of_forall fun row hrow => stored.readable row ?_
    have hmem := (List.take_sublist _ _).subset hrow
    exact (List.mem_filter.mp ((hlisting k).mem_iff.mp ((List.drop_sublist _ _).subset hmem))).1
  choose as has using hreadable
  obtain ⟨es, hes, hperm⟩ := hlossless (fun k => ⟨(matching w stored a).length, as k⟩)
    fun k => (searchYourAggregates_iff hn k _).mpr ⟨rfl, listing k, hlisting k, has k⟩
  -- an id would be there twice
  have hids := hperm.map (·.id)
  rw [entities_ids hes, List.map_flatMap] at hids
  simp only [entities_ids (has _)] at hids
  rw [← List.map_flatMap] at hids
  exact hrepeated (List.Nodup.of_map _ (hids.nodup_iff.mpr matching_nodup))

/-- Paging is lossless just when no rows that the ORDER BY leaves equal fall on different
    pages. -/
theorem pagination_lossless_iff (w : WordChars) (stored : StoredAggregates env)
    (a : SearchArguments) (hn : 0 < n) : Lossless w stored a n ↔
      Paging.Aligned n (orderByLe (searchSelect w a).orderBy) (matching w stored a) := by
  constructor
  · intro hlossless
    by_contra hal
    exact not_lossless_of_not_aligned hn hal hlossless
  · exact lossless_of_aligned hn

/-- A stored aggregate by its id and its time of creation. -/
def createdAt (id : String) (t : DateTime) : YourAggregateModel :=
  { id, yourValueObject := YourValueObject.asdict ⟨"value", 1⟩, status := "created"
    operationHistories := [], creator := User.asdict ⟨none, none, none, none, none⟩
    createdAt := some t, updatedAt := none }

/-- Two aggregates of one transaction, which share their time of creation, and an earlier one. -/
def createdInTurn : StoredAggregates .plain where
  rows := [createdAt "c" 0, createdAt "a" 1, createdAt "b" 1]
  ids := by decide
  readable := by
    intro row hrow
    simp only [List.mem_cons, List.not_mem_nil, or_false] at hrow
    rcases hrow with rfl | rfl | rfl <;> exact ⟨_, rfl⟩

/-- Two aggregates a page: the two of one time are on the first, the third on the second. -/
theorem pagination_lossless_two_pages :
    Lossless .plain createdInTurn { sortBy := some ["-created_at"] } 2 :=
  (pagination_lossless_iff .plain createdInTurn _ (by decide)).mpr (by decide)

/-- One aggregate a page: the first two pages may hold the same one. -/
theorem pagination_repeats : ¬Lossless .plain createdInTurn { sortBy := some ["-created_at"] } 1 :=
  not_lossless_of_not_aligned (by decide) (by decide)

end YourAggregateRepository

end DddService
