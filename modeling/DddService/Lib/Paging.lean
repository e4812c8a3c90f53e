import Mathlib.Data.List.Nodup

/- Paging through a sorted collection. Each page is cut from a listing of its own:
   a listing holds all the items in an order that `le` allows, and where `le` leaves
   two items equal it may put them either way, so two pages may be cut from two
   different listings.

   An item's place in a listing is bounded by how many items come before it and how
   many come no later (`Listing.place`), so pages fit together whatever the listings
   when all the items equal to one another fall on one page (`Aligned`), and only
   then (`flatMap_page_perm`, `exists_repeated`). -/
namespace Paging
variable {α : Type}

/-- `le` compares any two items and is transitive. It may leave different items equal. -/
structure Comparison (le : α → α → Bool) : Prop where
  total : ∀ a b, (le a b || le b a) = true
  trans : ∀ a b c, le a b = true → le b c = true → le a c = true

theorem Comparison.refl {le : α → α → Bool} (hle : Comparison le) (a : α) : le a a = true := by
  simpa using hle.total a a

/-- All the items, in an order `le` allows. -/
structure Listing (le : α → α → Bool) (items listing : List α) : Prop where
  perm : listing.Perm items
  sorted : listing.Pairwise fun a b => le a b = true

/-- Page `k` of a listing, `n` items a page. -/
def page (n k : Nat) (listing : List α) : List α := (listing.drop (k * n)).take n

/-- How many items `le` puts strictly before `a`. -/
def before (le : α → α → Bool) (items : List α) (a : α) : Nat := items.countP fun b => !le a b

/-- How many items `le` allows no later than `a`. -/
def upTo (le : α → α → Bool) (items : List α) (a : α) : Nat := items.countP fun b => le b a

/-- Items that `le` leaves equal fall on the same page of `n` items. -/
def Aligned (n : Nat) (le : α → α → Bool) (items : List α) : Prop :=
  ∀ a ∈ items, before le items a / n = (upTo le items a - 1) / n

instance (n : Nat) (le : α → α → Bool) (items : List α) : Decidable (Aligned n le items) :=
  inferInstanceAs (Decidable (∀ a ∈ items, _))

/-! ## Places in a listing -/

theorem mem_take_getElem? {listing : List α} {i : Nat} {a : α} (h : a ∈ listing.take i) :
    ∃ j, j < i ∧ listing[j]? = some a := by
  obtain ⟨j, hj⟩ := List.mem_iff_getElem?.mp h
  by_cases hlt : j < i
  · rw [List.getElem?_take_of_lt hlt] at hj
    exact ⟨j, hlt, hj⟩
  · rw [List.getElem?_take_eq_none (by omega)] at hj
    cases hj

theorem mem_drop_getElem? {listing : List α} {i : Nat} {a : α} (h : a ∈ listing.drop i) :
    ∃ j, i ≤ j ∧ listing[j]? = some a := by
  obtain ⟨j, hj⟩ := List.mem_iff_getElem?.mp h
  rw [List.getElem?_drop] at hj
  exact ⟨i + j, Nat.le_add_right i j, hj⟩

theorem mem_page {n k : Nat} {listing : List α} {a : α} :
    a ∈ page n k listing ↔ ∃ i, k * n ≤ i ∧ i < k * n + n ∧ listing[i]? = some a := by
  rw [page, List.mem_iff_getElem?]
  constructor
  · rintro ⟨i, hi⟩
    have hlt : i < n := by
      by_contra hge
      rw [List.getElem?_take_eq_none (by omega)] at hi
      cases hi
    rw [List.getElem?_take_of_lt hlt, List.getElem?_drop] at hi
    exact ⟨k * n + i, by omega, by omega, hi⟩
  · rintro ⟨i, hlo, hhi, hi⟩
    refine ⟨i - k * n, ?_⟩
    rw [List.getElem?_take_of_lt (by omega), List.getElem?_drop, Nat.add_sub_cancel' hlo]
    exact hi

section
variable {le : α → α → Bool} {items listing : List α} {a : α} {i : Nat}

theorem Listing.exists_of (hle : Comparison le) (items : List α) : ∃ listing, Listing le items listing :=
  ⟨items.mergeSort le, List.mergeSort_perm items le,
    List.pairwise_mergeSort hle.trans hle.total items⟩

theorem Listing.before_eq (h : Listing le items listing) : before le items a = before le listing a :=
  (h.perm.countP_eq _).symm

theorem Listing.upTo_eq (h : Listing le items listing) : upTo le items a = upTo le listing a :=
  (h.perm.countP_eq _).symm

theorem Listing.le_of_le (hle : Comparison le) (h : Listing le items listing) {j : Nat} {b c : α}
    (hij : i ≤ j) (hb : listing[i]? = some b) (hc : listing[j]? = some c) : le b c = true := by
  obtain ⟨hi, rfl⟩ := List.getElem?_eq_some_iff.mp hb
  obtain ⟨hj, rfl⟩ := List.getElem?_eq_some_iff.mp hc
  rcases Nat.lt_or_eq_of_le hij with hlt | rfl
  · exact List.pairwise_iff_getElem.mp h.sorted i j hi hj hlt
  · exact hle.refl _

theorem countP_le_of_drop {p : α → Bool} (h : ∀ b ∈ listing.drop i, p b = false) :
    listing.countP p ≤ i := by
  rw [← List.take_append_drop i listing, List.countP_append]
  have hdrop : (listing.drop i).countP p = 0 := List.countP_eq_zero.mpr (by simpa using h)
  have htake := List.countP_le_length (p := p) (l := listing.take i)
  rw [List.length_take] at htake
  omega

theorem le_countP_of_take {p : α → Bool} (hi : i ≤ listing.length)
    (h : ∀ b ∈ listing.take i, p b = true) : i ≤ listing.countP p := by
  rw [← List.take_append_drop i listing, List.countP_append]
  have htake : (listing.take i).countP p = (listing.take i).length := List.countP_eq_length.mpr h
  rw [List.length_take] at htake
  omega

theorem Listing.before_le (hle : Comparison le) (h : Listing le items listing)
    (ha : listing[i]? = some a) {b : α} (hab : le b a = true) : before le items b ≤ i := by
  rw [h.before_eq]
  refine countP_le_of_drop fun c hc => ?_
  obtain ⟨j, hij, hj⟩ := mem_drop_getElem? hc
  have hac := h.le_of_le hle hij ha hj
  simpa using hle.trans b a c hab hac

theorem Listing.lt_upTo (hle : Comparison le) (h : Listing le items listing)
    (ha : listing[i]? = some a) {b : α} (hab : le a b = true) : i < upTo le items b := by
  rw [h.upTo_eq]
  refine le_countP_of_take (List.getElem?_eq_some_iff.mp ha).choose fun c hc => ?_
  obtain ⟨j, hji, hj⟩ := mem_take_getElem? hc
  exact hle.trans c a b (h.le_of_le hle (by omega) hj ha) hab

/-- Where an item may stand in a listing. -/
theorem Listing.place (hle : Comparison le) (h : Listing le items listing)
    (ha : listing[i]? = some a) : before le items a ≤ i ∧ i < upTo le items a :=
  ⟨h.before_le hle ha (hle.refl a), h.lt_upTo hle ha (hle.refl a)⟩

theorem Listing.tied (hle : Comparison le) (h : Listing le items listing) {b : α}
    (hb : listing[i]? = some b) (hlo : before le items a ≤ i) (hhi : i < upTo le items a) :
    le a b = true ∧ le b a = true := by
  constructor
  · by_contra hab
    -- everything up to place `i` would come before `a`
    have hlt : i + 1 ≤ before le items a := by
      rw [h.before_eq]
      refine le_countP_of_take (List.getElem?_eq_some_iff.mp hb).choose fun c hc => ?_
      obtain ⟨j, hji, hj⟩ := mem_take_getElem? hc
      have hcb := h.le_of_le hle (by omega) hj hb
      by_contra hac
      exact hab (hle.trans a c b (by simpa using hac) hcb)
    omega
  · by_contra hba
    -- everything from place `i` on would come after `a`
    have hle' : upTo le items a ≤ i := by
      rw [h.upTo_eq]
      refine countP_le_of_drop fun c hc => ?_
      obtain ⟨j, hij, hj⟩ := mem_drop_getElem? hc
      have hbc := h.le_of_le hle hij hb hj
      by_contra hca
      exact hba (hle.trans b c a hbc (by simpa using hca))
    omega

theorem Listing.mem_iff (h : Listing le items listing) : a ∈ listing ↔ a ∈ items := h.perm.mem_iff

/-- Where the pages fit together, a page's items do not depend on its listing. -/
theorem Listing.mem_page_iff (hle : Comparison le) (h : Listing le items listing) {n k : Nat}
    (hn : 0 < n) (hal : Aligned n le items) :
    a ∈ page n k listing ↔ a ∈ items ∧ before le items a / n = k := by
  rw [mem_page]
  constructor
  · rintro ⟨i, hlo, hhi, hi⟩
    have ha : a ∈ items := h.mem_iff.mp (List.mem_of_getElem? hi)
    obtain ⟨hbi, hiu⟩ := h.place hle hi
    refine ⟨ha, Nat.le_antisymm ?_ ?_⟩
    · exact Nat.lt_succ_iff.mp ((Nat.div_lt_iff_lt_mul hn).mpr (by rw [Nat.succ_mul]; omega))
    · rw [hal a ha]
      exact (Nat.le_div_iff_mul_le hn).mpr (by omega)
  · rintro ⟨ha, rfl⟩
    obtain ⟨i, hi⟩ := List.mem_iff_getElem?.mp (h.mem_iff.mpr ha)
    obtain ⟨hbi, hiu⟩ := h.place hle hi
    refine ⟨i, ?_, ?_, hi⟩
    · exact Nat.le_trans (Nat.div_mul_le_self _ n) hbi
    · rw [hal a ha]
      have := Nat.lt_div_mul_add hn (a := upTo le items a - 1)
      omega

theorem Listing.page_nodup (h : Listing le items listing) (hnd : items.Nodup) (n k : Nat) :
    (page n k listing).Nodup :=
  (h.perm.nodup_iff.mpr hnd).sublist ((List.take_sublist _ _).trans (List.drop_sublist _ _))

end

/-! ## All the pages -/

section
variable {le : α → α → Bool} {items : List α} {n m : Nat}

/-- The pages' items, one page after another, each page cut from its own listing. -/
def pages (n m : Nat) (listing : Nat → List α) : List α :=
  (List.range m).flatMap fun k => page n k (listing k)

/-- Pages that fit together hold every item once. -/
theorem pages_perm (hle : Comparison le) (hn : 0 < n) (hnd : items.Nodup)
    (hm : items.length ≤ m * n) (hal : Aligned n le items) {listing : Nat → List α}
    (h : ∀ k, Listing le items (listing k)) : (pages n m listing).Perm items := by
  have hnodup : (pages n m listing).Nodup := by
    refine List.nodup_flatMap.mpr ⟨fun k _ => (h k).page_nodup hnd n k, ?_⟩
    refine List.nodup_range.imp fun {k k'} hkk' => ?_
    intro a ha ha'
    exact hkk' (((h k).mem_page_iff hle hn hal).mp ha |>.2.symm.trans
      (((h k').mem_page_iff hle hn hal).mp ha').2)
  refine (List.perm_ext_iff_of_nodup hnodup hnd).mpr fun a => ?_
  simp only [pages, List.mem_flatMap, List.mem_range, (h _).mem_page_iff hle hn hal]
  constructor
  · rintro ⟨k, _, ha, _⟩
    exact ha
  · intro ha
    obtain ⟨i, hi⟩ := List.mem_iff_getElem?.mp ((h 0).mem_iff.mpr ha)
    have hlen : i < items.length := (h 0).perm.length_eq ▸ (List.getElem?_eq_some_iff.mp hi).choose
    have hbi := ((h 0).place hle hi).1
    exact ⟨_, (Nat.div_lt_iff_lt_mul hn).mpr (by omega), ha, rfl⟩

/-- Two neighbours that `le` leaves equal may be listed the other way round. -/
theorem Listing.swap {u v : List α} {a b : α} (h : Listing le items (u ++ a :: b :: v))
    (hba : le b a = true) : Listing le items (u ++ b :: a :: v) where
  perm := ((List.Perm.swap a b v).append_left u).trans h.perm
  sorted := by
    have hs := h.sorted
    simp only [List.pairwise_append, List.pairwise_cons, List.mem_cons, forall_eq_or_imp] at hs ⊢
    obtain ⟨hu, ⟨⟨_, hav⟩, hbv, hv⟩, hx⟩ := hs
    exact ⟨hu, ⟨⟨hba, hbv⟩, hav, hv⟩, fun c hc => ⟨(hx c hc).2.1, (hx c hc).1, (hx c hc).2.2⟩⟩

/-- Pages that do not fit together may repeat an item. -/
theorem exists_repeated (hle : Comparison le) (hn : 0 < n) (hm : items.length ≤ m * n)
    (hal : ¬Aligned n le items) :
    ∃ listing : Nat → List α, (∀ k, Listing le items (listing k)) ∧ ¬(pages n m listing).Nodup := by
  obtain ⟨a, ha, hne⟩ : ∃ a ∈ items, before le items a / n ≠ (upTo le items a - 1) / n := by
    simpa [Aligned] using hal
  obtain ⟨l, hl⟩ := Listing.exists_of hle items
  obtain ⟨i, hi⟩ := List.mem_iff_getElem?.mp (hl.mem_iff.mpr ha)
  obtain ⟨hbi, hiu⟩ := hl.place hle hi
  -- the first page boundary among the equals of `a`
  obtain ⟨k, hk⟩ : ∃ k, before le items a / n = k := ⟨_, rfl⟩
  have hlt : k < (upTo le items a - 1) / n := by
    rw [← hk]
    exact Nat.lt_of_le_of_ne (Nat.div_le_div_right (by omega)) hne
  have hlo : before le items a < (k + 1) * n := by
    have := Nat.lt_div_mul_add hn (a := before le items a)
    rw [Nat.succ_mul, ← hk]
    exact this
  have hhi : (k + 1) * n < upTo le items a := by
    have := (Nat.le_div_iff_mul_le hn).mp hlt
    rw [Nat.succ_mul] at this ⊢
    omega
  have hup : upTo le items a ≤ l.length := by rw [hl.upTo_eq]; exact List.countP_le_length
  have hlen : l.length = items.length := hl.perm.length_eq
  obtain ⟨p, hp⟩ : ∃ p, (k + 1) * n = p + 1 := ⟨(k + 1) * n - 1, by omega⟩
  have hpk : k * n ≤ p ∧ p < k * n + n := by rw [Nat.succ_mul] at hp; omega
  -- the two places on either side of it
  have hsplit : l = l.take p ++ l[p] :: l[p + 1] :: l.drop (p + 2) := by
    rw [← List.drop_eq_getElem_cons, ← List.drop_eq_getElem_cons, List.take_append_drop]
  have hswap : Listing le items (l.take p ++ l[p + 1] :: l[p] :: l.drop (p + 2)) := by
    refine Listing.swap (hsplit ▸ hl) ?_
    have hx := hl.tied hle (a := a) (List.getElem?_eq_getElem (by omega : p < l.length))
      (by omega) (by omega)
    have hy := hl.tied hle (a := a) (List.getElem?_eq_getElem (by omega : p + 1 < l.length))
      (by omega) (by omega)
    exact hle.trans _ a _ hy.2 hx.1
  refine ⟨fun j => if j = k + 1 then l.take p ++ l[p + 1] :: l[p] :: l.drop (p + 2) else l, ?_, ?_⟩
  · intro j
    dsimp only
    split
    · exact hswap
    · exact hl
  · intro hnd
    obtain ⟨_, hdis⟩ := List.nodup_flatMap.mp hnd
    have hkm : k + 1 < m := Nat.lt_of_mul_lt_mul_right (a := n) (by omega)
    have hdis' := List.pairwise_iff_getElem.mp hdis k (k + 1) (by simpa using by omega) (by simpa using hkm)
      (Nat.lt_succ_self k)
    rw [List.getElem_range, List.getElem_range] at hdis'
    refine hdis' (a := l[p]) ?_ ?_
    · dsimp only
      rw [if_neg (by omega)]
      exact mem_page.mpr ⟨p, hpk.1, hpk.2, List.getElem?_eq_getElem _⟩
    · dsimp only
      rw [if_pos rfl]
      refine mem_page.mpr ⟨p + 1, by omega, by omega, ?_⟩
      have htake : (l.take p).length = p := by rw [List.length_take]; omega
      rw [List.getElem?_append_right (by omega), htake, Nat.add_sub_cancel_left]
      rfl

end

end Paging
