import Mathlib.Data.List.Forall2

/- What the standard library does not say of lists: loops that may raise, related lists, and
   lists that are cut and put together. A loop over `Except` returns when each step does, with
   what the steps returned (`mapM_ok_iff`), or raises what one of them raised
   (`exists_of_mapM_error`). -/
namespace Lists
universe u
variable {ε ρ γ : Type*} {α β : Type u}

/-! ## Loops that may raise -/

section Loop
variable {f : ρ → Except ε α} {rs : List ρ} {as : List α}

theorem bind_eq_ok {x : Except ε α} {g : α → Except ε β} {b : β} :
    (x >>= g) = .ok b ↔ ∃ a, x = .ok a ∧ g a = .ok b := by
  cases x with
  | error e => exact ⟨fun h => (nomatch h), fun ⟨_, h, _⟩ => (nomatch h)⟩
  | ok a =>
    constructor
    · exact fun h => ⟨a, rfl, h⟩
    · rintro ⟨a', ha, h⟩
      cases ha
      exact h

/-- A loop returns just when it has returned for each item. -/
theorem mapM_ok_iff : rs.mapM f = .ok as ↔ List.Forall₂ (fun r a => f r = .ok a) rs as := by
  induction rs generalizing as with
  | nil =>
    rw [List.forall₂_nil_left_iff, List.mapM_nil]
    exact ⟨fun h => (Except.ok.inj h).symm, fun h => congrArg Except.ok h.symm⟩
  | cons r rs ih =>
    rw [List.mapM_cons, bind_eq_ok]
    constructor
    · rintro ⟨a, ha, hrest⟩
      obtain ⟨rest, hmap, hcons⟩ := bind_eq_ok.mp hrest
      cases hcons
      exact .cons ha (ih.mp hmap)
    · intro h
      cases h with
      | cons ha hrest => exact ⟨_, ha, bind_eq_ok.mpr ⟨_, ih.mpr hrest, rfl⟩⟩

/-- What a loop raises is raised by one of its steps. -/
theorem exists_of_mapM_error {e : ε} (h : rs.mapM f = .error e) : ∃ r ∈ rs, f r = .error e := by
  induction rs with
  | nil => cases h
  | cons r rs ih =>
    rw [List.mapM_cons] at h
    cases hr : f r with
    | error e' =>
      rw [hr] at h
      cases h
      exact ⟨r, List.mem_cons_self, hr⟩
    | ok a =>
      cases hrest : rs.mapM f with
      | error e' =>
        rw [hr, hrest] at h
        cases h
        obtain ⟨r', hmem, hr'⟩ := ih hrest
        exact ⟨r', List.mem_cons_of_mem r hmem, hr'⟩
      | ok rest =>
        rw [hr, hrest] at h
        cases h

theorem mapM_ok_of_forall (h : ∀ r ∈ rs, ∃ a, f r = .ok a) : ∃ as, rs.mapM f = .ok as := by
  cases hmap : rs.mapM f with
  | ok as => exact ⟨as, rfl⟩
  | error e =>
    obtain ⟨r, hr, he⟩ := exists_of_mapM_error hmap
    obtain ⟨a, ha⟩ := h r hr
    cases ha.symm.trans he

/-- What holds of every item and of what is made from it holds of the lists. -/
theorem mapM_ok_map {g : α → β} {h : ρ → β} (hgh : ∀ r a, f r = .ok a → g a = h r)
    (hr : rs.mapM f = .ok as) : as.map g = rs.map h := by
  have hmaps : List.Forall₂ (· = ·) (rs.map h) (as.map g) := by
    rw [List.forall₂_map_left_iff, List.forall₂_map_right_iff]
    exact (mapM_ok_iff.mp hr).imp fun r a hra => (hgh r a hra).symm
  rw [List.forall₂_eq_eq_eq] at hmaps
  exact hmaps.symm

theorem mapM_map_inverse {g : α → ρ} (hfg : ∀ a ∈ as, f (g a) = .ok a) :
    (as.map g).mapM f = .ok as := by
  rw [mapM_ok_iff, List.forall₂_map_left_iff, List.forall₂_same]
  exact hfg

end Loop

/-! ## Related lists -/

/-- What is said of two lists and of the second and a third, element by element. -/
theorem forall₂_through {R : α → β → Prop} {S : β → γ → Prop} {as : List α} {bs : List β}
    {cs : List γ} (h : List.Forall₂ R as bs) (h' : List.Forall₂ S bs cs) :
    List.Forall₂ (fun a c => ∃ b, R a b ∧ S b c) as cs := by
  induction h generalizing cs with
  | nil =>
    cases h'
    exact .nil
  | cons hr _ ih =>
    cases h' with
    | cons hs hrest => exact .cons ⟨_, hr, hs⟩ (ih hrest)

theorem forall₂_getLast? {R : α → β → Prop} {as : List α} {bs : List β}
    (h : List.Forall₂ R as bs) : Option.Rel R as.getLast? bs.getLast? := by
  have hrev := List.rel_reverse h
  rw [List.getLast?_eq_head?_reverse, List.getLast?_eq_head?_reverse]
  generalize as.reverse = as' at hrev
  generalize bs.reverse = bs' at hrev
  cases hrev with
  | nil => exact Option.Rel.none
  | cons hr _ => exact Option.Rel.some hr

theorem exists_getLast?_of_forall₂ {R : α → β → Prop} {as : List α} {bs : List β}
    (h : List.Forall₂ R as bs) {a : α} (ha : as.getLast? = some a) :
    ∃ b, bs.getLast? = some b ∧ R a b := by
  have hlast := forall₂_getLast? h
  rw [ha] at hlast
  generalize bs.getLast? = last at hlast
  cases hlast with
  | some hr => exact ⟨_, rfl, hr⟩

/-! ## Parts of a list -/

/-- What follows the last of a thing in a list is known. -/
theorem append_cons_inj {a a' b b' : List α} {x : α} (hb : x ∉ b) (hb' : x ∉ b')
    (h : a ++ x :: b = a' ++ x :: b') : b = b' := by
  rcases List.append_eq_append_iff.mp h with ⟨c, -, hc⟩ | ⟨c, -, hc⟩
  · cases c with
    | nil => exact (List.cons.inj hc).2
    | cons y c => exact absurd (by simp [(List.cons.inj hc).2]) hb
  · cases c with
    | nil => exact (List.cons.inj hc).2.symm
    | cons y c => exact absurd (by simp [(List.cons.inj hc).2]) hb'

theorem pairwise_of_before {P : α → Prop} {as : List α}
    (h : ∀ l x r, as = l ++ x :: r → ∀ y ∈ l, P y) : as.Pairwise fun y _ => P y := by
  induction as with
  | nil => exact List.Pairwise.nil
  | cons a as ih =>
    refine List.pairwise_cons.mpr ⟨fun z hz => ?_, ih fun l x r has y hy => ?_⟩
    · obtain ⟨l, r, has⟩ := List.append_of_mem hz
      exact h (a :: l) z r (congrArg (a :: ·) has) a List.mem_cons_self
    · exact h (a :: l) x r (congrArg (a :: ·) has) y (List.mem_cons_of_mem a hy)

theorem flatten_slices (as : List α) (m n : Nat) :
    ((List.range n).map fun i => (as.drop (i * m)).take m).flatten = as.take (n * m) := by
  induction n with
  | zero => simp
  | succ n ih =>
    rw [List.range_succ, List.map_append, List.flatten_append, ih, Nat.succ_mul, List.take_add]
    simp

end Lists
