import Mathlib.Order.WellFounded

/- Progress along a run without end. A predicate says of each moment whether it holds then,
   so what a program does from moment to moment is a set of one-step facts about such
   predicates, and its environment's fairness is one about all moments.

   `leadsTo_of_ensures` draws progress from what keeps `P` up to `Q` and from what a step of
   the fair kind does, and `leadsTo_of_less` composes such stages, as many as a
   well-founded relation allows. -/
namespace Progress
variable {A : Type} {P Q T : Nat → Prop}

/-- Whenever `P` holds, `Q` holds then or later. -/
def LeadsTo (P Q : Nat → Prop) : Prop := ∀ n, P n → ∃ m, n ≤ m ∧ Q m

/-- `P` ends only with `Q`. -/
def Unless (P Q : Nat → Prop) : Prop := ∀ n, P n → P (n + 1) ∨ Q (n + 1)

/-- What holds once holds ever after. -/
def Stable (Q : Nat → Prop) : Prop := ∀ n, Q n → Q (n + 1)

theorem Stable.stays (h : Stable Q) {n m : Nat} (hn : Q n) (hm : n ≤ m) : Q m := by
  induction m, hm using Nat.le_induction with
  | base => exact hn
  | succ m _ ih => exact h m ih

theorem LeadsTo.forever (h : LeadsTo P Q) (hstable : Stable Q) :
    LeadsTo P fun n => ∀ m, n ≤ m → Q m := by
  intro n hn
  obtain ⟨m, hnm, hm⟩ := h n hn
  exact ⟨m, hnm, fun j hj => hstable.stays hm hj⟩

theorem Unless.lasts (h : Unless P Q) {n m : Nat} (hn : P n) (hm : n ≤ m) :
    P m ∨ ∃ j, n ≤ j ∧ j ≤ m ∧ Q j := by
  induction m, hm using Nat.le_induction with
  | base => exact Or.inl hn
  | succ m hnm ih =>
    rcases ih with hP | ⟨j, hnj, hjm, hQ⟩
    · rcases h m hP with hP | hQ
      · exact Or.inl hP
      · exact Or.inr ⟨m + 1, Nat.le_succ_of_le hnm, Nat.le_refl _, hQ⟩
    · exact Or.inr ⟨j, hnj, Nat.le_succ_of_le hjm, hQ⟩

/-- One stage: `P` ends only with `Q`, a step of the kind `T` ends it, and if it lasts such a
    step comes. -/
theorem leadsTo_of_ensures (hkeep : Unless P Q) (hstep : ∀ n, P n → T n → Q (n + 1))
    (hfair : ∀ n, (∀ m, n ≤ m → P m) → ∃ m, n ≤ m ∧ T m) : LeadsTo P Q := by
  intro n hn
  by_cases hlasts : ∀ m, n ≤ m → P m
  · obtain ⟨m, hnm, hT⟩ := hfair n hlasts
    exact ⟨m + 1, Nat.le_succ_of_le hnm, hstep m (hlasts m hnm) hT⟩
  · obtain ⟨m, hm⟩ := not_forall.mp hlasts
    obtain ⟨hnm, hends⟩ := Classical.not_imp.mp hm
    rcases hkeep.lasts hn hnm with hP | ⟨j, hnj, -, hQ⟩
    · exact absurd hP hends
    · exact ⟨j, hnj, hQ⟩

/-- Stages in a row: each leads to `Q` or to a smaller one. -/
theorem leadsTo_of_less {r : A → A → Prop} (hr : WellFounded r) {P : A → Nat → Prop}
    (hless : ∀ a, LeadsTo (P a) fun n => Q n ∨ ∃ b, r b a ∧ P b n) (a : A) : LeadsTo (P a) Q := by
  induction a using hr.induction with
  | _ a ih =>
    intro n hn
    obtain ⟨m, hnm, hQ | ⟨b, hb, hP⟩⟩ := hless a n hn
    · exact ⟨m, hnm, hQ⟩
    · obtain ⟨j, hmj, hQ⟩ := ih b hb m hP
      exact ⟨j, Nat.le_trans hnm hmj, hQ⟩

end Progress
