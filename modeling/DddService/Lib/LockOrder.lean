import DddService.Lib.Locking
import Mathlib.Algebra.Order.BigOperators.Group.Finset
import Mathlib.Logic.Relation
import Mathlib.Data.Fintype.Card
import Mathlib.Data.Set.Finite.Basic

/- Waiting for locks. A transaction waits for another when the next key it has to load is
   locked by that one. Transactions that wait in a circle stay there for good, unless one of
   them is stopped from outside (`Deadlocked.run`). Where all batches take their keys in one
   order there is no such circle (`no_cycle`), and under a fair schedule of finitely many
   transactions each of them comes to its end (`fair_ends`). -/
namespace Locking

variable {K V D S R W : Type} (sys : System K V D S R W)

namespace Action

/-- A step of the transaction's own code. -/
def IsForward : Action S → Prop
  | .load _ | .save _ _ | .commit _ => True
  | .interrupt _ | .rollback _ => False

def actor : Action S → Nat
  | .load i | .save i _ | .commit i | .interrupt i | .rollback i => i

end Action

/-- The transaction is about to load the key. -/
def Wants (s : State K V D S R W) (i : Nat) (k : K) : Prop :=
  ∃ r todo done, s.stage i = .running ⟨r :: todo, done, none⟩ ∧ sys.key r = k

/-- `i` is about to load a key that `j` has locked. -/
def Waits (s : State K V D S R W) (i j : Nat) : Prop :=
  ∃ k, Wants sys s i k ∧ s.owner k = some j ∧ j ≠ i

/-- Each of the transactions waits for one of them. -/
def Deadlocked (C : Set Nat) (s : State K V D S R W) : Prop := ∀ i ∈ C, ∃ j ∈ C, Waits sys s i j

/-- All batches take their keys in one order. -/
def Ordered (lt : K → K → Prop) (batch : Nat → List R) : Prop :=
  ∀ i, (batch i).Pairwise fun r r' => sys.key r = sys.key r' ∨ lt (sys.key r) (sys.key r')

/-- A running transaction has a key only by what it has done or loaded. -/
def Holds (t : Tx V S R W) (k : K) : Prop :=
  ∃ r, sys.key r = k ∧ (r ∈ t.done.map Done.request ∨ t.held.isSome ∧ t.todo.head? = some r)

/-- The locks belong to running transactions. -/
def Tracked (s : State K V D S R W) : Prop :=
  ∀ k j, s.owner k = some j → ∃ t, s.stage j = .running t ∧ Holds sys t k

/-- All but `i` are where they were, with the locks they had. -/
structure Spares (i : Nat) (s s' : State K V D S R W) : Prop where
  stage : ∀ j, j ≠ i → s'.stage j = s.stage j
  owner : ∀ k j, j ≠ i → (s'.owner k = some j ↔ s.owner k = some j)

section
variable {sys} {s s' : State K V D S R W} {i j l : Nat} {k k' : K}

theorem Wants.unique (h : Wants sys s i k) (h' : Wants sys s i k') : k = k' := by
  obtain ⟨r, todo, done, hstage, rfl⟩ := h
  obtain ⟨r', todo', done', hstage', rfl⟩ := h'
  rw [hstage] at hstage'
  cases hstage'
  rfl

/-! ## What a step leaves alone -/

theorem Spares.refl (i : Nat) (s : State K V D S R W) : Spares i s s :=
  ⟨fun _ _ => rfl, fun _ _ _ => Iff.rfl⟩

theorem release_eq_some {owner : K → Option Nat} :
    release i owner k = some j ↔ owner k = some j ∧ j ≠ i := by
  unfold release
  by_cases h : owner k = some i
  · rw [if_pos h, h]
    constructor
    · intro hj
      cases hj
    · intro ⟨hj, hne⟩
      exact absurd (Option.some.inj hj).symm hne
  · rw [if_neg h]
    exact ⟨fun hj => ⟨hj, fun he => h (he ▸ hj)⟩, And.left⟩

theorem Spares.released {done : List (Nat × List (Done S R W))} {d : D} {g : Stage V S R W} :
    Spares i s ⟨d, release i s.owner, Function.update s.stage i g, done⟩ where
  stage _ hj := Function.update_of_ne hj _ _
  owner _ _ hj := release_eq_some.trans (and_iff_left hj)

theorem Deadlocked.running {C : Set Nat} (h : Deadlocked sys C s) (hi : i ∈ C) :
    ∃ t, s.stage i = .running t := by
  obtain ⟨_, -, _, ⟨_, _, _, hstage, -⟩, -⟩ := h i hi
  exact ⟨_, hstage⟩

theorem start_tracked (d : D) (batch : Nat → List R) :
    Tracked sys (State.start d batch : State K V D S R W) := by
  intro k j h
  cases h

/-- What a step of `i` has to show: its own locks afterwards. -/
theorem Tracked.of_spares (h : Tracked sys s) (hspares : Spares i s s')
    (hself : ∀ k, s'.owner k = some i → ∃ t, s'.stage i = .running t ∧ Holds sys t k) :
    Tracked sys s' := by
  intro k j hk
  by_cases hj : j = i
  · rw [hj] at hk ⊢
    exact hself k hk
  · obtain ⟨t, ht, hholds⟩ := h k j ((hspares.owner k j hj).mp hk)
    exact ⟨t, (hspares.stage j hj).trans ht, hholds⟩

theorem Tracked.released (h : Tracked sys s) {done : List (Nat × List (Done S R W))} {d : D}
    {g : Stage V S R W} :
    Tracked sys ⟨d, release i s.owner, Function.update s.stage i g, done⟩ :=
  h.of_spares Spares.released fun _ hk => absurd rfl (release_eq_some.mp hk).2

theorem Tracked.holds_running (h : Tracked sys s) {t : Tx V S R W} (hi : s.stage i = .running t)
    (hk : s.owner k = some i) : Holds sys t k := by
  obtain ⟨t', ht', hholds⟩ := h k i hk
  rw [hi] at ht'
  cases ht'
  exact hholds

variable [DecidableEq K]

/-- A step of one transaction moves no other, and takes no lock from it. -/
theorem step_spares (a : Action S) : Spares a.actor s (s.step sys a) := by
  cases a with
  | load i =>
    show Spares i s (s.load sys i)
    unfold State.load
    split
    · next r todo done hstage =>
      split
      · next hfree =>
        dsimp only
        split
        · refine ⟨fun j hj => Function.update_of_ne hj _ _, fun k j hj => ?_⟩
          show Function.update s.owner (sys.key r) (some i) k = some j ↔ _
          by_cases hk : k = sys.key r
          · -- the key that is taken had no other owner
            rw [hk, Function.update_self]
            refine ⟨fun h => absurd (Option.some.inj h).symm hj, fun h => ?_⟩
            rw [h] at hfree
            rcases hfree with hfree | hfree
            · cases hfree
            · exact absurd (Option.some.inj hfree) hj
          · rw [Function.update_of_ne hk]
        · exact Spares.released
      · exact Spares.refl i s
    · exact Spares.refl i s
  | save i stamp =>
    show Spares i s (s.save sys i stamp)
    unfold State.save
    split
    · split
      · exact ⟨fun j hj => Function.update_of_ne hj _ _, fun _ _ _ => Iff.rfl⟩
      · exact Spares.released
    · exact Spares.refl i s
  | commit i =>
    show Spares i s (s.commit sys i)
    unfold State.commit
    split
    · exact Spares.released
    · exact Spares.refl i s
  | interrupt i =>
    show Spares i s (s.interrupt sys i)
    unfold State.interrupt
    split
    · exact Spares.released
    · exact Spares.refl i s
  | rollback i =>
    show Spares i s (s.rollback i)
    unfold State.rollback
    split
    · exact Spares.released
    · exact Spares.refl i s

theorem State.run_append (xs ys : List (Action S)) :
    s.run sys (xs ++ ys) = (s.run sys xs).run sys ys := List.foldl_append

/-! ## Deadlocks stay -/

theorem Waits.step_self (h : Waits sys s i j) {a : Action S} (ha : a.IsForward)
    (hi : a.actor = i) : s.step sys a = s := by
  obtain ⟨k, ⟨r, todo, done, hstage, rfl⟩, howner, hne⟩ := h
  have hlocked : ¬(s.owner (sys.key r) = none ∨ s.owner (sys.key r) = some i) := by
    rw [howner]
    simpa using hne
  cases a with
  | load i' =>
    obtain rfl : i' = i := hi
    show s.load sys i' = s
    unfold State.load
    rw [hstage]
    exact if_neg hlocked
  | save i' stamp =>
    obtain rfl : i' = i := hi
    show s.save sys i' stamp = s
    unfold State.save
    rw [hstage]
  | commit i' =>
    obtain rfl : i' = i := hi
    show s.commit sys i' = s
    unfold State.commit
    rw [hstage]
  | interrupt i' => exact ha.elim
  | rollback i' => exact ha.elim

theorem Waits.step_other (h : Waits sys s i j) {a : Action S} (hi : a.actor ≠ i)
    (hj : a.actor ≠ j) : Waits sys (s.step sys a) i j := by
  obtain ⟨k, ⟨r, todo, done, hstage, hk⟩, howner, hne⟩ := h
  have hspares : Spares a.actor s (s.step sys a) := step_spares a
  exact ⟨k, ⟨r, todo, done, (hspares.stage i hi.symm).trans hstage, hk⟩,
    (hspares.owner k j hj.symm).mpr howner, hne⟩

theorem Deadlocked.step {C : Set Nat} (h : Deadlocked sys C s) {a : Action S}
    (ha : a.actor ∈ C → a.IsForward) : Deadlocked sys C (s.step sys a) := by
  by_cases hactor : a.actor ∈ C
  · obtain ⟨j, -, hwaits⟩ := h _ hactor
    rw [hwaits.step_self (ha hactor) rfl]
    exact h
  · intro i hi
    obtain ⟨j, hj, hwaits⟩ := h i hi
    exact ⟨j, hj, hwaits.step_other (fun he => hactor (he ▸ hi)) fun he => hactor (he ▸ hj)⟩

/-- Unless one of them is stopped from outside, transactions in a deadlock never end. -/
theorem Deadlocked.run {C : Set Nat} (h : Deadlocked sys C s) {schedule : List (Action S)}
    (hforward : ∀ a ∈ schedule, a.actor ∈ C → a.IsForward) :
    Deadlocked sys C (s.run sys schedule) := by
  induction schedule generalizing s with
  | nil => exact h
  | cons a schedule ih =>
    exact ih (h.step (hforward a List.mem_cons_self)) fun b hb =>
      hforward b (List.mem_cons_of_mem a hb)

/-- The first request of a transaction goes through on a key that is free. -/
theorem run_load_save {r : R} {todo : List R} {stamp : S} {w : W}
    (hi : s.stage i = .running ⟨r :: todo, [], none⟩) (hfree : s.owner (sys.key r) = none)
    (hfound : sys.found (sys.read s.store (sys.key r)))
    (hexec : sys.exec stamp r (sys.read s.store (sys.key r)) (sys.read s.store (sys.key r)) =
      some w) :
    s.run sys [.load i, .save i stamp] =
      { s with
        owner := Function.update s.owner (sys.key r) (some i)
        stage := Function.update s.stage i (.running ⟨todo, [⟨stamp, r, w⟩], none⟩) } := by
  have hload : s.load sys i =
      { s with
        owner := Function.update s.owner (sys.key r) (some i)
        stage := Function.update s.stage i
          (.running ⟨r :: todo, [], some (sys.read s.store (sys.key r))⟩) } := by
    unfold State.load
    rw [hi]
    exact (if_pos (Or.inl hfree)).trans (if_pos hfound)
  show (s.load sys i).save sys i stamp = _
  rw [hload]
  unfold State.save
  dsimp only
  rw [Function.update_self]
  dsimp only
  have hsaved : sys.exec stamp r (sys.read s.store (sys.key r))
      (sys.read (after sys s.store []) (sys.key r)) = some w := hexec
  rw [hsaved]
  dsimp only
  rw [Function.update_idem]
  rfl

/-- Two transactions that begin with the keys the other one takes next. -/
theorem crossed_deadlocked {d : D} {batch : Nat → List R} {r₁ r₂ r₁' r₂' : R}
    {todo todo' : List R} {stamp stamp' : S} (hij : i ≠ j) (hi : batch i = r₁ :: r₂ :: todo)
    (hj : batch j = r₁' :: r₂' :: todo') (hne : sys.key r₁ ≠ sys.key r₁')
    (hcross : sys.key r₂ = sys.key r₁') (hcross' : sys.key r₂' = sys.key r₁)
    (hfound : sys.found (sys.read d (sys.key r₁)))
    (hexec : (sys.exec stamp r₁ (sys.read d (sys.key r₁)) (sys.read d (sys.key r₁))).isSome)
    (hfound' : sys.found (sys.read d (sys.key r₁')))
    (hexec' : (sys.exec stamp' r₁' (sys.read d (sys.key r₁'))
      (sys.read d (sys.key r₁'))).isSome) :
    Deadlocked sys {i, j} ((State.start d batch).run sys
      [.load i, .save i stamp, .load j, .save j stamp']) := by
  obtain ⟨w, hw⟩ := Option.isSome_iff_exists.mp hexec
  obtain ⟨w', hw'⟩ := Option.isSome_iff_exists.mp hexec'
  have hfirst : (State.start d batch).run sys [.load i, .save i stamp] = _ :=
    run_load_save (congrArg (fun rs => Stage.running ⟨rs, [], none⟩) hi) rfl hfound hw
  have hrun : (State.start d batch).run sys [.load i, .save i stamp, .load j, .save j stamp'] =
      ((State.start d batch).run sys [.load i, .save i stamp]).run sys
        [.load j, .save j stamp'] := rfl
  have hj' : Function.update (State.start d batch : State K V D S R W).stage i
      (.running ⟨r₂ :: todo, [⟨stamp, r₁, w⟩], none⟩) j =
        .running ⟨r₁' :: r₂' :: todo', [], none⟩ := by
    rw [Function.update_of_ne hij.symm, ← hj]
    rfl
  -- after the four steps each has its own key, and wants the other one's
  rw [hrun, hfirst, run_load_save hj' (Function.update_of_ne hne.symm _ _) hfound' hw']
  intro l hl
  rcases hl with rfl | rfl
  · refine ⟨j, Or.inr rfl, sys.key r₂, ⟨r₂, todo, [⟨stamp, r₁, w⟩], ?_, rfl⟩, ?_, hij.symm⟩
    · exact (Function.update_of_ne hij _ _).trans (Function.update_self _ _ _)
    · rw [hcross]
      exact Function.update_self _ _ _
  · refine ⟨i, Or.inl rfl, sys.key r₂', ⟨r₂', todo', [⟨stamp', r₁', w'⟩], ?_, rfl⟩, ?_, hij⟩
    · exact Function.update_self _ _ _
    · rw [hcross']
      exact (Function.update_of_ne hne _ _).trans (Function.update_self _ _ _)

/-! ## Who has the locks -/

theorem Tracked.step (h : Tracked sys s) (a : Action S) : Tracked sys (s.step sys a) := by
  cases a with
  | load i =>
    have hspares : Spares i s (s.load sys i) := step_spares (.load i)
    show Tracked sys (s.load sys i)
    unfold State.load at hspares ⊢
    split at hspares
    · next r todo done hstage =>
      split at hspares
      · next hfree =>
        rw [if_pos hfree]
        dsimp only at hspares ⊢
        split at hspares
        · next hfound =>
          rw [if_pos hfound]
          refine h.of_spares hspares fun k hk => ⟨_, Function.update_self _ _ _, ?_⟩
          by_cases he : k = sys.key r
          · exact ⟨r, he.symm, Or.inr ⟨rfl, rfl⟩⟩
          · have hold : s.owner k = some i := (Function.update_of_ne he _ _).symm.trans hk
            obtain ⟨r', hr', hin | ⟨hheld, -⟩⟩ := h.holds_running hstage hold
            · exact ⟨r', hr', Or.inl hin⟩
            · cases hheld
        · next hfound =>
          rw [if_neg hfound]
          exact h.released
      · next hfree =>
        rw [if_neg hfree]
        exact h
    · exact h
  | save i stamp =>
    show Tracked sys (s.save sys i stamp)
    unfold State.save
    split
    · next r todo done v hstage =>
      split
      · next w hexec =>
        refine h.of_spares ⟨fun _ hj => Function.update_of_ne hj _ _, fun _ _ _ => Iff.rfl⟩
          fun k hk => ⟨_, Function.update_self _ _ _, ?_⟩
        -- the request that was loaded is done now
        obtain ⟨r', hr', hin | ⟨-, hhead⟩⟩ := h.holds_running hstage hk
        · refine ⟨r', hr', Or.inl ?_⟩
          rw [List.map_append]
          exact List.mem_append_left _ hin
        · cases hhead
          refine ⟨r, hr', Or.inl ?_⟩
          rw [List.map_append]
          exact List.mem_append_right _ (List.mem_singleton_self r)
      · exact h.released
    · exact h
  | commit i =>
    show Tracked sys (s.commit sys i)
    unfold State.commit
    split
    · exact h.released
    · exact h
  | interrupt i =>
    show Tracked sys (s.interrupt sys i)
    unfold State.interrupt
    split
    · exact h.released
    · exact h
  | rollback i =>
    show Tracked sys (s.rollback i)
    unfold State.rollback
    split
    · exact h.released
    · exact h

end

/-! ## Keys in one order -/

section
variable {sys} {lt : K → K → Prop} {d₀ : D} {batch : Nat → List R} {s : State K V D S R W}
  {i j l : Nat}

/-- Who waits for a transaction that waits itself, waits for a smaller key. -/
theorem Waits.climbs (horder : Ordered sys lt batch) (hcons : Consistent sys d₀ batch s)
    (htracked : Tracked sys s) (h : Waits sys s i j) (h' : Waits sys s j l) :
    ∃ k k', Wants sys s i k ∧ Wants sys s j k' ∧ lt k k' := by
  obtain ⟨k, hwants, howner, -⟩ := h
  obtain ⟨k', hwants', howner', hne⟩ := h'
  obtain ⟨r', todo, done, hstage, hk'⟩ := hwants'
  refine ⟨k, k', hwants, ⟨r', todo, done, hstage, hk'⟩, ?_⟩
  obtain ⟨r, hk, hin | ⟨hheld, -⟩⟩ := htracked.holds_running hstage howner
  · -- in the batch, what is done stands before what comes next
    have hbatch := horder j
    rw [← (hcons.running j _ hstage).whole, List.pairwise_append] at hbatch
    have hor := hbatch.2.2 r hin r' List.mem_cons_self
    rw [hk, hk'] at hor
    refine hor.resolve_left fun he => hne ?_
    rw [← he, howner] at howner'
    exact (Option.some.inj howner').symm
  · cases hheld

variable [IsStrictOrder K lt]

theorem chain_lt (horder : Ordered sys lt batch) (hcons : Consistent sys d₀ batch s)
    (htracked : Tracked sys s) (h : Relation.TransGen (Waits sys s) i j) (h' : Waits sys s j l) :
    ∃ k k', Wants sys s i k ∧ Wants sys s j k' ∧ lt k k' := by
  induction h generalizing l with
  | single h => exact h.climbs horder hcons htracked h'
  | tail _ hlast ih =>
    obtain ⟨k, k₁, hk, hk₁, hlt⟩ := ih hlast
    obtain ⟨k₁', k', hk₁', hk', hlt'⟩ := hlast.climbs horder hcons htracked h'
    rw [hk₁'.unique hk₁] at hlt'
    exact ⟨k, k', hk, hk', IsTrans.trans _ _ _ hlt hlt'⟩

theorem no_cycle (horder : Ordered sys lt batch) (hcons : Consistent sys d₀ batch s)
    (htracked : Tracked sys s) : ¬ Relation.TransGen (Waits sys s) i i := by
  intro h
  obtain ⟨j, hfirst⟩ : ∃ j, Waits sys s i j := by
    rcases Relation.TransGen.head'_iff.mp h with ⟨j, hfirst, -⟩
    exact ⟨j, hfirst⟩
  obtain ⟨k, k', hk, hk', hlt⟩ := chain_lt horder hcons htracked h hfirst
  rw [hk.unique hk'] at hlt
  exact irrefl k' hlt

theorem exists_free (horder : Ordered sys lt batch) (hcons : Consistent sys d₀ batch s)
    (htracked : Tracked sys s) {F : Finset Nat} (hF : ∀ k j, s.owner k = some j → j ∈ F)
    (i : Nat) : ∃ j, Relation.ReflTransGen (Waits sys s) i j ∧ ∀ l, ¬ Waits sys s j l := by
  have hmem : ∀ {i j}, Waits sys s i j → j ∈ F := fun ⟨k, _, howner, _⟩ => hF k _ howner
  have hall : ∀ j : F, ∃ e, Relation.ReflTransGen (Waits sys s) j.1 e ∧ ∀ l, ¬ Waits sys s e l := by
    let later : F → F → Prop := fun a b => Relation.TransGen (Waits sys s) b.1 a.1
    have : IsTrans F later := ⟨fun _ _ _ hab hbc => hbc.trans hab⟩
    have : Std.Irrefl later := ⟨fun _ => no_cycle horder hcons htracked⟩
    intro j
    induction j using (Finite.wellFounded_of_trans_of_irrefl later).induction with
    | _ j ih =>
      by_cases hfree : ∀ l, ¬ Waits sys s j.1 l
      · exact ⟨j.1, .refl, hfree⟩
      · obtain ⟨l, hl⟩ := not_forall_not.mp hfree
        obtain ⟨e, hle, he⟩ := ih ⟨l, hmem hl⟩ (.single hl)
        exact ⟨e, .head hl hle, he⟩
  by_cases hfree : ∀ l, ¬ Waits sys s i l
  · exact ⟨i, .refl, hfree⟩
  · obtain ⟨l, hl⟩ := not_forall_not.mp hfree
    obtain ⟨e, hle, he⟩ := hall ⟨l, hmem hl⟩
    exact ⟨e, .head hl hle, he⟩

end

/-! ## Fair schedules -/

/-- The steps that a transaction has before it. -/
def Stage.work : Stage V S R W → Nat
  | .running t => 2 * t.todo.length + if t.held.isSome then 0 else 1
  | _ => 0

/-- The state after `n` steps. -/
def State.after [DecidableEq K] (s : State K V D S R W) (schedule : Nat → Action S) :
    Nat → State K V D S R W
  | 0 => s
  | n + 1 => (s.after schedule n).step sys (schedule n)

/-- The steps are of transactions in `F`, and each of these gets every kind of step again
    and again. -/
structure Fair (F : Finset Nat) (schedule : Nat → Action S) : Prop where
  actor : ∀ n, (schedule n).actor ∈ F
  load : ∀ i ∈ F, ∀ n, ∃ m ≥ n, schedule m = .load i
  save : ∀ i ∈ F, ∀ n, ∃ m ≥ n, ∃ stamp, schedule m = .save i stamp
  commit : ∀ i ∈ F, ∀ n, ∃ m ≥ n, schedule m = .commit i

/-- The three steps of a transaction. -/
def turn (i : Nat) (stamp : S) : Nat → Action S
  | 0 => .load i
  | 1 => .save i stamp
  | _ => .commit i

/-- The first `n` transactions in turn, with the three steps of each. -/
def roundRobin (n : Nat) (stamp : S) (k : Nat) : Action S := turn (k / 3 % n) stamp (k % 3)

theorem turn_actor (i : Nat) (stamp : S) (c : Nat) : (turn i stamp c).actor = i := by
  unfold turn
  split <;> rfl

theorem roundRobin_eq {n i c : Nat} (stamp : S) (hi : i < n) (hc : c < 3) (k : Nat) :
    roundRobin n stamp (3 * (n * k + i) + c) = turn i stamp c := by
  have hdiv : (3 * (n * k + i) + c) / 3 = n * k + i := by omega
  have hmod : (3 * (n * k + i) + c) % 3 = c := by omega
  unfold roundRobin
  rw [hdiv, hmod, Nat.mul_add_mod, Nat.mod_eq_of_lt hi]

theorem roundRobin_fair {n : Nat} (hn : 0 < n) (stamp : S) :
    Fair (Finset.range n) (roundRobin n stamp) := by
  have hlate : ∀ {i k c}, k ≤ 3 * (n * k + i) + c := by
    intro i k c
    have := Nat.le_mul_of_pos_left k hn
    omega
  refine ⟨fun k => ?_, fun i hi k => ?_, fun i hi k => ?_, fun i hi k => ?_⟩
  · unfold roundRobin
    rw [turn_actor]
    exact Finset.mem_range.mpr (Nat.mod_lt _ hn)
  · exact ⟨_, hlate, roundRobin_eq (c := 0) stamp (Finset.mem_range.mp hi) (by decide) k⟩
  · exact ⟨_, hlate, stamp, roundRobin_eq (c := 1) stamp (Finset.mem_range.mp hi) (by decide) k⟩
  · exact ⟨_, hlate, roundRobin_eq (c := 2) stamp (Finset.mem_range.mp hi) (by decide) k⟩

section
variable {sys} {lt : K → K → Prop} {d₀ : D} {batch : Nat → List R} {s : State K V D S R W}
  {i : Nat} {F : Finset Nat} {schedule : Nat → Action S}

theorem Running.work_pos {t : Tx V S R W} (h : Running sys batch s i t) :
    0 < (Stage.running t).work := by
  show 0 < 2 * t.todo.length + if t.held.isSome then 0 else 1
  cases hheld : t.held with
  | none => exact Nat.succ_pos _
  | some v =>
    obtain ⟨r, todo, htodo, -, -⟩ := h.held v hheld
    rw [htodo]
    exact Nat.succ_pos _

theorem Running.ended {t : Tx V S R W} (h : Running sys batch s i t)
    (hi : s.stage i = .running t) {g : Stage V S R W} (hg : g.work = 0) :
    (Function.update s.stage i g i).work < (s.stage i).work := by
  rw [Function.update_self, hi, hg]
  exact h.work_pos

variable [DecidableEq K]

theorem step_less (h : Consistent sys d₀ batch s) (a : Action S) :
    s.step sys a = s ∨ ((s.step sys a).stage a.actor).work < (s.stage a.actor).work := by
  cases a with
  | load i =>
    show s.load sys i = s ∨ ((s.load sys i).stage i).work < (s.stage i).work
    unfold State.load
    split
    · next r todo done hi =>
      split
      · right
        dsimp only
        split
        · show (Function.update s.stage i _ i).work < _
          rw [Function.update_self, hi]
          exact Nat.lt_succ_self _
        · exact (h.running i _ hi).ended hi rfl
      · exact Or.inl rfl
    · exact Or.inl rfl
  | save i stamp =>
    show s.save sys i stamp = s ∨ ((s.save sys i stamp).stage i).work < (s.stage i).work
    unfold State.save
    split
    · next r todo done v hi =>
      right
      split
      · show (Function.update s.stage i _ i).work < _
        rw [Function.update_self, hi]
        show 2 * todo.length + 1 < 2 * (todo.length + 1)
        omega
      · exact (h.running i _ hi).ended hi rfl
    · exact Or.inl rfl
  | commit i =>
    show s.commit sys i = s ∨ ((s.commit sys i).stage i).work < (s.stage i).work
    unfold State.commit
    split
    · next done hi => exact Or.inr ((h.running i _ hi).ended hi rfl)
    · exact Or.inl rfl
  | interrupt i =>
    show s.interrupt sys i = s ∨ ((s.interrupt sys i).stage i).work < (s.stage i).work
    unfold State.interrupt
    split
    · next hi => exact Or.inr ((h.running i _ hi).ended hi rfl)
    · exact Or.inl rfl
  | rollback i =>
    show s.rollback i = s ∨ ((s.rollback i).stage i).work < (s.stage i).work
    unfold State.rollback
    split
    · next hi => exact Or.inr ((h.running i _ hi).ended hi rfl)
    · exact Or.inl rfl

/-- A transaction that does not wait is moved by a step of the kind it has next. -/
theorem Fair.moves (hfair : Fair F schedule) (hcons : Consistent sys d₀ batch s) (hiF : i ∈ F)
    {t : Tx V S R W} (hi : s.stage i = .running t) (hfree : ∀ l, ¬ Waits sys s i l) (n : Nat) :
    ∃ m ≥ n, s.step sys (schedule m) ≠ s := by
  have hends : ∀ {s' : State K V D S R W} {g : Stage V S R W}, s'.stage i = g →
      g ≠ .running t → s' ≠ s := by
    intro s' g hg hne he
    rw [he, hi] at hg
    exact hne hg.symm
  -- what the transaction has next: a commit, a load, or the save of what it holds
  obtain ⟨todo, done, held⟩ := t
  cases held with
  | none =>
    cases todo with
    | nil =>
      obtain ⟨m, hm, haction⟩ := hfair.commit i hiF n
      refine ⟨m, hm, ?_⟩
      rw [haction]
      show s.commit sys i ≠ s
      unfold State.commit
      rw [hi]
      exact hends (Function.update_self _ _ _) (fun h => by cases h)
    | cons r todo =>
      obtain ⟨m, hm, haction⟩ := hfair.load i hiF n
      refine ⟨m, hm, ?_⟩
      -- the key is free or its own, since it waits for nobody
      have hown : s.owner (sys.key r) = none ∨ s.owner (sys.key r) = some i := by
        cases ho : s.owner (sys.key r) with
        | none => exact Or.inl rfl
        | some l =>
          by_cases hl : l = i
          · exact Or.inr (congrArg some hl)
          · exact absurd ⟨_, ⟨r, todo, done, hi, rfl⟩, ho, hl⟩ (hfree l)
      rw [haction]
      show s.load sys i ≠ s
      unfold State.load
      rw [hi]
      dsimp only
      rw [if_pos hown]
      split
      · exact hends (Function.update_self _ _ _) (fun h => by cases h)
      · exact hends (Function.update_self _ _ _) (fun h => by cases h)
  | some v =>
    obtain ⟨r, rest, htodo, -, -⟩ := (hcons.running i _ hi).held v rfl
    change todo = r :: rest at htodo
    rw [htodo] at hi hends
    obtain ⟨m, hm, stamp, haction⟩ := hfair.save i hiF n
    refine ⟨m, hm, ?_⟩
    rw [haction]
    show s.save sys i stamp ≠ s
    unfold State.save
    rw [hi]
    dsimp only
    split
    · exact hends (Function.update_self _ _ _) (fun h => by cases h)
    · exact hends (Function.update_self _ _ _) (fun h => by cases h)

theorem after_invariant (hcons : Consistent sys d₀ batch s) (htracked : Tracked sys s)
    (hF : ∀ k j, s.owner k = some j → j ∈ F) (hactor : ∀ n, (schedule n).actor ∈ F) (n : Nat) :
    Consistent sys d₀ batch (s.after sys schedule n) ∧ Tracked sys (s.after sys schedule n) ∧
      ∀ k j, (s.after sys schedule n).owner k = some j → j ∈ F := by
  induction n with
  | zero => exact ⟨hcons, htracked, hF⟩
  | succ n ih =>
    obtain ⟨hcons', htracked', hF'⟩ := ih
    refine ⟨consistent_run hcons' [schedule n], htracked'.step _, fun k j hk => ?_⟩
    by_cases hj : j = (schedule n).actor
    · rw [hj]
      exact hactor n
    · exact hF' k j (((step_spares (schedule n)).owner k j hj).mp hk)

variable [IsStrictOrder K lt]

/-- Under a fair schedule every transaction comes to its end. -/
theorem fair_ends (horder : Ordered sys lt batch) (hfair : Fair F schedule)
    (hcons : Consistent sys d₀ batch s) (htracked : Tracked sys s)
    (hF : ∀ k j, s.owner k = some j → j ∈ F) :
    ∃ n, ∀ m ≥ n, ∀ i ∈ F, ∀ t, (s.after sys schedule m).stage i ≠ .running t := by
  let left : Nat → Nat := fun n => ∑ i ∈ F, ((s.after sys schedule n).stage i).work
  have hinv := after_invariant hcons htracked hF hfair.actor
  have hstep : ∀ n, s.after sys schedule (n + 1) = s.after sys schedule n ∨
      left (n + 1) < left n := by
    intro n
    rcases step_less (hinv n).1 (schedule n) with hsame | hless
    · exact Or.inl hsame
    · refine Or.inr (Finset.sum_lt_sum (fun l _ => ?_) ⟨_, hfair.actor n, hless⟩)
      by_cases hl : l = (schedule n).actor
      · rw [hl]
        exact hless.le
      · exact le_of_eq (congrArg Stage.work ((step_spares (schedule n)).stage l hl))
  -- where the least work is left, nothing moves any more
  obtain ⟨n, hleast⟩ : ∃ n, ∀ m, left n ≤ left m := by
    obtain ⟨_, ⟨n, rfl⟩, hmin⟩ := WellFounded.has_min Nat.lt_wfRel.wf (Set.range left) ⟨_, 0, rfl⟩
    exact ⟨n, fun m => not_lt.mp (hmin _ ⟨m, rfl⟩)⟩
  have hstill : ∀ m ≥ n, s.after sys schedule m = s.after sys schedule n := by
    intro m hm
    induction m, hm using Nat.le_induction with
    | base => rfl
    | succ m hm ih =>
      refine ((hstep m).resolve_right fun hless => ?_).trans ih
      have hleft : left m = left n := by
        show ∑ i ∈ F, _ = ∑ i ∈ F, _
        rw [ih]
      exact absurd (hleast (m + 1)) (not_le.mpr (hleft ▸ hless))
  refine ⟨n, fun m hm i hi t ht => ?_⟩
  rw [hstill m hm] at ht
  obtain ⟨hcons', htracked', hF'⟩ := hinv n
  obtain ⟨j, hpath, hfree⟩ := exists_free horder hcons' htracked' hF' i
  obtain ⟨hjF, t', ht'⟩ : j ∈ F ∧ ∃ t, (s.after sys schedule n).stage j = .running t := by
    rcases Relation.ReflTransGen.cases_tail hpath with he | ⟨b, -, k, -, howner, -⟩
    · subst he
      exact ⟨hi, t, ht⟩
    · obtain ⟨t', ht', -⟩ := htracked' k j howner
      exact ⟨hF' k j howner, t', ht'⟩
  obtain ⟨m', hm', hmoves⟩ := hfair.moves hcons' hjF ht' hfree n
  rw [← hstill m' hm'] at hmoves
  exact hmoves ((hstill (m' + 1) (Nat.le_succ_of_le hm')).trans (hstill m' hm').symm)

end

end Locking
