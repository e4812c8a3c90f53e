import DddService.Lib.LockOrder
import DddService.Serializability
import DddService.CallTrace
import Mathlib.Data.String.Basic

/- Calls that wait for each other's rows. A call keeps the rows of the requests it has
   done until it commits, so calls whose requests name two rows in opposite orders can
   block each other for good (`crossed_calls_block`): only the database, which stops one
   of them, helps. Where all calls name their rows in one order nobody waits in a circle,
   and every call ends (`ordered_calls_end`). -/
namespace DddService
open Locking

/-- All calls name their rows in the order `lt`, a row's requests one after another. Calls
    with one request, as the command endpoint makes them, do so for every `lt`. -/
def InOneOrder (lt : String → String → Prop) (batch : Nat → List Modification) : Prop :=
  ∀ i, (batch i).Pairwise fun m m' => m.id = m'.id ∨ lt m.id m'.id

section
variable {env : Env} {db : KeyedDatabase} {batch : Nat → List Modification} {i j : Nat}

/-- The calls of `F`, on any tables, under any fair schedule, whoever of them is cancelled
    or rolled back: no calls wait for each other in a circle, and all of them end. -/
theorem ordered_calls_end (lt : String → String → Prop) [IsStrictOrder String lt]
    (horder : InOneOrder lt batch) {F : Finset Nat} {schedule : Nat → Action Stamp}
    (hfair : Locking.Fair F schedule) :
    let s := (State.start db batch).after (transactions env) schedule
    (∀ n i, ¬ Relation.TransGen (Waits (transactions env) (s n)) i i) ∧
      ∃ n, ∀ m ≥ n, ∀ i ∈ F, ∀ t, (s m).stage i ≠ .running t := by
  have hcons : Consistent (transactions env) db batch (State.start db batch) :=
    start_consistent db batch
  have htracked : Tracked (transactions env) (State.start db batch) := start_tracked db batch
  have hF : ∀ k j, (State.start db batch : State String (Option YourAggregateModel) _ Stamp _
      (DateTime × List Pending)).owner k = some j → j ∈ F := fun _ _ h => by cases h
  constructor
  · intro n i
    obtain ⟨hcons', htracked', -⟩ := after_invariant hcons htracked hF hfair.actor n
    exact no_cycle horder hcons' htracked'
  · exact fair_ends horder hfair hcons htracked hF

/-- Two aggregates, in the tables after the call that creates them. -/
def twoAggregates : KeyedDatabase := .afterCalls .plain [] [.createTwo]

/-- The voiding of the first and of the second of them. -/
def voidFirst : Modification := .void ⟨⟨none, none, none, none, none⟩, none, "a"⟩

def voidSecond : Modification := .void ⟨⟨none, none, none, none, none⟩, none, "ax"⟩

def Stamp.zero : Stamp := ⟨0, "r", ⟨0, "s", none, "t"⟩, 0⟩

/-- Two calls that void both, in the same order. -/
theorem ordered_voids_end :
    let s := (State.start twoAggregates fun i => if i < 2 then [voidFirst, voidSecond] else []).after
      (transactions .plain) (roundRobin 2 Stamp.zero)
    (∀ n i, ¬ Relation.TransGen (Waits (transactions .plain) (s n)) i i) ∧
      ∃ n, ∀ m ≥ n, ∀ i ∈ Finset.range 2, ∀ t, (s m).stage i ≠ .running t := by
  refine ordered_calls_end (· < ·) (fun i => ?_) (roundRobin_fair (by decide) Stamp.zero)
  dsimp only
  split
  · exact List.pairwise_pair.mpr (Or.inr (by decide))
  · exact List.Pairwise.nil

/-- Two calls that begin with the rows the other one takes next. Once both have done their
    first request neither ever ends, whatever the two and all other calls do, unless one
    of the two is stopped. -/
theorem crossed_calls_block {m₁ m₂ m₁' m₂' : Modification} {rest rest' : List Modification}
    {st st' : Stamp} (hij : i ≠ j) (hi : batch i = m₁ :: m₂ :: rest)
    (hj : batch j = m₁' :: m₂' :: rest') (hne : m₁.id ≠ m₁'.id) (hcross : m₂.id = m₁'.id)
    (hcross' : m₂'.id = m₁.id)
    (hexec : (m₁.execute env st (db.db.yourAggregate m₁.id) (db.db.yourAggregate m₁.id)).isSome)
    (hexec' : (m₁'.execute env st' (db.db.yourAggregate m₁'.id)
      (db.db.yourAggregate m₁'.id)).isSome)
    {more : List (Action Stamp)}
    (hmore : ∀ a ∈ more, a.actor = i ∨ a.actor = j → a.IsForward) :
    let s := (State.start db batch).run (transactions env)
      ([.load i, .save i st, .load j, .save j st'] ++ more)
    (∃ t, s.stage i = .running t) ∧ ∃ t, s.stage j = .running t := by
  have hfound : ∀ {m : Modification} {st : Stamp} {row found : Option YourAggregateModel},
      (m.execute env st row found).isSome → row.isSome := by
    intro m st row found h
    cases row with
    | none => cases h
    | some model => rfl
  have hdead : Deadlocked (transactions env) {i, j} _ :=
    crossed_deadlocked hij hi hj hne hcross hcross' (hfound hexec) hexec (hfound hexec') hexec'
  have hlater := hdead.run hmore
  show (∃ t, (State.run _ _ _).stage i = _) ∧ ∃ t, (State.run _ _ _).stage j = _
  rw [State.run_append]
  exact ⟨hlater.running (Or.inl rfl), hlater.running (Or.inr rfl)⟩

end

/-- Two calls that void both aggregates, in opposite orders, and a third that is stopped. -/
theorem crossed_voids_block :
    let s := (State.start twoAggregates
        fun i => if i = 0 then [voidFirst, voidSecond] else [voidSecond, voidFirst]).run
      (transactions .plain)
      ([.load 0, .save 0 Stamp.zero, .load 1, .save 1 Stamp.zero] ++
        [.load 2, .load 0, .interrupt 2, .load 1])
    (∃ t, s.stage 0 = .running t) ∧ ∃ t, s.stage 1 = .running t := by
  refine crossed_calls_block (by decide) rfl rfl (by decide) rfl rfl ?_ ?_ ?_
  · decide +kernel
  · decide +kernel
  · intro a ha hactor
    simp only [List.mem_cons, List.not_mem_nil, or_false] at ha
    rcases ha with rfl | rfl | rfl | rfl
    · trivial
    · trivial
    · exact absurd hactor (by decide)
    · trivial

end DddService
