import Mathlib.Data.List.Induction
import Mathlib.Data.List.Nodup
import Mathlib.Logic.Function.Basic

/- Strict two-phase locking. Transactions run batches of requests on a shared store,
   in any interleaving. A request reads the value of one key, which it locks, and
   later writes that key; the locks are held until the transaction commits, which
   applies its writes to the store, or rolls back, which drops them. A transaction
   that is interrupted commits what it has done so far.

   What is proved: under any schedule, the store is what the committed transactions
   make of the first store one after another, in the order of their commits
   (`consistent_run`). The invariant says of a running transaction that its writes
   so far would be the same if it did them now (`Running.performs`): nobody else can
   commit to the keys it has locked. -/
namespace Locking

/-- A store `D` with a value `V` for each key, and requests on it. The environment
    gives each execution a stamp `S`. -/
structure System (K V D S R W : Type) where
  read : D → K → V
  apply : D → W → D
  key : R → K
  /-- Whether there is something to lock; a request that finds nothing fails. -/
  found : V → Bool
  /-- On the value it has loaded, and the value it sees when it writes. -/
  exec : S → R → V → V → Option W
  apply_key : ∀ {s r w d₀ d d'}, exec s r (read d₀ (key r)) (read d₀ (key r)) = some w →
    read d (key r) = read d' (key r) → read (apply d w) (key r) = read (apply d' w) (key r)
  apply_other : ∀ {s r w d₀ d k}, exec s r (read d₀ (key r)) (read d₀ (key r)) = some w →
    k ≠ key r → read (apply d w) k = read d k

/-- An executed request. -/
structure Done (S R W : Type) where
  stamp : S
  request : R
  write : W

/-- A running transaction: what it has to do, what it has done, and the value the
    first request has loaded. -/
structure Tx (V S R W : Type) where
  todo : List R
  done : List (Done S R W)
  held : Option V

inductive Stage (V S R W : Type) where
  | running (t : Tx V S R W)
  | committed
  | interrupted
  | rolledBack

/-- `order` lists the committed transactions, with what they did. -/
structure State (K V D S R W : Type) where
  store : D
  owner : K → Option Nat
  stage : Nat → Stage V S R W
  order : List (Nat × List (Done S R W))

inductive Action (S : Type) where
  | load (i : Nat)
  | save (i : Nat) (stamp : S)
  | commit (i : Nat)
  | interrupt (i : Nat)
  | rollback (i : Nat)

variable {K V D S R W : Type} (sys : System K V D S R W)

/-- The store after the writes. -/
def after (d : D) (xs : List (Done S R W)) : D := xs.foldl (fun d x => sys.apply d x.write) d

/-- Executed one after another from `d`, the requests write what they wrote. -/
def Performs : D → List (Done S R W) → Prop
  | _, [] => True
  | d, x :: xs =>
    let v := sys.read d (sys.key x.request)
    sys.exec x.stamp x.request v v = some x.write ∧ Performs (sys.apply d x.write) xs

/-- Without the locks of `i`. -/
def release (i : Nat) (owner : K → Option Nat) : K → Option Nat :=
  fun k => if owner k = some i then none else owner k

namespace State
variable [DecidableEq K]

/-- Every transaction at the start of its batch. -/
def start (d : D) (batch : Nat → List R) : State K V D S R W :=
  ⟨d, fun _ => none, fun i => .running ⟨batch i, [], none⟩, []⟩

def abandon (i : Nat) (s : State K V D S R W) : State K V D S R W :=
  { s with owner := release i s.owner, stage := Function.update s.stage i .rolledBack }

/-- Waits while another transaction has the key, then reads the latest committed
    value, with the transaction's own writes, and locks it. -/
def load (i : Nat) (s : State K V D S R W) : State K V D S R W :=
  match s.stage i with
  | .running ⟨r :: todo, done, none⟩ =>
    if s.owner (sys.key r) = none ∨ s.owner (sys.key r) = some i then
      let v := sys.read (after sys s.store done) (sys.key r)
      if sys.found v then
        { s with
          owner := Function.update s.owner (sys.key r) (some i)
          stage := Function.update s.stage i (.running ⟨r :: todo, done, some v⟩) }
      else s.abandon i
    else s
  | _ => s

/-- Executes the request on what was loaded and what the transaction sees by now; a
    request that fails ends its transaction. -/
def save (i : Nat) (stamp : S) (s : State K V D S R W) : State K V D S R W :=
  match s.stage i with
  | .running ⟨r :: todo, done, some v⟩ =>
    match sys.exec stamp r v (sys.read (after sys s.store done) (sys.key r)) with
    | some w =>
      { s with stage := Function.update s.stage i (.running ⟨todo, done ++ [⟨stamp, r, w⟩], none⟩) }
    | none => s.abandon i
  | _ => s

/-- Commits what has been done, and ends in the stage `g`. -/
def close (i : Nat) (done : List (Done S R W)) (g : Stage V S R W) (s : State K V D S R W) :
    State K V D S R W where
  store := after sys s.store done
  owner := release i s.owner
  stage := Function.update s.stage i g
  order := s.order ++ [(i, done)]

def commit (i : Nat) (s : State K V D S R W) : State K V D S R W :=
  match s.stage i with
  | .running ⟨[], done, none⟩ => s.close sys i done .committed
  | _ => s

def interrupt (i : Nat) (s : State K V D S R W) : State K V D S R W :=
  match s.stage i with
  | .running ⟨_, done, _⟩ => s.close sys i done .interrupted
  | _ => s

def rollback (i : Nat) (s : State K V D S R W) : State K V D S R W :=
  match s.stage i with
  | .running _ => s.abandon i
  | _ => s

def step (s : State K V D S R W) : Action S → State K V D S R W
  | .load i => s.load sys i
  | .save i stamp => s.save sys i stamp
  | .commit i => s.commit sys i
  | .interrupt i => s.interrupt sys i
  | .rollback i => s.rollback i

def run (s : State K V D S R W) (schedule : List (Action S)) : State K V D S R W :=
  schedule.foldl (step sys) s

end State

/-! ## Executions on two stores -/

section
variable {sys} {d d' : D} {xs ys : List (Done S R W)}

theorem after_append : after sys d (xs ++ ys) = after sys (after sys d xs) ys := List.foldl_append

theorem performs_append :
    Performs sys d (xs ++ ys) ↔ Performs sys d xs ∧ Performs sys (after sys d xs) ys := by
  induction xs generalizing d with
  | nil => simp [Performs, after]
  | cons x xs ih =>
    show _ ∧ Performs sys (sys.apply d x.write) (xs ++ ys) ↔ _
    rw [ih]
    exact and_assoc.symm

theorem performs_frame {k : K} (h : Performs sys d xs) (hk : ∀ x ∈ xs, sys.key x.request ≠ k) :
    sys.read (after sys d xs) k = sys.read d k := by
  induction xs generalizing d with
  | nil => rfl
  | cons x xs ih =>
    obtain ⟨hx, hxs⟩ := h
    have hrest := ih hxs fun y hy => hk y (List.mem_cons_of_mem x hy)
    exact hrest.trans (sys.apply_other hx (hk x List.mem_cons_self).symm)

/-- Stores that agree on the keys `P` agree on them afterwards, and requests on
    these keys cannot tell them apart. -/
theorem performs_congr {P : K → Prop} (hread : ∀ k, P k → sys.read d k = sys.read d' k)
    (hkeys : ∀ x ∈ xs, P (sys.key x.request)) (h : Performs sys d xs) :
    Performs sys d' xs ∧ ∀ k, P k → sys.read (after sys d xs) k = sys.read (after sys d' xs) k := by
  induction xs generalizing d d' with
  | nil => exact ⟨trivial, hread⟩
  | cons x xs ih =>
    obtain ⟨hx, hxs⟩ := h
    have hkey := hread _ (hkeys x List.mem_cons_self)
    have hx' : sys.exec x.stamp x.request (sys.read d' (sys.key x.request))
        (sys.read d' (sys.key x.request)) = some x.write := by
      rw [← hkey]
      exact hx
    have hnext : ∀ k, P k → sys.read (sys.apply d x.write) k = sys.read (sys.apply d' x.write) k := by
      intro k hk
      by_cases he : k = sys.key x.request
      · rw [he]
        exact sys.apply_key hx hkey
      · rw [sys.apply_other hx he, sys.apply_other hx he]
        exact hread k hk
    have hrest := ih hnext (fun y hy => hkeys y (List.mem_cons_of_mem x hy)) hxs
    exact ⟨⟨hx', hrest.1⟩, hrest.2⟩

end

/-! ## The invariant -/

/-- A running transaction owns the keys of what it has done and loaded, and would do
    and load the same on the store as it is now. -/
structure Running (batch : Nat → List R) (s : State K V D S R W) (i : Nat) (t : Tx V S R W) :
    Prop where
  whole : t.done.map Done.request ++ t.todo = batch i
  performs : Performs sys s.store t.done
  locked : ∀ x ∈ t.done, s.owner (sys.key x.request) = some i
  held : ∀ v, t.held = some v → ∃ r todo, t.todo = r :: todo ∧ s.owner (sys.key r) = some i ∧
    v = sys.read (after sys s.store t.done) (sys.key r)

def Stage.IsClosed : Stage V S R W → Prop
  | committed | interrupted => True
  | _ => False

/-- The store is what the committed transactions make of `d₀` one after another, in
    the order of the commits: each did its whole batch, unless it was interrupted. -/
structure Serial (d₀ : D) (batch : Nat → List R) (s : State K V D S R W) : Prop where
  performs : Performs sys d₀ (s.order.flatMap Prod.snd)
  store : after sys d₀ (s.order.flatMap Prod.snd) = s.store
  begun : ∀ p ∈ s.order, p.2.map Done.request <+: batch p.1
  whole : ∀ p ∈ s.order, s.stage p.1 = .committed → p.2.map Done.request = batch p.1
  nodup : (s.order.map Prod.fst).Nodup
  closed : ∀ i, i ∈ s.order.map Prod.fst ↔ (s.stage i).IsClosed

structure Consistent (d₀ : D) (batch : Nat → List R) (s : State K V D S R W) : Prop
    extends Serial sys d₀ batch s where
  running : ∀ i t, s.stage i = .running t → Running sys batch s i t

section
variable {sys} {d₀ : D} {batch : Nat → List R} {s s' : State K V D S R W} {i : Nat}
  {t : Tx V S R W}

theorem start_consistent (d₀ : D) (batch : Nat → List R) :
    Consistent sys d₀ batch (State.start d₀ batch : State K V D S R W) where
  running i t h := by
    cases h
    exact ⟨rfl, trivial, fun _ hx => (nomatch hx), fun _ hv => (nomatch hv)⟩
  performs := trivial
  store := rfl
  begun _ hp := (nomatch hp)
  whole _ hp := (nomatch hp)
  nodup := List.nodup_nil
  closed i := ⟨fun h => (nomatch h), False.elim⟩

theorem release_of_ne {owner : K → Option Nat} {k : K} {j : Nat} (h : owner k = some j)
    (hj : j ≠ i) : release i owner k = some j := by
  unfold release
  rw [h, if_neg (by simpa using hj)]

/-- A running transaction does not notice what happens to the keys of others. -/
theorem Running.kept (h : Running sys batch s i t)
    (howner : ∀ k, s.owner k = some i → s'.owner k = some i)
    (hread : ∀ k, s.owner k = some i → sys.read s.store k = sys.read s'.store k) :
    Running sys batch s' i t := by
  obtain ⟨hperforms, hafter⟩ := performs_congr hread h.locked h.performs
  refine ⟨h.whole, hperforms, fun x hx => howner _ (h.locked x hx), fun v hv => ?_⟩
  obtain ⟨r, todo, htodo, hown, hval⟩ := h.held v hv
  exact ⟨r, todo, htodo, howner _ hown, hval.trans (hafter _ hown)⟩

/-- Transaction `i` moves on, nothing is committed, and the others keep their locks. -/
theorem Consistent.moved (h : Consistent sys d₀ batch s) (s' : State K V D S R W)
    (hstore : s'.store = s.store) (horder : s'.order = s.order)
    (howner : ∀ k j, j ≠ i → s.owner k = some j → s'.owner k = some j)
    (hstage : ∀ j, j ≠ i → s'.stage j = s.stage j) (hwas : ∃ t, s.stage i = .running t)
    (hnow : ¬(s'.stage i).IsClosed)
    (hrunning : ∀ t, s'.stage i = .running t → Running sys batch s' i t) :
    Consistent sys d₀ batch s' where
  running j t hj := by
    by_cases he : j = i
    · rw [he] at hj ⊢
      exact hrunning t hj
    · rw [hstage j he] at hj
      exact (h.running j t hj).kept (fun k hk => howner k j he hk) fun k _ => by rw [hstore]
  performs := by rw [horder]; exact h.performs
  store := by rw [horder, hstore]; exact h.store
  begun := by rw [horder]; exact h.begun
  whole := by
    intro p hp hc
    rw [horder] at hp
    have hne : p.1 ≠ i := by
      intro he
      rw [he] at hc
      rw [hc] at hnow
      exact hnow trivial
    rw [hstage p.1 hne] at hc
    exact h.whole p hp hc
  nodup := by rw [horder]; exact h.nodup
  closed j := by
    rw [horder, h.closed j]
    by_cases he : j = i
    · rw [he]
      obtain ⟨t, ht⟩ := hwas
      constructor
      · intro hc
        rw [ht] at hc
        exact hc.elim
      · exact fun hc => absurd hc hnow
    · rw [hstage j he]

theorem Consistent.abandon (h : Consistent sys d₀ batch s) (hi : s.stage i = .running t) :
    Consistent sys d₀ batch (s.abandon i) := by
  have hnow : (s.abandon i).stage i = .rolledBack := Function.update_self i _ s.stage
  apply h.moved (s.abandon i) rfl rfl
  · exact fun k j hj hk => release_of_ne hk hj
  · exact fun j hj => Function.update_of_ne hj _ s.stage
  · exact ⟨t, hi⟩
  · rw [hnow]
    exact fun hc => (nomatch hc)
  · intro t' ht'
    rw [hnow] at ht'
    cases ht'

/-- Transaction `i` commits what it has done: nobody else has locked these keys. -/
theorem Consistent.close (h : Consistent sys d₀ batch s) {todo : List R} {done : List (Done S R W)}
    {v : Option V} (hi : s.stage i = .running ⟨todo, done, v⟩) {g : Stage V S R W}
    (hclosed : g.IsClosed) (hall : g = .committed → todo = []) :
    Consistent sys d₀ batch (s.close sys i done g) := by
  have hrun := h.running i _ hi
  have hself : (s.close sys i done g).stage i = g := by
    show Function.update s.stage i g i = g
    rw [Function.update_self]
  have hother : ∀ j, j ≠ i → (s.close sys i done g).stage j = s.stage j := by
    intro j hj
    show Function.update s.stage i g j = s.stage j
    rw [Function.update_of_ne hj]
  have hflat : (s.order ++ [(i, done)]).flatMap Prod.snd = s.order.flatMap Prod.snd ++ done := by
    simp
  have hnew : i ∉ s.order.map Prod.fst := by
    rw [h.closed i, hi]
    exact False.elim
  refine ⟨⟨?_, ?_, ?_, ?_, ?_, ?_⟩, ?_⟩
  · show Performs sys d₀ ((s.order ++ [(i, done)]).flatMap Prod.snd)
    rw [hflat, performs_append, h.store]
    exact ⟨h.performs, hrun.performs⟩
  · show after sys d₀ ((s.order ++ [(i, done)]).flatMap Prod.snd) = after sys s.store done
    rw [hflat, after_append, h.store]
  · intro p hp
    rcases List.mem_append.mp hp with hp | hp
    · exact h.begun p hp
    · rw [List.mem_singleton.mp hp]
      exact ⟨todo, hrun.whole⟩
  · intro p hp hc
    rcases List.mem_append.mp hp with hp | hp
    · have hne : p.1 ≠ i := fun he => hnew (he ▸ List.mem_map_of_mem hp)
      rw [hother p.1 hne] at hc
      exact h.whole p hp hc
    · rw [List.mem_singleton.mp hp] at hc ⊢
      have hwhole := hrun.whole
      rw [hall (hself.symm.trans hc), List.append_nil] at hwhole
      exact hwhole
  · show ((s.order ++ [(i, done)]).map Prod.fst).Nodup
    rw [List.map_append, List.map_singleton, List.nodup_append]
    refine ⟨h.nodup, List.nodup_singleton i, fun a ha b hb he => hnew ?_⟩
    have hb' : b = i := List.mem_singleton.mp hb
    rw [← hb', ← he]
    exact ha
  · intro j
    show j ∈ (s.order ++ [(i, done)]).map Prod.fst ↔ _
    rw [List.map_append, List.mem_append, h.closed j]
    by_cases he : j = i
    · rw [he, hself]
      exact ⟨fun _ => hclosed, fun _ => Or.inr (List.mem_singleton_self i)⟩
    · rw [hother j he]
      simp [he]
  · intro j t hj
    have hne : j ≠ i := by
      intro he
      rw [he, hself] at hj
      rw [hj] at hclosed
      exact hclosed
    rw [hother j hne] at hj
    refine (h.running j t hj).kept (fun k hk => release_of_ne hk hne) fun k hk => ?_
    -- the keys of what `i` has done are `i`'s, and `k` is `j`'s
    refine (performs_frame hrun.performs fun x hx he => hne ?_).symm
    have hown := hrun.locked x hx
    rw [he, hk] at hown
    exact Option.some.inj hown

theorem Consistent.commit (h : Consistent sys d₀ batch s) (i : Nat) :
    Consistent sys d₀ batch (s.commit sys i) := by
  unfold State.commit
  split
  · rename_i done hi
    exact h.close hi trivial fun _ => rfl
  · exact h

theorem Consistent.interrupt (h : Consistent sys d₀ batch s) (i : Nat) :
    Consistent sys d₀ batch (s.interrupt sys i) := by
  unfold State.interrupt
  split
  · rename_i todo done v hi
    exact h.close hi trivial fun hc => (nomatch hc)
  · exact h

theorem Consistent.rollback (h : Consistent sys d₀ batch s) (i : Nat) :
    Consistent sys d₀ batch (s.rollback i) := by
  unfold State.rollback
  split
  · rename_i t hi
    exact h.abandon hi
  · exact h

theorem Consistent.save (h : Consistent sys d₀ batch s) (i : Nat) (stamp : S) :
    Consistent sys d₀ batch (s.save sys i stamp) := by
  unfold State.save
  split
  · rename_i r todo done v hi
    cases hexec : sys.exec stamp r v (sys.read (after sys s.store done) (sys.key r)) with
    | none => exact h.abandon hi
    | some w =>
      have hrun := h.running i _ hi
      obtain ⟨r', todo', htodo, hown, hval⟩ := hrun.held v rfl
      cases htodo
      refine h.moved _ rfl rfl (fun k j _ hk => hk) (fun j hj => Function.update_of_ne hj _ _)
        ⟨_, hi⟩ (fun hc => ?_) fun t' ht' => ?_
      · change (Function.update s.stage i _ i).IsClosed at hc
        rw [Function.update_self] at hc
        exact hc
      · change Function.update s.stage i _ i = _ at ht'
        rw [Function.update_self] at ht'
        cases ht'
        refine ⟨?_, ?_, fun x hx => ?_, fun v hv => (nomatch hv)⟩
        · rw [List.map_append, List.append_assoc]
          exact hrun.whole
        · rw [hval] at hexec
          exact performs_append.mpr ⟨hrun.performs, hexec, trivial⟩
        · rcases List.mem_append.mp hx with hx | hx
          · exact hrun.locked x hx
          · rw [List.mem_singleton.mp hx]
            exact hown
  · exact h

variable [DecidableEq K]

theorem Consistent.load (h : Consistent sys d₀ batch s) (i : Nat) :
    Consistent sys d₀ batch (s.load sys i) := by
  unfold State.load
  split
  · rename_i r todo done hi
    split
    · rename_i hfree
      dsimp only
      split
      · -- the row is found, and `i` goes on with its lock
        have hrun := h.running i _ hi
        refine h.moved _ rfl rfl (fun k j hj hk => ?_) (fun j hj => Function.update_of_ne hj _ _)
          ⟨_, hi⟩ (fun hc => ?_) fun t' ht' => ?_
        · -- the key was free, or `i`'s own
          have hne : k ≠ sys.key r := by
            intro he
            rw [he] at hk
            rcases hfree with hfree | hfree
            · rw [hfree] at hk
              cases hk
            · rw [hfree] at hk
              exact hj (Option.some.inj hk).symm
          show Function.update s.owner (sys.key r) (some i) k = some j
          rw [Function.update_of_ne hne]
          exact hk
        · change (Function.update s.stage i _ i).IsClosed at hc
          rw [Function.update_self] at hc
          exact hc
        · change Function.update s.stage i _ i = _ at ht'
          rw [Function.update_self] at ht'
          cases ht'
          have howner : ∀ k, s.owner k = some i →
              Function.update s.owner (sys.key r) (some i) k = some i := by
            intro k hk
            by_cases he : k = sys.key r
            · rw [he, Function.update_self]
            · rw [Function.update_of_ne he]
              exact hk
          refine ⟨hrun.whole, hrun.performs, fun x hx => howner _ (hrun.locked x hx), fun v hv => ?_⟩
          exact ⟨r, todo, rfl, Function.update_self _ _ _, (Option.some.inj hv).symm⟩
      · exact h.abandon hi
    · exact h
  · exact h

/-- Every schedule: the store is what the committed transactions make of the first
    one, in the order of their commits. -/
theorem consistent_run (h : Consistent sys d₀ batch s) (schedule : List (Action S)) :
    Consistent sys d₀ batch (s.run sys schedule) := by
  induction schedule generalizing s with
  | nil => exact h
  | cons a schedule ih =>
    apply ih
    cases a with
    | load i => exact h.load i
    | save i stamp => exact h.save i stamp
    | commit i => exact h.commit i
    | interrupt i => exact h.interrupt i
    | rollback i => exact h.rollback i

/-! ## Later states -/

theorem order_step (a : Action S) : s.order <+: (s.step sys a).order := by
  cases a with
  | load i =>
    show s.order <+: (s.load sys i).order
    unfold State.load
    split
    · split
      · dsimp only
        split <;> exact List.prefix_rfl
      · exact List.prefix_rfl
    · exact List.prefix_rfl
  | save i stamp =>
    show s.order <+: (s.save sys i stamp).order
    unfold State.save
    split
    · split <;> exact List.prefix_rfl
    · exact List.prefix_rfl
  | commit i =>
    show s.order <+: (s.commit sys i).order
    unfold State.commit
    split
    · exact List.prefix_append _ _
    · exact List.prefix_rfl
  | interrupt i =>
    show s.order <+: (s.interrupt sys i).order
    unfold State.interrupt
    split
    · exact List.prefix_append _ _
    · exact List.prefix_rfl
  | rollback i =>
    show s.order <+: (s.rollback i).order
    unfold State.rollback
    split <;> exact List.prefix_rfl

/-- A later store is an earlier one after the transactions committed since. -/
theorem Consistent.later (h : Consistent sys d₀ batch s) (schedule : List (Action S)) :
    ∃ xs, Performs sys s.store xs ∧ after sys s.store xs = (s.run sys schedule).store := by
  have hprefix : ∀ schedule : List (Action S), s.order <+: (s.run sys schedule).order := by
    intro schedule
    induction schedule using List.reverseRecOn with
    | nil => exact List.prefix_rfl
    | append_singleton schedule a ih =>
      unfold State.run at ih ⊢
      rw [List.foldl_append]
      exact ih.trans (order_step a)
  obtain ⟨more, hmore⟩ := hprefix schedule
  have hlater := consistent_run h schedule
  have hperforms := hlater.performs
  have hstore := hlater.store
  rw [← hmore, List.flatMap_append] at hperforms hstore
  rw [performs_append, h.store] at hperforms
  rw [after_append, h.store] at hstore
  exact ⟨_, hperforms.2, hstore⟩

end

end Locking
