import DddService.Atomicity

/- What reaches the broker. A message is pushed under a transaction, waits in the
   buffer, and is published after a call that succeeds, which may be a later one.

   Sent messages should belong to committed transactions (`NoPhantom`) and the
   messages of committed transactions should be sent or waiting (`NoLoss`). Both
   are invariants of the calls under one condition each, and the conditions name
   the two exits of `connectDbSession` that do not care for the buffer: the commit
   in `__aexit__`, and `clean_messages` in the `except` clauses. -/
namespace DddService
open Hoare Relation

namespace World

/-- A transaction the session has committed. -/
def IsCommitted (w : World) (tx : Nat) : Prop := (tx, SessionAction.committed) ∈ w.journal

/-- Every data item at the broker was pushed under a committed transaction. -/
def NoPhantom (w : World) : Prop :=
  ∀ rk m, (rk, m) ∈ w.sent → ∀ x ∈ m.data.items, w.IsCommitted x.tx

/-- The item is at the broker or in the buffer. -/
def Kept (w : World) (x : Pushed) : Prop :=
  (∃ rk m, (rk, m) ∈ w.sent ∧ x ∈ m.data.items) ∨ x ∈ w.messages.items

/-- Every data item pushed under a committed transaction is sent or pending. -/
def NoLoss (w : World) : Prop := ∀ x ∈ w.pushed, w.IsCommitted x.tx → w.Kept x

instance (w : World) (tx : Nat) : Decidable (w.IsCommitted tx) :=
  inferInstanceAs (Decidable (_ ∈ w.journal))

instance : DecidablePred World.NoPhantom := fun w =>
  decidable_of_iff (∀ p ∈ w.sent, ∀ x ∈ p.2.data.items, w.IsCommitted x.tx)
    ⟨fun h rk m hm => h (rk, m) hm, fun h p hp => h p.1 p.2 hp⟩

instance (w : World) (x : Pushed) : Decidable (w.Kept x) :=
  decidable_of_iff ((∃ p ∈ w.sent, x ∈ p.2.data.items) ∨ x ∈ w.messages.items)
    (or_congr ⟨fun ⟨p, hp, hx⟩ => ⟨p.1, p.2, hp, hx⟩, fun ⟨rk, m, hm, hx⟩ => ⟨(rk, m), hm, hx⟩⟩
      Iff.rfl)

instance : DecidablePred World.NoLoss := fun w =>
  inferInstanceAs (Decidable (∀ x ∈ w.pushed, w.IsCommitted x.tx → w.Kept x))

instance : DecidablePred World.CommitGoesThrough := fun w =>
  decidable_of_iff (∃ s ∈ w.provider.session, s.active = true ∧ w.nextFault = none ∧
    (s.pending ≠ [] → w.advance.nextFault = none)) Iff.rfl

end World

/-- A method, where its outermost `__aexit__` starts. -/
def Method.exit (env : Env) (m : Method) (w : World) : World :=
  stateOf (ControllerBase.guarded env m.traceId m.func w.entered)

/-- The final commit goes through, or nothing in the buffer waits for it. -/
def Method.CommitsWhatItPushed (env : Env) (m : Method) (w : World) : Prop :=
  (m.exit env w).CommitGoesThrough ∨
    ∀ x ∈ (m.exit env w).messages.items, x.tx ≠ (m.exit env w).tx

/-- If the body raises an `Exception`, the buffer it is about to clean holds no
    item of a committed transaction. -/
def Method.CleansNothingCommitted (env : Env) (m : Method) (w : World) : Prop :=
  ∀ e w₁, ControllerBase.traced env m.traceId m.func w.entered = .error e w₁ →
    e.isException = true → ∀ x ∈ w₁.messages.items, ¬w₁.IsCommitted x.tx

def Call.CommitsWhatItPushed (env : Env) (c : Call) (w : World) : Prop :=
  ∀ m, c.method env = some m → m.CommitsWhatItPushed env w

def Call.CleansNothingCommitted (env : Env) (c : Call) (w : World) : Prop :=
  ∀ m, c.method env = some m → m.CleansNothingCommitted env w

section
variable (env : Env)

instance (m : Method) (w : World) : Decidable (m.CommitsWhatItPushed env w) :=
  inferInstanceAs (Decidable (_ ∨ ∀ x ∈ (m.exit env w).messages.items, _))

instance (m : Method) (w : World) : Decidable (m.CleansNothingCommitted env w) :=
  match h : ControllerBase.traced env m.traceId m.func w.entered with
  | .ok a w₁ => isTrue fun e w₂ h' => by rw [h] at h'; cases h'
  | .error e w₁ => decidable_of_iff
      (e.isException = true → ∀ x ∈ w₁.messages.items, ¬w₁.IsCommitted x.tx)
      ⟨fun hc e' w₂ h' => by rw [h] at h'; cases h'; exact hc, fun hc => hc e w₁ h⟩

instance {P : Method → Prop} [DecidablePred P] :
    (o : Option Method) → Decidable (∀ m, o = some m → P m)
  | none => isTrue fun m hm => (nomatch hm)
  | some m => decidable_of_iff (P m) (by simp)

instance (c : Call) (w : World) : Decidable (c.CommitsWhatItPushed env w) :=
  inferInstanceAs (Decidable (∀ m, c.method env = some m → m.CommitsWhatItPushed env w))

instance (c : Call) (w : World) : Decidable (c.CleansNothingCommitted env w) :=
  inferInstanceAs (Decidable (∀ m, c.method env = some m → m.CleansNothingCommitted env w))

end

/-! ## What steps do to the journal and the buffer -/

/-- The journal after a step: at most one entry more, and no commit. -/
theorem Work.isCommitted {w w' : World} (h : Work w w') (tx : Nat) :
    w'.IsCommitted tx ↔ w.IsCommitted tx := by
  cases h with
  | quiet h => rw [World.IsCommitted, World.IsCommitted, h.journal]
  | enqueue hs p =>
    change (tx, SessionAction.committed) ∈ w.journal ++ [(w.tx, .write p)] ↔ _
    simp [World.IsCommitted]
  | _ => rfl

theorem Undo.isCommitted {e : Exc} {w w' : World} (h : Undo e w w') (tx : Nat) :
    w'.IsCommitted tx ↔ w.IsCommitted tx := by
  cases h with
  | quiet h => rw [World.IsCommitted, World.IsCommitted, h.journal]
  | rollback he hs =>
    change (tx, SessionAction.committed) ∈ w.journal ++ [(w.tx, .rolledBack)] ↔ _
    simp [World.IsCommitted]
  | _ => rfl

theorem World.afterCommit_isCommitted (w : World) (s : AsyncSession) (tx : Nat) :
    (w.afterCommit s).IsCommitted tx ↔ w.IsCommitted tx ∨ tx = w.tx := by
  change (tx, SessionAction.committed) ∈ w.journal ++ _ ↔ _
  simp [World.IsCommitted]

theorem World.cleaned_isCommitted (w : World) (tx : Nat) :
    w.cleaned.IsCommitted tx ↔ w.IsCommitted tx := by
  change (tx, SessionAction.committed) ∈ w.journal ++ [(w.tx, .rolledBack)] ↔ _
  simp [World.IsCommitted]

theorem World.entered_isCommitted (w : World) (tx : Nat) :
    w.entered.IsCommitted tx ↔ w.IsCommitted tx := by
  change (tx, SessionAction.committed) ∈ w.journal ++ [(w.tx + 1, .opened)] ↔ _
  simp [World.IsCommitted]

theorem Abandoned.isCommitted {w w' : World} (h : Abandoned w w') (tx : Nat) :
    w'.IsCommitted tx ↔ w.IsCommitted tx := by
  obtain ⟨js, hj, hn⟩ := h.journal
  simp only [World.IsCommitted, hj, List.mem_append]
  constructor
  · intro hm
    rcases hm with hm | hm
    · exact hm
    · exact absurd rfl (hn _ hm)
  · exact Or.inl

theorem RabbitMqPublisher.Published.isCommitted {w w' : World}
    (h : RabbitMqPublisher.Published w w') (tx : Nat) : w'.IsCommitted tx ↔ w.IsCommitted tx := by
  rw [World.IsCommitted, World.IsCommitted, h.journal]

/-- What publishing leaves pending was pending. -/
theorem RabbitMqPublisher.Published.items {w w' : World} (h : RabbitMqPublisher.Published w w')
    {x : Pushed} (hx : x ∈ w'.messages.items) : x ∈ w.messages.items := by
  obtain ⟨rk, k, m, hm, hx⟩ := Messages.mem_items.mp hx
  exact Messages.mem_items.mpr ⟨rk, k, m, h.kept rk k m hm, hx⟩

/-- Publishing keeps every item. -/
theorem RabbitMqPublisher.Published.keeps {w w' : World} (h : RabbitMqPublisher.Published w w')
    {x : Pushed} (hx : w.Kept x) : w'.Kept x := by
  rcases hx with ⟨rk, m, hm, hx⟩ | hx
  · exact Or.inl ⟨rk, m, h.grows _ hm, hx⟩
  · obtain ⟨rk, k, m, hm, hx⟩ := Messages.mem_items.mp hx
    rcases h.done rk k m hm with hm | hm
    · exact Or.inr (Messages.mem_items.mpr ⟨rk, k, m, hm, hx⟩)
    · exact Or.inl ⟨rk, m, hm, hx⟩

/-! ## No phantom messages -/

/-- Inside a call: a pending item waits for this transaction, or for none. -/
structure PhantomFree (w : World) : Prop where
  sent : w.NoPhantom
  pending : ∀ x ∈ w.messages.items, w.IsCommitted x.tx ∨ x.tx = w.tx

theorem World.NoPhantom.of_same {w w' : World} (h : w.NoPhantom) (hs : w'.sent = w.sent)
    (hc : ∀ tx, w.IsCommitted tx → w'.IsCommitted tx) : w'.NoPhantom := by
  intro rk m hm x hx
  rw [hs] at hm
  exact hc _ (h rk m hm x hx)

theorem Work.phantomFree {w w' : World} (h : Work w w') (hi : PhantomFree w) : PhantomFree w' := by
  have hc := h.isCommitted
  cases h with
  | quiet hq =>
    refine ⟨hi.sent.of_same hq.sent fun tx => (hc tx).mpr, ?_⟩
    intro x hx
    rw [hq.messages] at hx
    rw [hc, hq.tx]
    exact hi.pending x hx
  | enqueue hs p =>
    refine ⟨hi.sent.of_same rfl fun tx => (hc tx).mpr, fun x hx => ?_⟩
    rw [hc]
    exact hi.pending x hx
  | push hp htag =>
    refine ⟨hi.sent, fun x hx => ?_⟩
    rcases (Messages.mem_items_push hp x).mp hx with hx | hx
    · exact hi.pending x hx
    · exact Or.inr (htag x hx)
  | count n => exact ⟨hi.sent, hi.pending⟩
  | flush hs ha => exact ⟨hi.sent, hi.pending⟩

theorem Undo.phantomFree {e : Exc} (he : e.isException = false) {w w' : World} (h : Undo e w w')
    (hi : PhantomFree w) : PhantomFree w' := by
  have hc := h.isCommitted
  cases h with
  | quiet hq =>
    refine ⟨hi.sent.of_same hq.sent fun tx => (hc tx).mpr, ?_⟩
    intro x hx
    rw [hq.messages] at hx
    rw [hc, hq.tx]
    exact hi.pending x hx
  | count n => exact ⟨hi.sent, hi.pending⟩
  | deactivate hs => exact ⟨hi.sent, hi.pending⟩
  | rollback he' hs => rw [he] at he'; cases he'

theorem Work.noPhantom {w w' : World} (h : Work w w') (hi : w.NoPhantom) : w'.NoPhantom := by
  have hc := h.isCommitted
  cases h with
  | quiet hq => exact hi.of_same hq.sent fun tx => (hc tx).mpr
  | enqueue hs p => exact hi.of_same rfl fun tx => (hc tx).mpr
  | _ => exact hi

theorem Undo.noPhantom {e : Exc} {w w' : World} (h : Undo e w w') (hi : w.NoPhantom) :
    w'.NoPhantom := by
  have hc := h.isCommitted
  cases h with
  | quiet hq => exact hi.of_same hq.sent fun tx => (hc tx).mpr
  | rollback he hs => exact hi.of_same rfl fun tx => (hc tx).mpr
  | _ => exact hi

/-- Between calls: nothing pending waits for a transaction. -/
structure Settled (w : World) : Prop where
  count : w.provider.sessionCount = 0
  sent : w.NoPhantom
  pending : ∀ x ∈ w.messages.items, w.IsCommitted x.tx

section
variable (env : Env) {m : Method} {w : World}

theorem Settled.entered (h : Settled w) : PhantomFree w.entered := by
  refine ⟨h.sent.of_same rfl fun tx => (w.entered_isCommitted tx).mpr, fun x hx => Or.inl ?_⟩
  rw [World.entered_isCommitted]
  exact h.pending x hx

/-- Where the exit starts, the buffer is as the body left it or empty. -/
theorem Method.exit_phantomFree (hb : Body m.func) (h : Settled w) :
    PhantomFree (m.exit env w) := by
  unfold Method.exit
  rcases guarded_cases env m.traceId hb w with
    ⟨a, w₁, _, hg, hw, _⟩ | ⟨e, w₁, _, _, hg, hu, _⟩ | ⟨e, w₁, _, he, hg, hu, _⟩ <;> rw [hg]
  · exact hw.preserves (fun _ _ hs => hs.phantomFree) h.entered
  · have hsent : w₁.NoPhantom :=
      hu.preserves (fun _ _ hs => hs.noPhantom) (fun _ _ hs => hs.noPhantom) h.entered.sent
    exact ⟨hsent.of_same rfl fun tx => (w₁.cleaned_isCommitted tx).mpr, fun x hx => by cases hx⟩
  · exact hu.preserves (fun _ _ hs => hs.phantomFree) (fun _ _ hs => hs.phantomFree he) h.entered

theorem PhantomFree.commit (h : PhantomFree w) (s : AsyncSession) : Settled (w.afterCommit s) where
  count := rfl
  sent := h.sent.of_same rfl fun tx ht => (w.afterCommit_isCommitted s tx).mpr (Or.inl ht)
  pending := fun x hx => (w.afterCommit_isCommitted s x.tx).mpr (h.pending x hx)

theorem Settled.publish {w' : World} (h : Settled w) (hp : RabbitMqPublisher.Published w w') :
    Settled w' where
  count := by rw [hp.provider]; exact h.count
  sent := by
    intro rk m hm x hx
    rw [hp.isCommitted]
    rcases hp.sent rk m hm with hm | ⟨k, hm⟩
    · exact h.sent rk m hm x hx
    · exact h.pending x (Messages.mem_items.mpr ⟨rk, k, m, hm, hx⟩)
  pending := fun x hx => (hp.isCommitted x.tx).mpr (h.pending x (hp.items hx))

/-- One call keeps the law, if it commits what it pushed. -/
theorem Method.settled (hb : Body m.func) (h : Settled w) (hc : m.CommitsWhatItPushed env w) :
    Settled (stateOf (m.run env w)) := by
  have hexit := Method.exit_phantomFree env hb h
  unfold Method.CommitsWhatItPushed at hc
  unfold Method.exit at hc hexit
  unfold Method.run
  rcases connectDbSession_cases env m.traceId hb h.count with
    ⟨a, w₁, s, hg, _, hs, hrun⟩ | ⟨e, w₁, s, hg, _, hs, hrun⟩ | ⟨hn, e, w', hrun, ha⟩
  · rw [hg] at hexit
    cases hr : ControllerBase.connectDbSession env m.traceId m.func w with
    | ok a' w' => rw [hr] at hrun; exact (hexit.commit s).publish hrun.2
    | error e w' => rw [hr] at hrun; exact (hexit.commit s).publish hrun.2
  · rw [hg] at hexit
    rw [hrun]
    exact hexit.commit s
  · rw [hrun]
    refine ⟨ha.count, hexit.sent.of_same ha.sent fun tx => (ha.isCommitted tx).mpr, ?_⟩
    intro x hx
    change x ∈ w'.messages.items at hx
    rw [ha.messages] at hx
    rw [show (stateOf (.error e w' : EStateM.Result Exc World m.Result)) = w' from rfl,
      ha.isCommitted]
    exact (hexit.pending x hx).resolve_right ((hc.resolve_left hn) x hx)

/-! ## No loss -/

/-- Inside a call: what this transaction pushed is pending, it is not committed,
    and no later transaction has pushed. -/
structure LossFree (w : World) : Prop where
  kept : w.NoLoss
  pushed : ∀ x ∈ w.pushed, x.tx ≤ w.tx
  pending : ∀ x ∈ w.pushed, x.tx = w.tx → x ∈ w.messages.items
  committed : ∀ tx, w.IsCommitted tx → tx < w.tx

theorem LossFree.of_same {w w' : World} (h : LossFree w) (hm : w'.messages = w.messages)
    (hs : w'.sent = w.sent) (hp : w'.pushed = w.pushed) (ht : w'.tx = w.tx)
    (hc : ∀ tx, w'.IsCommitted tx ↔ w.IsCommitted tx) : LossFree w' := by
  obtain ⟨h1, h2, h3, h4⟩ := h
  refine ⟨?_, ?_, ?_, ?_⟩
  · intro x hx hcx
    rw [hp] at hx
    rw [hc] at hcx
    rw [World.Kept, hs, hm]
    exact h1 x hx hcx
  · rw [hp, ht]; exact h2
  · rw [hp, ht, hm]; exact h3
  · intro tx h; rw [ht]; exact h4 tx ((hc tx).mp h)

theorem Work.lossFree {w w' : World} (h : Work w w') (hi : LossFree w) : LossFree w' := by
  have hc := h.isCommitted
  cases h with
  | quiet hq => exact hi.of_same hq.messages hq.sent hq.pushed hq.tx hc
  | count n => exact hi.of_same rfl rfl rfl rfl hc
  | enqueue hs p => exact hi.of_same rfl rfl rfl rfl hc
  | flush hs ha => exact hi.of_same rfl rfl rfl rfl hc
  | push hp htag =>
    -- the new items belong to this transaction, which is not committed yet
    have hold := fun x hx => (Messages.mem_items_push hp x).mpr (Or.inl hx)
    have hnew := fun x hx => (Messages.mem_items_push hp x).mpr (Or.inr hx)
    refine ⟨?_, ?_, ?_, hi.committed⟩
    · intro x hx hcx
      rcases List.mem_append.mp hx with hx | hx
      · exact (hi.kept x hx hcx).imp id (hold x)
      · exact Or.inr (hnew x hx)
    · intro x hx
      rcases List.mem_append.mp hx with hx | hx
      · exact hi.pushed x hx
      · exact Nat.le_of_eq (htag x hx)
    · intro x hx hxt
      rcases List.mem_append.mp hx with hx | hx
      · exact hold x (hi.pending x hx hxt)
      · exact hnew x hx

theorem LossFree.rolledBack {w : World} (h : LossFree w) : LossFree w.rolledBack := by
  have hc : ∀ tx, w.rolledBack.IsCommitted tx ↔ w.IsCommitted tx := w.cleaned_isCommitted
  refine ⟨fun x hx hcx => h.kept x hx ((hc x.tx).mp hcx), ?_, ?_, ?_⟩
  · exact fun x hx => Nat.le_succ_of_le (h.pushed x hx)
  · intro x hx hxt
    have := h.pushed x hx
    change x.tx = w.tx + 1 at hxt
    omega
  · exact fun tx ht => Nat.lt_succ_of_lt (h.committed tx ((hc tx).mp ht))

theorem Undo.lossFree {e : Exc} {w w' : World} (h : Undo e w w') (hi : LossFree w) :
    LossFree w' := by
  have hc := h.isCommitted
  cases h with
  | quiet hq => exact hi.of_same hq.messages hq.sent hq.pushed hq.tx hc
  | count n => exact hi.of_same rfl rfl rfl rfl hc
  | deactivate hs => exact hi.of_same rfl rfl rfl rfl hc
  | rollback he hs => exact hi.rolledBack

/-- Between calls. -/
structure Conserved (w : World) : Prop where
  count : w.provider.sessionCount = 0
  kept : w.NoLoss
  pushed : ∀ x ∈ w.pushed, x.tx ≤ w.tx
  committed : ∀ tx, w.IsCommitted tx → tx ≤ w.tx

theorem Conserved.entered (h : Conserved w) : LossFree w.entered := by
  refine ⟨fun x hx hcx => h.kept x hx ((w.entered_isCommitted _).mp hcx), ?_, ?_, ?_⟩
  · exact fun x hx => Nat.le_succ_of_le (h.pushed x hx)
  · intro x hx hxt
    have := h.pushed x hx
    change x.tx = w.tx + 1 at hxt
    omega
  · exact fun tx ht => Nat.lt_succ_of_le (h.committed tx ((w.entered_isCommitted _).mp ht))

/-- Emptying the buffer loses nothing if no committed item was in it. -/
theorem LossFree.cleaned {w : World} (h : LossFree w)
    (hn : ∀ x ∈ w.messages.items, ¬w.IsCommitted x.tx) : LossFree w.cleaned := by
  have hr := h.rolledBack
  refine ⟨?_, hr.pushed, ?_, hr.committed⟩
  · intro x hx hcx
    rw [World.cleaned_isCommitted] at hcx
    rcases h.kept x hx hcx with hs | hp
    · exact Or.inl hs
    · exact absurd hcx (hn x hp)
  · intro x hx hxt
    have := h.pushed x hx
    change x.tx = w.tx + 1 at hxt
    omega

theorem Method.exit_lossFree (hb : Body m.func) (h : Conserved w)
    (hc : m.CleansNothingCommitted env w) : LossFree (m.exit env w) := by
  unfold Method.exit
  rcases guarded_cases env m.traceId hb w with
    ⟨a, w₁, _, hg, hw, _⟩ | ⟨e, w₁, ht, he, hg, hu, _⟩ | ⟨e, w₁, _, he, hg, hu, _⟩ <;> rw [hg]
  · exact hw.preserves (fun _ _ hs => hs.lossFree) h.entered
  · have hu' := hu.preserves (fun _ _ hs => hs.lossFree) (fun _ _ hs => hs.lossFree) h.entered
    exact hu'.cleaned (hc e w₁ ht he)
  · exact hu.preserves (fun _ _ hs => hs.lossFree) (fun _ _ hs => hs.lossFree) h.entered

theorem LossFree.commit (h : LossFree w) (s : AsyncSession) : Conserved (w.afterCommit s) where
  count := rfl
  kept := by
    intro x hx hcx
    rcases (w.afterCommit_isCommitted s x.tx).mp hcx with hcx | hcx
    · exact h.kept x hx hcx
    · exact Or.inr (h.pending x hx hcx)
  pushed := h.pushed
  committed := by
    intro tx ht
    rcases (w.afterCommit_isCommitted s tx).mp ht with ht | ht
    · exact Nat.le_of_lt (h.committed tx ht)
    · exact Nat.le_of_eq ht

theorem Conserved.publish {w' : World} (h : Conserved w) (hp : RabbitMqPublisher.Published w w') :
    Conserved w' where
  count := by rw [hp.provider]; exact h.count
  kept := by
    intro x hx hcx
    rw [hp.pushed] at hx
    exact hp.keeps (h.kept x hx ((hp.isCommitted _).mp hcx))
  pushed := by rw [hp.pushed, hp.tx]; exact h.pushed
  committed := by intro tx ht; rw [hp.tx]; exact h.committed tx ((hp.isCommitted tx).mp ht)

/-- One call keeps the law, if it cleans nothing committed. -/
theorem Method.conserved (hb : Body m.func) (h : Conserved w)
    (hc : m.CleansNothingCommitted env w) : Conserved (stateOf (m.run env w)) := by
  have hexit := Method.exit_lossFree env hb h hc
  unfold Method.exit at hexit
  unfold Method.run
  rcases connectDbSession_cases env m.traceId hb h.count with
    ⟨a, w₁, s, hg, _, hs, hrun⟩ | ⟨e, w₁, s, hg, _, hs, hrun⟩ | ⟨_, e, w', hrun, ha⟩
  · rw [hg] at hexit
    cases hr : ControllerBase.connectDbSession env m.traceId m.func w with
    | ok a' w' => rw [hr] at hrun; exact (hexit.commit s).publish hrun.2
    | error e w' => rw [hr] at hrun; exact (hexit.commit s).publish hrun.2
  · rw [hg] at hexit
    rw [hrun]
    exact hexit.commit s
  · rw [hrun]
    refine ⟨ha.count, ?_, ?_, ?_⟩
    -- nothing was committed, so what holds is what held where the exit started
    · intro x hx hcx
      change x ∈ w'.pushed at hx
      rw [ha.pushed] at hx
      have hk := hexit.kept x hx ((ha.isCommitted _).mp hcx)
      change w'.Kept x
      rw [World.Kept, ha.sent, ha.messages]
      exact hk
    · intro x hx
      change x ∈ w'.pushed at hx
      rw [ha.pushed] at hx
      exact Nat.le_trans (hexit.pushed x hx) ha.tx
    · intro tx ht
      exact Nat.le_trans (Nat.le_of_lt (hexit.committed tx ((ha.isCommitted tx).mp ht))) ha.tx

end

/-! ## Runs -/

/-- A service that starts on the database `db`. -/
def World.start (db : Database) (faults : List (Option Exc)) : World :=
  { World.init faults with db := db }

/-- Every run whose calls commit what they pushed sends no phantom message. -/
theorem no_phantom_messages (env : Env) (db : Database) (faults : List (Option Exc))
    (calls : List Call) (h : ∀ p c, p ++ [c] <+: calls →
      c.CommitsWhatItPushed env (runCalls env (World.start db faults) p)) :
    ∀ p, p <+: calls → (runCalls env (World.start db faults) p).NoPhantom := by
  have hstart : Settled (World.start db faults) :=
    ⟨rfl, fun _ _ h => (nomatch h), fun _ h => (nomatch h)⟩
  intro p hp
  refine (runCalls_induction (I := Settled) hstart p ?_).sent
  intro q c hq hi
  have hc := h q c (hq.trans hp)
  cases hm : c.method env with
  | some m =>
    rw [Call.run_method hm]
    exact Method.settled env (Body.method env hm) hi (hc m hm)
  | none =>
    cases c with
    | newContext t =>
      obtain ⟨_, _, _, hrun⟩ := Call.newContext_run env t (runCalls env (World.start db faults) q)
      rw [hrun]
      exact ⟨rfl, hi.sent, fun x hx => by cases hx⟩
    | _ => cases hm

/-- The commit of the voiding fails, and the next call sends its message. -/
theorem phantom_message_sent :
    ¬(runCalls .plain (World.start .empty (failAt 10 (.sqlAlchemyError "could not commit")))
      [.createOne, .voidOne "a", .createOne]).NoPhantom := by
  decide +kernel

/-- A voiding whose message is sent, and a creation whose commit fails after it. -/
theorem no_phantom_messages_after_failure :
    let calls : List Call := [.createOne, .voidOne "a", .createOne]
    let w := runCalls .plain (World.start .empty (failAt 20 (.sqlAlchemyError "could not commit")))
      calls
    w.NoPhantom ∧ w.sent.length = 1 ∧ (w.db.yourAggregate "ax").isNone := by
  intro calls w
  refine ⟨no_phantom_messages .plain .empty _ calls (forall_steps ?_) calls List.prefix_rfl, ?_⟩
  · decide +kernel
  · decide +kernel

/-- Every run in one context whose calls clean nothing committed keeps every
    message of a committed transaction. -/
theorem no_lost_messages (env : Env) (db : Database) (faults : List (Option Exc))
    (calls : List Call) (hone : ∀ c ∈ calls, (c.method env).isSome = true)
    (h : ∀ p c, p ++ [c] <+: calls →
      c.CleansNothingCommitted env (runCalls env (World.start db faults) p)) :
    ∀ p, p <+: calls → (runCalls env (World.start db faults) p).NoLoss := by
  have hstart : Conserved (World.start db faults) :=
    ⟨rfl, fun _ h => (nomatch h), fun _ h => (nomatch h), fun _ h => (nomatch h)⟩
  intro p hp
  refine (runCalls_induction (I := Conserved) hstart p ?_).kept
  intro q c hq hi
  have hc := h q c (hq.trans hp)
  have hmem : c ∈ calls := (hq.trans hp).subset (by simp)
  obtain ⟨m, hm⟩ := Option.isSome_iff_exists.mp (hone c hmem)
  rw [Call.run_method hm]
  exact Method.conserved env (Body.method env hm) hi (hc m hm)

/-- The broker is down after the voiding commits, and the next call, which fails,
    empties the buffer. -/
theorem committed_message_lost :
    ¬(runCalls .plain (World.start .empty (failAt 11 (.exception "AMQPConnectionError")))
      [.createOne, .voidOne "a", .voidOne "a"]).NoLoss := by
  decide +kernel

/-- A voiding that commits while the broker is down, and a creation that sends its message. -/
theorem no_lost_messages_after_failure :
    let calls : List Call := [.createOne, .voidOne "a", .createOne]
    let w := runCalls .plain (World.start .empty (failAt 11 (.exception "AMQPConnectionError")))
    (w calls).NoLoss ∧ (w [.createOne, .voidOne "a"]).messages.items.length = 1 ∧
      (w calls).sent.length = 1 := by
  intro calls w
  refine ⟨no_lost_messages .plain .empty _ calls (by decide) (forall_steps ?_) calls
    List.prefix_rfl, ?_⟩
  · decide +kernel
  · decide +kernel

end DddService
