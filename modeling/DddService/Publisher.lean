import DddService.World

/- `RabbitMqPublisher` over the broker: pushing to the buffer, dropping it, and
   publishing what is pending. `publishMessages` works through a copy of the
   buffer and takes each message out of the live one once it is sent.

   `Published` says what publishing does, however far it gets: only what was
   pending is sent, nothing new is pending, and what was pending is still
   pending or sent. -/
namespace DddService
open Hoare

namespace RabbitMqPublisher

def cleanMessages : M Unit := modify fun w => { w with messages := .empty }

/-- `push_message` of a message that the caller has just made, with its list. -/
def pushMessage (routingKey : String) (message : QueueMessage Pushed) : M Unit := fun w =>
  match Messages.pushMessage routingKey message w.messages with
  | .ok _ ms => .ok () { w with messages := ms, pushed := w.pushed ++ message.data.items }
  | .error e ms => .error e { w with messages := ms }

/-- `MessageQueueConnection.__enter__`: every `Exception` becomes an
    `AMQPConnectorException`. -/
def openConnection : M Unit :=
  tryCatch awaitPoint (fun e =>
    throw (if e.isException then .exception "AMQPConnectorException" else e))

/-- `MessageQueueConnection.__exit__` -/
def closeConnection : M Unit := awaitPoint

/-- `channel.basic_publish` -/
def basicPublish (routingKey : String) (message : QueueMessage Pushed) : M Unit := do
  awaitPoint
  modify fun w => { w with sent := w.sent ++ [(routingKey, message)] }

/-- The body of the inner loop: the payload, the channel check and the publish
    may each raise. -/
def publishOne (routingKey key : String) (message : QueueMessage Pushed) : M Unit := do
  awaitPoint
  basicPublish routingKey message
  modify fun w => { w with messages := w.messages.popMessage routingKey key }

/-- The two loops over the copy. -/
def publishCopy (copy : Messages Pushed) : M Unit :=
  copy.entries.forM fun (routingKey, messages) =>
    messages.entries.forM fun (key, message) => publishOne routingKey key message

def publishMessages : M Unit :=
  tryCatch
    (Hoare.scope openConnection closeConnection do
      publishCopy (← get).messages
      cleanMessages)
    (fun e => if e.isException then pure () else throw e)

/-! ## What publishing does -/

/-- `w'` is `w` after some of the pending messages were sent. -/
structure Published (w w' : World) : Prop where
  db : w'.db = w.db
  provider : w'.provider = w.provider
  tx : w'.tx = w.tx
  journal : w'.journal = w.journal
  pushed : w'.pushed = w.pushed
  drawn : w'.drawn = w.drawn
  faults : w.faults = [] → w'.faults = []
  grows : ∀ p ∈ w.sent, p ∈ w'.sent
  sent : ∀ rk m, (rk, m) ∈ w'.sent → (rk, m) ∈ w.sent ∨ ∃ k, w.messages.pendingAt rk k = some m
  kept : ∀ rk k m, w'.messages.pendingAt rk k = some m → w.messages.pendingAt rk k = some m
  done : ∀ rk k m, w.messages.pendingAt rk k = some m →
    w'.messages.pendingAt rk k = some m ∨ (rk, m) ∈ w'.sent

section
variable {w₀ : World}

theorem Published.refl (w : World) : Published w w where
  db := rfl
  provider := rfl
  tx := rfl
  journal := rfl
  pushed := rfl
  drawn := rfl
  faults := id
  grows := fun _ => id
  sent := fun _ _ => Or.inl
  kept := fun _ _ _ => id
  done := fun _ _ _ => Or.inl

theorem Published.advance {w : World} (h : Published w₀ w) : Published w₀ w.advance := by
  refine { h with faults := fun hf => ?_ }
  change w.faults.tail = []
  rw [h.faults hf]
  rfl

theorem awaitPoint_published :
    Triple (Published w₀) awaitPoint (fun _ => Published w₀) (fun _ => Published w₀) := by
  intro w hw
  rw [awaitPoint_run]
  cases w.nextFault <;> exact hw.advance

theorem publishOne_published {rk k : String} {m : QueueMessage Pushed}
    (hm : w₀.messages.pendingAt rk k = some m) (old : List (String × QueueMessage Pushed)) :
    Triple (fun w => Published w₀ w ∧ ∀ p ∈ old, p ∈ w.sent) (publishOne rk k m)
      (fun _ w => Published w₀ w ∧ (rk, m) ∈ w.sent ∧ ∀ p ∈ old, p ∈ w.sent)
      (fun _ => Published w₀) := by
  have hwait : Triple (fun w => Published w₀ w ∧ ∀ p ∈ old, p ∈ w.sent) awaitPoint
      (fun _ w => Published w₀ w ∧ ∀ p ∈ old, p ∈ w.sent) (fun _ => Published w₀) := by
    intro w hw
    rw [awaitPoint_run]
    cases w.nextFault
    · exact ⟨hw.1.advance, hw.2⟩
    · exact hw.1.advance
  refine hwait.bind fun _ => Triple.bind (R := fun _ w => Published w₀ w ∧ (rk, m) ∈ w.sent ∧
    ∀ p ∈ old, p ∈ w.sent) (hwait.bind fun _ => Triple.modify ?_) fun _ => Triple.modify ?_
  · intro w hw
    obtain ⟨h, hold⟩ := hw
    refine ⟨{ h with grows := ?_, sent := ?_, done := ?_ }, by simp, ?_⟩
    · exact fun p hp => List.mem_append_left _ (h.grows p hp)
    · intro rk' m' hp
      rcases List.mem_append.mp hp with hp | hp
      · exact h.sent rk' m' hp
      · cases List.mem_singleton.mp hp
        exact Or.inr ⟨k, hm⟩
    · intro rk' k' m' hp
      exact (h.done rk' k' m' hp).imp id (List.mem_append_left _)
    · exact fun p hp => List.mem_append_left _ (hold p hp)
  · intro w hw
    obtain ⟨h, hsent, hold⟩ := hw
    refine ⟨{ h with kept := ?_, done := ?_ }, hsent, hold⟩
    · intro rk' k' m' hp
      rw [Buffer.pendingAt_pop] at hp
      split at hp
      · cases hp
      · exact h.kept rk' k' m' hp
    · intro rk' k' m' hp
      rw [Buffer.pendingAt_pop]
      split
      · -- the message just sent is the one taken out
        rename_i heq
        rw [heq.1, heq.2, hm] at hp
        cases hp
        exact Or.inr (heq.1 ▸ hsent)
      · exact h.done rk' k' m' hp

/-- The two loops: when they end, the whole copy was sent. -/
theorem publishCopy_published :
    Triple (Published w₀) (publishCopy w₀.messages)
      (fun _ w => Published w₀ w ∧ ∀ rk k m, w₀.messages.pendingAt rk k = some m → (rk, m) ∈ w.sent)
      (fun _ => Published w₀) := by
  -- what the messages of the first `d` routing keys, and the first `d'` of the next, came to
  let sentOf : List (String × Dict String (QueueMessage Pushed)) → List (String × QueueMessage Pushed) :=
    fun d => d.flatMap fun e => e.2.entries.map fun f => (e.1, f.2)
  have houter := Triple.forM (E := fun _ => Published w₀)
    (f := fun e : String × Dict String (QueueMessage Pushed) =>
      e.2.entries.forM fun f => publishOne e.1 f.1 f.2)
    (fun d w => Published w₀ w ∧ ∀ p ∈ sentOf d, p ∈ w.sent) w₀.messages.entries [] ?_
  · refine houter.conseq (fun w hw => ⟨hw, by simp [sentOf]⟩) ?_ (fun _ _ => id)
    intro _ w hw
    refine ⟨hw.1, fun rk k m hm => hw.2 (rk, m) ?_⟩
    obtain ⟨inner, hi, hk⟩ := Option.bind_eq_some_iff.mp hm
    exact List.mem_flatMap.mpr ⟨(rk, inner), Dict.mem_entries_iff.mpr hi,
      List.mem_map.mpr ⟨(k, m), Dict.mem_entries_iff.mpr hk, rfl⟩⟩
  · intro d e he
    obtain ⟨rk, inner⟩ := e
    have hinner := Triple.forM (E := fun _ => Published w₀)
      (f := fun f : String × QueueMessage Pushed => publishOne rk f.1 f.2)
      (fun d' w => Published w₀ w ∧ ∀ p ∈ sentOf d ++ d'.map fun f => (rk, f.2), p ∈ w.sent)
      inner.entries [] ?_
    · refine hinner.conseq (fun w hw => ⟨hw.1, by simpa using hw.2⟩) ?_ (fun _ _ => id)
      intro _ w hw
      simpa [sentOf] using hw
    · intro d' f hf
      obtain ⟨k, m⟩ := f
      have hm : w₀.messages.pendingAt rk k = some m :=
        Option.bind_eq_some_iff.mpr
          ⟨inner, Dict.mem_entries_iff.mp he, Dict.mem_entries_iff.mp hf⟩
      refine (publishOne_published hm _).conseq (fun _ => id) ?_ (fun _ _ => id)
      intro _ w hw
      refine ⟨hw.1, fun p hp => ?_⟩
      rw [List.map_append, ← List.append_assoc, List.mem_append] at hp
      rcases hp with hp | hp
      · exact hw.2.2 p hp
      · rw [List.map_singleton, List.mem_singleton] at hp
        exact hp ▸ hw.2.1

theorem publishMessages_published (w₀ : World) :
    Triple (fun w => w = w₀) publishMessages (fun _ => Published w₀)
      (fun e w => e.isException = false ∧ Published w₀ w) := by
  -- the copy is of the buffer as the connection's opening left it
  let fresh : World → Prop := fun w => Published w₀ w ∧ w.messages = w₀.messages
  have hopen : Triple (fun w => w = w₀) openConnection (fun _ => fresh) (fun _ => Published w₀) := by
    refine Triple.tryCatch (R := fun _ => Published w₀) ?_ fun e => Triple.throw fun _ => id
    intro w hw
    rw [hw, awaitPoint_run]
    cases w₀.nextFault
    · exact ⟨(Published.refl w₀).advance, rfl⟩
    · exact (Published.refl w₀).advance
  have hcopy : Triple fresh (do publishCopy (← get).messages; cleanMessages)
      (fun _ => Published w₀) (fun _ => Published w₀) := by
    refine Triple.bind (R := fun a w => a.messages = w₀.messages ∧ Published w₀ w)
      (Triple.get fun w hw => ⟨hw.2, hw.1⟩) fun a => Triple.intro fun w₁ h₁ => ?_
    rw [h₁.1]
    refine Triple.bind (publishCopy_published.conseq (fun w hw => hw ▸ h₁.2) (fun _ _ => id)
      (fun _ _ => id)) fun _ => Triple.modify ?_
    intro w hw
    obtain ⟨h, hall⟩ := hw
    refine { h with kept := ?_, done := ?_ }
    · intro rk k m hm
      cases hm
    · exact fun rk k m hm => Or.inr (hall rk k m hm)
  refine Triple.tryCatch (R := fun _ => Published w₀) ?_ ?_
  · exact Triple.scope fresh (fun _ => Published w₀) (fun _ => Published w₀) hopen hcopy
      (fun _ => awaitPoint_published) (fun _ => awaitPoint_published)
  · intro e
    refine Triple.ite (fun _ => Triple.pure fun _ => id) fun he => Triple.throw fun w hw => ?_
    exact ⟨by simpa using he, hw⟩

end

end RabbitMqPublisher

end DddService
