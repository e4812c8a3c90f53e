import DddService.Publisher

/- `publish_messages` where any of its calls to the broker may fail. Its two loops go through
   a copy of the buffer, and each message that is sent is taken out of the live one. So
   however far a call gets, what it sent and what is still pending are the two parts of what
   was pending, in the order of the buffer (`Splits`), and further calls go on from there
   (`publish_exactly_once`).

   The argument is about the loops alone (`SendsOne`); it holds of the publisher of any data
   and of the one that the requests run with. -/
namespace DddService
open Hoare

/-- A pending message under its routing key and its message key. -/
abbrev Keyed (δ : Type) := String × String × QueueMessage δ

/-- What is sent of it. -/
def Keyed.outgoing {δ : Type} (x : Keyed δ) : String × QueueMessage δ := (x.1, x.2.2)

namespace Messages
open Buffer
variable {δ : Type}

/-- What the inner loop goes through for one routing key. -/
def pendingOf (e : String × Dict String (QueueMessage δ)) : List (Keyed δ) :=
  e.2.entries.map fun f => (e.1, f.1, f.2)

/-- The pending messages with their keys, in the order of the two loops. -/
def pending (ms : Messages δ) : List (Keyed δ) := ms.entries.flatMap pendingOf

theorem mem_pending {ms : Messages δ} {rk k : String} {m : QueueMessage δ} :
    (rk, k, m) ∈ pending ms ↔ pendingAt ms rk k = some m := by
  simp [pending, pendingOf, pendingAt, Option.bind_eq_some_iff, ← Dict.mem_entries_iff]

theorem pending_nodup (ms : Messages δ) : ((pending ms).map fun x => (x.1, x.2.1)).Nodup := by
  have hkeys : (pending ms).map (fun x => (x.1, x.2.1)) =
      ms.entries.flatMap fun e => (e.2.entries.map Prod.fst).map (Prod.mk e.1) := by
    simp [pending, pendingOf, List.map_flatMap, Function.comp_def]
  rw [hkeys]
  refine List.nodup_flatMap.mpr ⟨fun e _ => ?_, ?_⟩
  · exact e.2.nodup.map fun _ _ h => congrArg Prod.snd h
  · -- two routing keys differ, so all their pairs do
    refine (List.pairwise_map.mp ms.nodup).imp fun {e f} hne => ?_
    intro p hp hp'
    obtain ⟨k, _, rfl⟩ := List.mem_map.mp hp
    obtain ⟨k', _, hk'⟩ := List.mem_map.mp hp'
    exact hne (congrArg Prod.fst hk').symm

theorem pending_pop {ms : Messages δ} {rk k : String} {m : QueueMessage δ} {rest : List (Keyed δ)}
    (h : pending ms = (rk, k, m) :: rest) : pending (ms.popMessage rk k) = rest := by
  have hat : pendingAt ms rk k = some m := mem_pending.mp (by rw [h]; exact List.mem_cons_self)
  obtain ⟨inner, hg, hi⟩ := Option.bind_eq_some_iff.mp hat
  obtain ⟨a, b, hms, hset⟩ := Dict.entries_set_old hg (inner.pop k)
  -- the message comes first, so those before it in the dict have nothing pending
  have hfilter : pending (ms.popMessage rk k) =
      (pending ms).filter fun x => ¬(x.1 = rk ∧ x.2.1 = k) := by
    have hkeys := ms.nodup
    rw [hms, List.map_append, List.map_cons, List.nodup_append, List.nodup_cons] at hkeys
    obtain ⟨_, ⟨hb, _⟩, hab⟩ := hkeys
    have hother : ∀ es : List (String × Dict String (QueueMessage δ)),
        rk ∉ es.map Prod.fst → (es.flatMap pendingOf).filter
          (fun x => ¬(x.1 = rk ∧ x.2.1 = k)) = es.flatMap pendingOf := by
      intro es hes
      refine List.filter_eq_self.mpr fun x hx => ?_
      obtain ⟨e, he, hx⟩ := List.mem_flatMap.mp hx
      obtain ⟨f, _, rfl⟩ := List.mem_map.mp hx
      have hne : ¬e.1 = rk := fun heq => hes (heq ▸ List.mem_map_of_mem he)
      simp [hne]
    have ha : rk ∉ a.map Prod.fst := fun hmem => hab rk hmem rk List.mem_cons_self rfl
    have hone : pendingOf (rk, inner.pop k) =
        (pendingOf (rk, inner)).filter fun x => ¬(x.1 = rk ∧ x.2.1 = k) := by
      simp [pendingOf, Dict.pop, List.filter_map, Function.comp_def]
    unfold pending popMessage
    rw [hg, Option.getD_some, hset, hms, List.flatMap_append, List.flatMap_append,
      List.filter_append, List.flatMap_cons, List.flatMap_cons, List.filter_append, hother a ha,
      hother b hb, hone]
  have hnodup := pending_nodup ms
  rw [h, List.map_cons, List.nodup_cons] at hnodup
  rw [hfilter, h, List.filter_cons_of_neg (by simp)]
  refine List.filter_eq_self.mpr fun x hx => ?_
  have hne : ¬(x.1 = rk ∧ x.2.1 = k) := by
    rintro ⟨hrk, hk⟩
    have hmem : (x.1, x.2.1) ∈ rest.map fun x => (x.1, x.2.1) := List.mem_map.mpr ⟨x, hx, rfl⟩
    rw [hrk, hk] at hmem
    exact hnodup.1 hmem
  exact decide_eq_true hne

end Messages

/-! ## The loops -/

section
variable {σ δ : Type} (messages : σ → Messages δ) (sent : σ → List (String × QueueMessage δ))

/-- The loop body sends its message and takes it out, or raises and leaves both alone. -/
def SendsOne (body : Keyed δ → EStateM Exc σ Unit) : Prop :=
  ∀ x s, match body x s with
    | .ok _ t => sent t = sent s ++ [x.outgoing] ∧
        messages t = (messages s).popMessage x.1 x.2.1
    | .error _ t => sent t = sent s ∧ messages t = messages s

/-- From `s` to `t` the messages `now` were sent, and what was pending is these and what is
    pending still. -/
structure Splits (s t : σ) (now : List (Keyed δ)) : Prop where
  sent : sent t = sent s ++ now.map Keyed.outgoing
  pending : now ++ (messages t).pending = (messages s).pending

variable {messages sent}

theorem Splits.refl (s : σ) : Splits messages sent s s [] :=
  ⟨(List.append_nil _).symm, rfl⟩

theorem Splits.trans {s t u : σ} {now later : List (Keyed δ)} (h : Splits messages sent s t now)
    (h' : Splits messages sent t u later) : Splits messages sent s u (now ++ later) := by
  constructor
  · rw [h'.sent, h.sent, List.map_append, List.append_assoc]
  · rw [List.append_assoc, h'.pending, h.pending]

/-- The loop over what is pending: as far as it gets, it sends from the front. -/
theorem SendsOne.loop {body : Keyed δ → EStateM Exc σ Unit} (h : SendsOne messages sent body) :
    ∀ (todo : List (Keyed δ)) (s : σ), (messages s).pending = todo →
      ∃ now, Splits messages sent s (stateOf (todo.forM body s)) now ∧
        (raised (todo.forM body s) = none → now = todo)
  | [], s, _ => ⟨[], Splits.refl s, fun _ => rfl⟩
  | (rk, k, m) :: todo, s, hs => by
    have hbody := h (rk, k, m) s
    change ∃ now, Splits messages sent s (stateOf ((body (rk, k, m) >>= fun _ => todo.forM body) s))
      now ∧ (raised ((body (rk, k, m) >>= fun _ => todo.forM body) s) = none → _)
    rw [bind_run]
    cases hrun : body (rk, k, m) s with
    | error e t =>
      rw [hrun] at hbody
      refine ⟨[], ⟨hbody.1.trans (List.append_nil _).symm, ?_⟩, fun hno => nomatch hno⟩
      exact congrArg Messages.pending hbody.2
    | ok u t =>
      rw [hrun] at hbody
      have hone : Splits messages sent s t [(rk, k, m)] := by
        refine ⟨hbody.1, ?_⟩
        rw [hbody.2, Messages.pending_pop hs, hs]
        rfl
      have ht : (messages t).pending = todo := by
        rw [hbody.2]
        exact Messages.pending_pop hs
      obtain ⟨now, hnow, hall⟩ := SendsOne.loop h todo t ht
      exact ⟨(rk, k, m) :: now, hone.trans hnow, fun hno => congrArg _ (hall hno)⟩

/-- The two loops of the source are the loop over what is pending. -/
theorem forM_pending (body : Keyed δ → EStateM Exc σ Unit)
    (es : List (String × Dict String (QueueMessage δ))) :
    (es.forM fun e => e.2.entries.forM fun f => body (e.1, f.1, f.2)) =
      (es.flatMap Messages.pendingOf).forM body := by
  induction es with
  | nil => rfl
  | cons e es ih =>
    have hinner : (Messages.pendingOf e).forM body =
        e.2.entries.forM fun f => body (e.1, f.1, f.2) := by
      unfold Messages.pendingOf
      induction e.2.entries with
      | nil => rfl
      | cons f fs ih => exact congrArg (fun r => body (e.1, f.1, f.2) >>= fun _ => r) ih
    rw [List.flatMap_cons]
    simp only [List.forM_eq_forM] at ih hinner ⊢
    rw [List.forM_cons, ih, List.forM_append, hinner]

/-- Some of what was pending was sent. -/
def SentSome (messages : σ → Messages δ) (sent : σ → List (String × QueueMessage δ)) (s t : σ) :
    Prop :=
  ∃ now, Splits messages sent s t now

instance : IsPreorder σ (SentSome messages sent) where
  refl s := ⟨[], Splits.refl s⟩
  trans _ _ _ h h' := by
    obtain ⟨now, hnow⟩ := h
    obtain ⟨later, hlater⟩ := h'
    exact ⟨now ++ later, hnow.trans hlater⟩

/-- What leaves the buffer and the broker alone sends nothing. -/
theorem moves_of_frames {α : Type} {x : EStateM Exc σ α}
    (h : Frames (fun s => (messages s, sent s)) x) : Moves (SentSome messages sent) x :=
  Moves.of_frames h fun s t hst => by
    obtain ⟨hmessages, hsent⟩ := Prod.mk.inj hst
    exact ⟨[], hsent.trans (List.append_nil _).symm, congrArg Messages.pending hmessages⟩

/-- The loops over a copy of the buffer, and what drops it at the end. -/
theorem SendsOne.copied {body : Keyed δ → EStateM Exc σ Unit} (h : SendsOne messages sent body)
    (clean : σ → σ) (hmessages : ∀ s, messages (clean s) = .empty)
    (hsent : ∀ s, sent (clean s) = sent s) (s : σ) :
    SentSome messages sent s (stateOf ((do
      (messages s).entries.forM fun e => e.2.entries.forM fun f => body (e.1, f.1, f.2)
      modify clean : EStateM Exc σ Unit) s)) := by
  rw [forM_pending]
  change SentSome messages sent s (stateOf
    (((messages s).pending.forM body >>= fun _ => modify clean) s))
  obtain ⟨now, hnow, hall⟩ := h.loop (messages s).pending s rfl
  rw [bind_run]
  cases hrun : (messages s).pending.forM body s with
  | error e t =>
    rw [hrun] at hnow
    exact ⟨now, hnow⟩
  | ok u t =>
    rw [hrun] at hnow hall
    refine ⟨now, (hsent t).trans hnow.sent, ?_⟩
    show now ++ (messages (clean t)).pending = _
    rw [hmessages, hall rfl]
    exact List.append_nil _

end

/-! ## The publisher -/

/-- The part of a `RabbitMqPublisher` that `publish_messages` works on: what is pending, and
    the messages for which `basic_publish` returned. -/
structure Publisher (δ : Type) where
  messages : Messages δ
  sent : List (String × QueueMessage δ)

/-- What one `publish_messages` meets: which of its calls raise, whether there is a channel,
    and whether the connection is still open when it is left. What concerns a message is
    given by its keys; no message is met twice. -/
structure PublishCall where
  connect : Option Failure
  deepcopy : Option Failure
  toPayload : String → String → Option Failure
  channel : String → String → Bool
  basicPublish : String → String → Option Failure
  isOpen : Bool
  close : Option Failure

/-- A call that returns or raises. -/
def calling {σ : Type} : Option Failure → EStateM Exc σ Unit
  | none => pure ()
  | some e => throw e.val

namespace Publisher
variable {δ : Type} (t : PublishCall)

/-- `MessageQueueConnection.__enter__` -/
def openConnection : EStateM Exc (Publisher δ) Unit :=
  tryCatch (calling t.connect) (fun e =>
    throw (if e.isException then .exception "AMQPConnectorException" else e))

/-- `MessageQueueConnection.__exit__` -/
def closeConnection : EStateM Exc (Publisher δ) Unit :=
  if t.isOpen then calling t.close else pure ()

/-- The body of the inner loop. The message's text is made when it is passed to
    `basic_publish`, so it is sent only if both go through. -/
def publishOne (x : Keyed δ) : EStateM Exc (Publisher δ) Unit := do
  calling (t.toPayload x.1 x.2.1)
  if t.channel x.1 x.2.1 = false then throw (.runtimeError "Publish channel not found")
  else do
    calling (t.basicPublish x.1 x.2.1)
    modify fun p => { p with sent := p.sent ++ [x.outgoing] }
    modify fun p => { p with messages := p.messages.popMessage x.1 x.2.1 }

/-- `publish_messages` -/
def publishMessages : EStateM Exc (Publisher δ) Unit :=
  tryCatch
    (Hoare.scope (openConnection t) (closeConnection t) do
      calling t.deepcopy
      let copy := (← get).messages
      copy.entries.forM fun e => e.2.entries.forM fun f => publishOne t (e.1, f.1, f.2)
      modify fun p => { p with messages := .empty })
    (fun e => if e.isException then pure () else throw e)

/-! ## What it sends -/

abbrev Splits (p q : Publisher δ) (now : List (Keyed δ)) : Prop :=
  DddService.Splits Publisher.messages Publisher.sent p q now

theorem calling_frames {σ α : Type} (f : σ → α) (r : Option Failure) : Frames f (calling r) := by
  cases r with
  | none => exact Frames.pure _
  | some e => exact Frames.throw _

theorem publishOne_sendsOne :
    SendsOne Publisher.messages Publisher.sent (publishOne (δ := δ) t) := by
  intro x p
  unfold publishOne
  cases hpayload : t.toPayload x.1 x.2.1 with
  | some e => exact ⟨rfl, rfl⟩
  | none =>
    cases hchannel : t.channel x.1 x.2.1 with
    | false => exact ⟨rfl, rfl⟩
    | true =>
      cases hpublish : t.basicPublish x.1 x.2.1 with
      | some e => exact ⟨rfl, rfl⟩
      | none => exact ⟨rfl, rfl⟩

/-- Raises nothing but `Exception`s. -/
abbrev RaisesExceptions {α : Type} (x : EStateM Exc (Publisher δ) α) : Prop :=
  RaisesOnly (fun e => e.isException = true) (fun _ => True) x

theorem calling_raises (r : Option Failure) :
    RaisesExceptions (calling r : EStateM Exc (Publisher δ) Unit) := by
  cases r with
  | none => exact RaisesOnly.pure ()
  | some e => exact RaisesOnly.throw e.property

theorem openConnection_raises : RaisesExceptions (openConnection (δ := δ) t) := by
  refine (calling_raises t.connect).tryCatch fun e he => ?_
  rw [if_pos he]
  exact RaisesOnly.throw rfl

theorem closeConnection_raises : RaisesExceptions (closeConnection (δ := δ) t) :=
  RaisesOnly.ite (fun _ => calling_raises t.close) fun _ => RaisesOnly.pure ()

theorem publishOne_raises (x : Keyed δ) : RaisesExceptions (publishOne t x) := by
  refine (calling_raises _).bind fun _ =>
    RaisesOnly.ite (fun _ => RaisesOnly.throw rfl) fun _ => (calling_raises _).bind fun _ => ?_
  exact (RaisesOnly.modify fun _ _ => trivial).bind fun _ => RaisesOnly.modify fun _ _ => trivial

theorem publishMessages_returns (p : Publisher δ) : raised (publishMessages t p) = none := by
  have hbody : RaisesExceptions (do
      calling t.deepcopy
      let copy := (← get).messages
      copy.entries.forM fun e => e.2.entries.forM fun f => publishOne t (e.1, f.1, f.2)
      modify fun p : Publisher δ => { p with messages := .empty }) := by
    refine (calling_raises t.deepcopy).bind fun _ => RaisesOnly.get.bind fun p => ?_
    refine RaisesOnly.bind ?_ fun _ => RaisesOnly.modify fun _ _ => trivial
    exact RaisesOnly.forM (fun e => RaisesOnly.forM (fun f => publishOne_raises t _) _) _
  have hscope := (openConnection_raises t).scope (closeConnection_raises t) hbody
  have hall : RaisesOnly (fun _ => False) (fun _ => True) (publishMessages (δ := δ) t) := by
    refine hscope.tryCatch fun e he => ?_
    rw [if_pos he]
    exact RaisesOnly.pure ()
  exact hall.returns trivial

theorem publishMessages_moves :
    Moves (SentSome Publisher.messages Publisher.sent) (publishMessages (δ := δ) t) := by
  have hcalling : ∀ r, Moves (SentSome Publisher.messages Publisher.sent)
      (calling r : EStateM Exc (Publisher δ) Unit) := fun r => moves_of_frames (calling_frames _ r)
  unfold publishMessages
  refine Moves.tryCatch (Moves.scope ?_ ?_ ?_) fun e => ?_
  · exact (hcalling t.connect).tryCatch fun e => Moves.throw _
  · exact Moves.ite (hcalling t.close) (Moves.pure _)
  · apply (hcalling t.deepcopy).bind
    intro _ p
    exact (publishOne_sendsOne t).copied (fun p => { p with messages := .empty }) (fun _ => rfl)
      (fun _ => rfl) p
  · exact Moves.ite (Moves.pure _) (Moves.throw _)

theorem publishMessages_splits (p : Publisher δ) :
    ∃ q now, publishMessages t p = .ok () q ∧ Splits p q now := by
  obtain ⟨now, hnow⟩ := publishMessages_moves t p
  obtain ⟨_, hok⟩ := eq_ok_of_raised (publishMessages_returns t p)
  exact ⟨_, now, hok, hnow⟩

theorem publishAll_splits (calls : List PublishCall) (p : Publisher δ) :
    ∃ q now, calls.forM (fun t => publishMessages t) p = .ok () q ∧ Splits p q now := by
  induction calls generalizing p with
  | nil => exact ⟨p, [], rfl, Splits.refl p⟩
  | cons t calls ih =>
    obtain ⟨q, now, hq, hnow⟩ := publishMessages_splits t p
    obtain ⟨r, later, hr, hlater⟩ := ih q
    exact ⟨r, now ++ later, bind_ok hq hr, hnow.trans hlater⟩

end Publisher

/-- A call of `publish_messages` on any buffer returns, whatever fails in it: the messages it
    sent and those still pending are those that were pending, in order. Any number of
    further calls return as well, and send what they send from what was left. No two of the
    messages sent and still pending have the same keys: none is sent twice, or is both. -/
theorem publish_exactly_once {δ : Type} (p : Publisher δ) (t : PublishCall)
    (calls : List PublishCall) :
    ∃ q r now later, Publisher.publishMessages t p = .ok () q ∧ Publisher.Splits p q now ∧
      calls.forM (fun t => Publisher.publishMessages t) q = .ok () r ∧
      Publisher.Splits q r later ∧
      ((now ++ later ++ r.messages.pending).map fun x => (x.1, x.2.1)).Nodup := by
  obtain ⟨q, now, hq, hnow⟩ := Publisher.publishMessages_splits t p
  obtain ⟨r, later, hr, hlater⟩ := Publisher.publishAll_splits calls q
  refine ⟨q, r, now, later, hq, hnow, hr, hlater, ?_⟩
  have hall : now ++ later ++ r.messages.pending = p.messages.pending := by
    rw [List.append_assoc, hlater.pending, hnow.pending]
  rw [hall]
  exact Messages.pending_nodup p.messages

/-! ## The publisher of the requests -/

namespace RabbitMqPublisher

/-- In the world of the requests what a call sends and what it leaves are also what was
    pending, whichever way it ends. -/
theorem publishMessages_moves : Moves (SentSome World.messages World.sent) publishMessages := by
  have hwait : Moves (SentSome World.messages World.sent) awaitPoint := by
    refine moves_of_frames fun w => ?_
    rw [awaitPoint_run]
    cases w.nextFault <;> rfl
  have hone : SendsOne World.messages World.sent fun x => publishOne x.1 x.2.1 x.2.2 := by
    intro x w
    unfold publishOne basicPublish
    dsimp only
    rw [bind_run, awaitPoint_run]
    cases w.nextFault with
    | some e => exact ⟨rfl, rfl⟩
    | none =>
      dsimp only
      rw [bind_run, bind_run, awaitPoint_run]
      cases w.advance.nextFault with
      | some e => exact ⟨rfl, rfl⟩
      | none => exact ⟨rfl, rfl⟩
  unfold publishMessages
  refine Moves.tryCatch (Moves.scope ?_ hwait ?_) fun e => ?_
  · exact hwait.tryCatch fun e => Moves.throw _
  · exact fun w => hone.copied (fun w => { w with messages := .empty }) (fun _ => rfl)
      (fun _ => rfl) w
  · exact Moves.ite (Moves.pure _) (Moves.throw _)

end RabbitMqPublisher

end DddService
