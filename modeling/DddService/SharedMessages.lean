import DddService.MessageQueue
import Mathlib.Data.List.Induction
import Mathlib.Data.List.Nodup

/- Messages as Python objects. The buffer keeps the first message object pushed under its
   keys, and `+=` extends the list that this object refers to: every message that refers to
   the same list, pending or not yet pushed, then has the new items too.

   `SharedBuffer` is the buffer of such objects. Where no extended list is the list of
   another pending message (`PushedApart`), what the objects read as is the buffer of
   `MessageQueue.lean`, in which messages are values (`pushAll_read`). That is so where
   every message has a list of its own (`pushedApart_of_nodup`), as the messages that
   `handle_your_aggregate_voided` makes have. -/
namespace DddService
open Hoare

/-- A list or dict that messages may share. -/
abbrev DataRef := Nat

/-- What the lists and dicts hold. -/
abbrev DataObjects (δ : Type) := DataRef → MessageData δ

/-- A `QueueMessage` object. -/
structure MessageObject where
  traceId : String
  functionName : FunctionName
  data : DataRef
  started : Option DateTime
  attemptNumber : Int
  retryDelaySecond : Int
  deriving DecidableEq

namespace MessageObject
variable {δ : Type}

/-- The constructor with its defaults. -/
def new (traceId : String) (functionName : FunctionName) (data : DataRef) : MessageObject :=
  { traceId, functionName, data, started := none, attemptNumber := 3, retryDelaySecond := 3 }

/-- The message that the object is, while the data are these. -/
def read (objects : DataObjects δ) (m : MessageObject) : QueueMessage δ where
  traceId := m.traceId
  functionName := m.functionName
  data := objects m.data
  started := m.started
  attemptNumber := m.attemptNumber
  retryDelaySecond := m.retryDelaySecond

/-- `m_key` -/
def mKey (m : MessageObject) : String := m.traceId ++ "_" ++ m.functionName.text

/-- `__iadd__`: the list that `m` refers to is extended, and `m` is returned. -/
def iadd (m o : MessageObject) : EStateM Exc (DataObjects δ) MessageObject := fun objects =>
  match (m.read objects).iadd (o.read objects) with
  | .ok m' => .ok m (Function.update objects m.data m'.data)
  | .error e => .error e objects

end MessageObject

/-- A publisher's buffer. `pushed` records every message as it was when it was pushed. -/
structure SharedBuffer (δ : Type) where
  objects : DataObjects δ
  messages : Buffer MessageObject
  pushed : List (String × QueueMessage δ)

namespace SharedBuffer
variable {δ : Type}

def init (objects : DataObjects δ) : SharedBuffer δ := ⟨objects, .empty, []⟩

/-- The pending messages as they are now. -/
def read (s : SharedBuffer δ) : Messages δ := s.messages.map (·.read s.objects)

/-- `push_message` with `auto_publish=False` -/
def pushMessage (routingKey : String) (message : MessageObject) :
    EStateM Exc (SharedBuffer δ) Unit := do
  modify fun s => if (s.messages.get? routingKey).isNone then
    { s with messages := s.messages.set routingKey .empty } else s
  let s ← get
  let inner := (s.messages.get? routingKey).getD .empty
  let log := s.pushed ++ [(routingKey, message.read s.objects)]
  let place (objects : DataObjects δ) (m : MessageObject) : SharedBuffer δ :=
    ⟨objects, s.messages.set routingKey (inner.set message.mKey m), log⟩
  match inner.get? message.mKey with
  | none => set (place s.objects message)
  | some m => match m.iadd message s.objects with
    | .ok m' objects => set (place objects m')
    | .error e _ => throw e

/-- A sequence of `push_message` calls. -/
def pushAll (pushes : List (String × MessageObject)) : EStateM Exc (SharedBuffer δ) Unit :=
  pushes.forM fun p => pushMessage p.1 p.2

/-! ## One push -/

@[simp] theorem read_pendingAt (s : SharedBuffer δ) (rk k : String) :
    s.read.pendingAt rk k = (s.messages.pendingAt rk k).map (·.read s.objects) :=
  Buffer.pendingAt_map _ _ _ _

/-- The object under the keys of a push, once it is made. -/
def held (s : SharedBuffer δ) (p : String × MessageObject) : MessageObject :=
  (s.messages.pendingAt p.1 p.2.mKey).getD p.2

/-- The buffer after a push that leaves `data` in the object under its keys. -/
def after (s : SharedBuffer δ) (p : String × MessageObject) (data : MessageData δ) :
    SharedBuffer δ where
  objects := Function.update s.objects (s.held p).data data
  messages := s.messages.place p.1 p.2.mKey (s.held p)
  pushed := s.pushed ++ [(p.1, p.2.read s.objects)]

theorem after_objects_ne {s : SharedBuffer δ} {p : String × MessageObject} {data : MessageData δ}
    {r : DataRef} (h : ¬r = (s.held p).data) : (s.after p data).objects r = s.objects r :=
  Function.update_of_ne h _ _

/-- A push raises or returns by what the messages read as. -/
theorem pushMessage_run (s : SharedBuffer δ) (p : String × MessageObject) :
    pushMessage p.1 p.2 s =
      match QueueMessage.merge (s.read.pendingAt p.1 p.2.mKey) (p.2.read s.objects) with
      | .ok m' => .ok () (s.after p m'.data)
      | .error e => .error e s := by
  obtain ⟨rk, o⟩ := p
  obtain ⟨objects, ms, pushed⟩ := s
  rw [read_pendingAt]
  cases hg : ms.get? rk with
  | none =>
    have hp : ms.pendingAt rk o.mKey = none := by simp [Buffer.pendingAt, hg]
    simp only [pushMessage, bind_run, modify_run, get_run, hg, hp]
    simp [QueueMessage.merge, after, held, hp, hg, Buffer.place, MessageObject.read,
      Dict.set_set]
    rfl
  | some inner =>
    have hp : ms.pendingAt rk o.mKey = inner.get? o.mKey := by simp [Buffer.pendingAt, hg]
    simp only [pushMessage, bind_run, modify_run, get_run, hg, hp]
    cases hk : inner.get? o.mKey with
    | none =>
      simp [QueueMessage.merge, after, held, hp, hk, hg, Buffer.place, MessageObject.read]
      rfl
    | some m =>
      cases hm : (m.read objects).iadd (o.read objects) with
      | error e =>
        simp [QueueMessage.merge, MessageObject.iadd, hk, hm, hg]
      | ok m' =>
        simp [QueueMessage.merge, MessageObject.iadd, hk, hm, hg, after, held, hp, Buffer.place]
        rfl

/-- The list that a push with data extends is that of no other pending message. -/
def Apart (s : SharedBuffer δ) (p : String × MessageObject) : Prop :=
  ∀ m, s.messages.pendingAt p.1 p.2.mKey = some m → s.objects p.2.data ≠ .list [] →
    ∀ rk k m', s.messages.pendingAt rk k = some m' → m'.data = m.data →
      rk = p.1 ∧ k = p.2.mKey

section
variable {s : SharedBuffer δ} {p : String × MessageObject} {m' : QueueMessage δ}

theorem held_read (hm : QueueMessage.merge (s.read.pendingAt p.1 p.2.mKey) (p.2.read s.objects) =
    .ok m') : (s.held p).read (s.after p m'.data).objects = m' := by
  rw [read_pendingAt] at hm
  cases ho : s.messages.pendingAt p.1 p.2.mKey with
  | none =>
    rw [ho] at hm
    cases hm
    simp [held, after, ho, MessageObject.read]
  | some m =>
    rw [ho] at hm
    obtain ⟨_, _, _, _, _, _, rfl⟩ := QueueMessage.iadd_ok hm
    simp [held, after, ho, MessageObject.read]

/-- The objects are as they were, if nothing was pending under the keys or the message has
    no data. -/
theorem after_objects (hm : QueueMessage.merge (s.read.pendingAt p.1 p.2.mKey)
    (p.2.read s.objects) = .ok m')
    (h : s.messages.pendingAt p.1 p.2.mKey = none ∨ s.objects p.2.data = .list []) :
    (s.after p m'.data).objects = s.objects := by
  rw [read_pendingAt] at hm
  refine Function.update_eq_self_iff.mpr ?_
  cases ho : s.messages.pendingAt p.1 p.2.mKey with
  | none =>
    rw [ho] at hm
    cases hm
    simp [held, ho, MessageObject.read]
  | some m =>
    rw [ho] at hm h
    obtain ⟨xs, ys, hxs, hys, _, _, rfl⟩ := QueueMessage.iadd_ok hm
    have hnil : ys = [] := by
      rcases h with h | h
      · cases h
      · exact MessageData.list.inj (hys.symm.trans h)
    rw [held, ho, hnil, List.append_nil]
    exact hxs.symm

theorem Apart.read_after (h : Apart s p) (hm : QueueMessage.merge
    (s.read.pendingAt p.1 p.2.mKey) (p.2.read s.objects) = .ok m') :
    (s.after p m'.data).read = s.read.place p.1 p.2.mKey m' := by
  have hplace : (s.after p m'.data).read = s.read.place p.1 p.2.mKey
      ((s.held p).read (s.after p m'.data).objects) := by
    refine Buffer.map_place _ fun rk k m₂ hat hne => ?_
    by_cases hobjects : (s.after p m'.data).objects = s.objects
    · rw [hobjects]
    -- the push extended a list, which is not that of `m₂`
    have hdata : ¬m₂.data = (s.held p).data := by
      intro heq
      cases ho : s.messages.pendingAt p.1 p.2.mKey with
      | none => exact hobjects (after_objects hm (.inl ho))
      | some m =>
        rw [held, ho] at heq
        exact hne (h m ho (fun hnil => hobjects (after_objects hm (.inr hnil))) rk k m₂ hat heq)
    simp [MessageObject.read, after_objects_ne hdata]
  rw [hplace, held_read hm]

end

/-! ## A sequence of pushes -/

theorem pushAll_append (pushes later : List (String × MessageObject)) :
    @pushAll δ (pushes ++ later) = pushAll pushes >>= fun _ => pushAll later := by
  unfold pushAll
  simp only [List.forM_eq_forM]
  exact List.forM_append

section
variable {objects : DataObjects δ} {pushes : List (String × MessageObject)}
  {q : String × MessageObject} {s : SharedBuffer δ}

theorem pushAll_snoc (h : pushAll pushes (init objects) = .ok () s) :
    pushAll (pushes ++ [q]) (init objects) =
      match QueueMessage.merge (s.read.pendingAt q.1 q.2.mKey) (q.2.read s.objects) with
      | .ok m' => .ok () (s.after q m'.data)
      | .error e => .error e s := by
  rw [pushAll_append]
  refine bind_ok h ?_
  show (pushMessage q.1 q.2 >>= fun _ => pure ()) s = _
  rw [bind_run, pushMessage_run]
  cases QueueMessage.merge (s.read.pendingAt q.1 q.2.mKey) (q.2.read s.objects) <;> rfl

theorem pushAll_snoc_ok (h : pushAll (pushes ++ [q]) (init objects) = .ok () s) :
    ∃ s₁ m', pushAll pushes (init objects) = .ok () s₁ ∧
      QueueMessage.merge (s₁.read.pendingAt q.1 q.2.mKey) (q.2.read s₁.objects) = .ok m' ∧
      s = s₁.after q m'.data := by
  obtain ⟨_, s₁, h₁, _⟩ := bind_eq_ok ((congrFun (pushAll_append pushes [q]) _).symm.trans h)
  rw [pushAll_snoc h₁] at h
  cases hm : QueueMessage.merge (s₁.read.pendingAt q.1 q.2.mKey) (q.2.read s₁.objects) with
  | error e => rw [hm] at h; cases h
  | ok m' =>
    rw [hm] at h
    cases h
    exact ⟨s₁, m', h₁, hm, rfl⟩

/-- `C` holds of the buffer that each push finds. -/
def AtEachPush (C : SharedBuffer δ → String × MessageObject → Prop) (objects : DataObjects δ)
    (pushes : List (String × MessageObject)) : Prop :=
  ∀ before p, before ++ [p] <+: pushes →
    ∀ s, pushAll before (init objects) = .ok () s → C s p

theorem atEachPush_snoc {C : SharedBuffer δ → String × MessageObject → Prop}
    (h : pushAll pushes (init objects) = .ok () s) :
    AtEachPush C objects (pushes ++ [q]) ↔ AtEachPush C objects pushes ∧ C s q := by
  constructor
  · intro hall
    refine ⟨fun before p hp => hall before p (hp.trans (List.prefix_append _ _)), ?_⟩
    exact hall pushes q List.prefix_rfl s h
  · rintro ⟨hall, hlast⟩ before p hp s' hs'
    rcases List.prefix_concat_iff.mp hp with heq | hp
    · obtain ⟨rfl, hlast'⟩ := List.append_inj' heq rfl
      cases hlast'
      rw [h] at hs'
      cases hs'
      exact hlast
    · exact hall before p hp s' hs'

/-- No push extends the list of another pending message. -/
def PushedApart (objects : DataObjects δ) (pushes : List (String × MessageObject)) : Prop :=
  AtEachPush Apart objects pushes

/-- Every message has the data, when it is pushed, that it had before all pushes. -/
def PushedAsWas (objects : DataObjects δ) (pushes : List (String × MessageObject)) : Prop :=
  AtEachPush (fun s p => s.objects p.2.data = objects p.2.data) objects pushes

/-- Apart pushes do what the pushes of the same messages as values do. -/
theorem pushAll_read (hapart : PushedApart objects pushes)
    (h : pushAll pushes (init objects) = .ok () s) :
    Messages.pushAll s.pushed .empty = .ok () s.read := by
  induction pushes using List.reverseRecOn generalizing s with
  | nil => cases h; rfl
  | append_singleton pushes q ih =>
    obtain ⟨s₁, m', h₁, hm, rfl⟩ := pushAll_snoc_ok h
    obtain ⟨hleft, hlast⟩ := (atEachPush_snoc h₁).mp hapart
    have hvalue : Messages.pushAll (s₁.pushed ++ [(q.1, q.2.read s₁.objects)]) .empty =
        match QueueMessage.merge (s₁.read.pendingAt q.1 q.2.mKey) (q.2.read s₁.objects) with
        | .ok m' => .ok () (s₁.read.place q.1 q.2.mKey m')
        | .error e => .error e s₁.read := Messages.pushAll_snoc (ih hleft h₁)
    rw [hm] at hvalue
    rw [Apart.read_after hlast hm]
    exact hvalue

/-- The messages as they are before all pushes. -/
def reads (objects : DataObjects δ) (pushes : List (String × MessageObject)) :
    List (String × QueueMessage δ) :=
  pushes.map fun p => (p.1, p.2.read objects)

theorem pushedAsWas_iff (h : pushAll pushes (init objects) = .ok () s) :
    PushedAsWas objects pushes ↔ s.pushed = reads objects pushes := by
  induction pushes using List.reverseRecOn generalizing s with
  | nil =>
    cases h
    exact ⟨fun _ => rfl, fun _ before p hp => absurd (List.prefix_nil.mp hp) (by simp)⟩
  | append_singleton pushes q ih =>
    obtain ⟨s₁, m', h₁, _, rfl⟩ := pushAll_snoc_ok h
    refine (atEachPush_snoc h₁).trans ((and_congr_left' (ih h₁)).trans ?_)
    rw [after, reads, reads, List.map_append, List.map_singleton]
    constructor
    · rintro ⟨hleft, hlast⟩
      simp only [hleft, MessageObject.read, hlast]
    · intro heq
      obtain ⟨hleft, hlast⟩ := List.append_inj' heq rfl
      exact ⟨hleft, congrArg (·.2.data) (List.cons.inj hlast).1⟩

/-! ## Every message with a list of its own -/

/-- What is pending was pushed, and only data that were pushed have changed. -/
structure Traced (objects : DataObjects δ) (pushes : List (String × MessageObject))
    (s : SharedBuffer δ) : Prop where
  pending : ∀ rk k m, s.messages.pendingAt rk k = some m → (rk, m) ∈ pushes ∧ k = m.mKey
  unchanged : ∀ r, (∀ p ∈ pushes, p.2.data ≠ r) → s.objects r = objects r

theorem Traced.after (h : Traced objects pushes s) (data : MessageData δ) :
    Traced objects (pushes ++ [q]) (s.after q data) := by
  have hheld : (q.1, s.held q) ∈ pushes ++ [q] ∧ q.2.mKey = (s.held q).mKey := by
    cases ho : s.messages.pendingAt q.1 q.2.mKey with
    | none => simp [held, ho]
    | some m =>
      obtain ⟨hmem, hkey⟩ := h.pending _ _ _ ho
      simp only [held, ho, Option.getD_some]
      exact ⟨List.mem_append_left _ hmem, hkey⟩
  constructor
  · intro rk k m hat
    rw [SharedBuffer.after, Buffer.pendingAt_place] at hat
    split at hat
    · rename_i hk
      cases hat
      rw [hk.1, hk.2]
      exact hheld
    · obtain ⟨hmem, hkey⟩ := h.pending rk k m hat
      exact ⟨List.mem_append_left _ hmem, hkey⟩
  · intro r hr
    have hne : ¬r = (s.held q).data := fun heq => hr _ hheld.1 heq.symm
    rw [after_objects_ne hne]
    exact h.unchanged r fun p hp => hr p (List.mem_append_left _ hp)

theorem pushAll_traced (h : pushAll pushes (init objects) = .ok () s) :
    Traced objects pushes s := by
  induction pushes using List.reverseRecOn generalizing s with
  | nil =>
    cases h
    exact ⟨fun _ _ _ hat => (by cases hat), fun _ _ => rfl⟩
  | append_singleton pushes q ih =>
    obtain ⟨s₁, m', h₁, _, rfl⟩ := pushAll_snoc_ok h
    exact (ih h₁).after _

/-- Where every message has a list of its own, no push extends another's. -/
theorem pushedApart_of_nodup (hnodup : (pushes.map (·.2.data)).Nodup) :
    PushedApart objects pushes ∧ PushedAsWas objects pushes := by
  have hsub : ∀ before p, before ++ [p] <+: pushes →
      ((before ++ [p]).map (·.2.data)).Nodup := fun before p hp =>
    hnodup.sublist (hp.sublist.map _)
  constructor
  · intro before p hp s hs m hat _ rk k m₂ hat₂ hdata
    have htraced := pushAll_traced hs
    obtain ⟨hmem, hkey⟩ := htraced.pending _ _ _ hat
    obtain ⟨hmem₂, hkey₂⟩ := htraced.pending _ _ _ hat₂
    have hbefore : (before.map (·.2.data)).Nodup :=
      hnodup.sublist (((List.sublist_append_left _ _).trans hp.sublist).map _)
    have hsame : (rk, m₂) = (p.1, m) := List.inj_on_of_nodup_map hbefore hmem₂ hmem hdata
    cases hsame
    exact ⟨rfl, hkey₂.trans hkey.symm⟩
  · intro before p hp s hs
    refine (pushAll_traced hs).unchanged _ fun p' hp' heq => ?_
    have hdisjoint := hsub before p hp
    rw [List.map_append, List.nodup_append] at hdisjoint
    exact hdisjoint.2.2 _ (List.mem_map_of_mem hp') _ (by simp) heq

/-- Then objects are as good as values: the pushes return or raise alike, and what is pending
    reads as the values that are. -/
theorem pushAll_values (hnodup : (pushes.map (·.2.data)).Nodup) :
    Messages.pushAll (reads objects pushes) .empty =
      match pushAll pushes (init objects) with
      | .ok _ s => .ok () s.read
      | .error e s => .error e s.read := by
  induction pushes using List.reverseRecOn with
  | nil => rfl
  | append_singleton pushes q ih =>
    have hunshared : PushedApart objects _ ∧ PushedAsWas objects _ := pushedApart_of_nodup hnodup
    obtain ⟨hapart, hwas⟩ := hunshared
    rw [List.map_append] at hnodup
    have hleft := ih hnodup.of_append_left
    have hreads : reads objects (pushes ++ [q]) =
        reads objects pushes ++ [(q.1, q.2.read objects)] := List.map_append
    rw [hreads]
    cases h : pushAll pushes (init objects) with
    | ok u s =>
      rw [h] at hleft
      have hlast := ((atEachPush_snoc h).mp hapart).2
      have hread : q.2.read objects = q.2.read s.objects := by
        simp only [MessageObject.read, ((atEachPush_snoc h).mp hwas).2]
      have hvalue := Messages.pushAll_snoc (q := (q.1, q.2.read objects)) hleft
      rw [pushAll_snoc h, hvalue, hread]
      have hkey : Messages.mKey (q.2.read s.objects) = q.2.mKey := rfl
      simp only [hkey]
      cases hm : QueueMessage.merge (s.read.pendingAt q.1 q.2.mKey) (q.2.read s.objects) with
      | error e => rfl
      | ok m' => exact congrArg (EStateM.Result.ok ()) (Apart.read_after hlast hm).symm
    | error e s =>
      rw [h] at hleft
      rw [Messages.pushAll_append, bind_error hleft, pushAll_append, bind_error h]

/-! ## How much data there is -/

/-- The data of what was pushed under the two keys. -/
def dataUnder (pushed : List (String × QueueMessage δ)) (rk k : String) : List (Datum δ) :=
  (pushed.filter fun p => p.1 = rk ∧ Messages.mKey p.2 = k).flatMap (·.2.data.data)

theorem dataUnder_snoc (pushed : List (String × QueueMessage δ)) (p : String × QueueMessage δ)
    (rk k : String) : dataUnder (pushed ++ [p]) rk k =
      dataUnder pushed rk k ++ if p.1 = rk ∧ Messages.mKey p.2 = k then p.2.data.data else [] := by
  unfold dataUnder
  rw [List.filter_append, List.flatMap_append]
  congr 1
  split <;> simp_all

/-- All that was pushed is pending under its keys, with no less data than was pushed. -/
structure Held (s : SharedBuffer δ) : Prop where
  pending : ∀ rk k m, s.messages.pendingAt rk k = some m →
    (dataUnder s.pushed rk k).length ≤ (s.objects m.data).data.length
  filed : ∀ rk k m, s.messages.pendingAt rk k = some m →
    ∃ p ∈ s.pushed, p.1 = rk ∧ Messages.mKey p.2 = k
  pushed : ∀ p ∈ s.pushed, ∃ m, s.messages.pendingAt p.1 (Messages.mKey p.2) = some m ∧
    m.traceId = p.2.traceId ∧ m.functionName.compared = p.2.functionName.compared

/-- Nothing pending has more data than was pushed under its keys. -/
def Tight (s : SharedBuffer δ) : Prop :=
  ∀ rk k m, s.messages.pendingAt rk k = some m →
    (s.objects m.data).data.length ≤ (dataUnder s.pushed rk k).length

variable {m' : QueueMessage δ}

/-- A merge lengthens the list of the object under the keys, wherever it is referred to. -/
theorem after_length (hm : QueueMessage.merge (s.read.pendingAt q.1 q.2.mKey)
    (q.2.read s.objects) = .ok m') (r : DataRef) :
    ((s.after q m'.data).objects r).data.length = (s.objects r).data.length +
      if (s.messages.pendingAt q.1 q.2.mKey).isSome ∧ r = (s.held q).data
      then (s.objects q.2.data).data.length else 0 := by
  have hdata := QueueMessage.merge_data hm
  by_cases hr : r = (s.held q).data
  · subst hr
    have hlength : ((s.after q m'.data).objects (s.held q).data).data = m'.data.data := by
      simp [after]
    rw [hlength, hdata, List.length_append, read_pendingAt]
    cases ho : s.messages.pendingAt q.1 q.2.mKey <;> simp [held, ho, MessageObject.read]
  · simp [after_objects_ne hr, hr]

theorem Held.dataUnder_nil (h : Held s) {rk k : String}
    (ho : s.messages.pendingAt rk k = none) : dataUnder s.pushed rk k = [] := by
  have hno : (s.pushed.filter fun p => p.1 = rk ∧ Messages.mKey p.2 = k) = [] := by
    refine List.filter_eq_nil_iff.mpr fun p hp hkeys => ?_
    obtain ⟨m, hat, _⟩ := h.pushed p hp
    rw [(of_decide_eq_true hkeys).1, (of_decide_eq_true hkeys).2, ho] at hat
    cases hat
  rw [dataUnder, hno]
  rfl

/-- Under its own keys a push is held as a message of its trace and function. -/
theorem held_told (hm : QueueMessage.merge (s.read.pendingAt q.1 q.2.mKey)
    (q.2.read s.objects) = .ok m') : (s.held q).traceId = q.2.traceId ∧
      (s.held q).functionName.compared = q.2.functionName.compared := by
  cases ho : s.messages.pendingAt q.1 q.2.mKey with
  | none => simp [held, ho]
  | some m =>
    rw [read_pendingAt, ho] at hm
    obtain ⟨_, _, _, _, htrace, hfunction, _⟩ := QueueMessage.iadd_ok hm
    simp only [held, ho, Option.getD_some]
    exact ⟨htrace.symm, hfunction.symm⟩

theorem Held.length_after (h : Held s) (hm : QueueMessage.merge
    (s.read.pendingAt q.1 q.2.mKey) (q.2.read s.objects) = .ok m') {rk k : String}
    {m : MessageObject} (hat : (s.after q m'.data).messages.pendingAt rk k = some m) :
    (dataUnder (s.after q m'.data).pushed rk k).length ≤
      ((s.after q m'.data).objects m.data).data.length := by
  have hlength := after_length hm m.data
  have hunder := congrArg List.length (dataUnder_snoc s.pushed (q.1, q.2.read s.objects) rk k)
  rw [List.length_append] at hunder
  change (dataUnder (s.pushed ++ [(q.1, q.2.read s.objects)]) rk k).length ≤ _
  rw [SharedBuffer.after, Buffer.pendingAt_place] at hat
  by_cases hk : rk = q.1 ∧ k = q.2.mKey
  · rw [if_pos hk, Option.some.injEq] at hat
    obtain ⟨rfl, rfl⟩ := hk
    subst hat
    rw [if_pos ⟨rfl, rfl⟩] at hunder
    cases ho : s.messages.pendingAt q.1 q.2.mKey with
    | none =>
      -- nothing was pushed under these keys before
      rw [h.dataUnder_nil ho] at hunder
      simp only [held, ho, Option.getD_none] at hlength ⊢
      rw [hunder, hlength]
      simp [MessageObject.read]
    | some m =>
      have hold := h.pending _ _ _ ho
      rw [if_pos ⟨by rw [ho]; rfl, rfl⟩] at hlength
      have hheld : (s.held q).data = m.data := by rw [held, ho]; rfl
      rw [hheld] at hlength ⊢
      rw [hunder, hlength]
      exact Nat.add_le_add_right hold _
  · rw [if_neg hk] at hat
    have hold := h.pending _ _ _ hat
    have hne : ¬(q.1 = rk ∧ Messages.mKey (q.2.read s.objects) = k) :=
      fun he => hk ⟨he.1.symm, he.2.symm⟩
    rw [if_neg hne, List.length_nil] at hunder
    omega

theorem Held.after (h : Held s) (hm : QueueMessage.merge (s.read.pendingAt q.1 q.2.mKey)
    (q.2.read s.objects) = .ok m') : Held (s.after q m'.data) := by
  refine ⟨fun _ _ _ hat => h.length_after hm hat, ?_, ?_⟩
  · intro rk k m hat
    rw [SharedBuffer.after, Buffer.pendingAt_place] at hat
    by_cases hk : rk = q.1 ∧ k = q.2.mKey
    · exact ⟨_, List.mem_append_right _ List.mem_cons_self, hk.1.symm, hk.2.symm⟩
    · rw [if_neg hk] at hat
      obtain ⟨p, hp, hkeys⟩ := h.filed rk k m hat
      exact ⟨p, List.mem_append_left _ hp, hkeys⟩
  · intro p hp
    change ∃ m, (s.messages.place q.1 q.2.mKey (s.held q)).pendingAt _ _ = some m ∧ _
    rw [Buffer.pendingAt_place]
    by_cases hk : p.1 = q.1 ∧ Messages.mKey p.2 = q.2.mKey
    · rw [if_pos hk]
      refine ⟨s.held q, rfl, ?_⟩
      rcases List.mem_append.mp hp with hp | hp
      · -- pushed before under the same keys: what is held is what was pending there
        obtain ⟨m, hat, hsame⟩ := h.pushed p hp
        rw [hk.1, hk.2] at hat
        rw [held, hat]
        exact hsame
      · rw [List.mem_singleton.mp hp]
        exact held_told hm
    · rw [if_neg hk]
      rcases List.mem_append.mp hp with hp | hp
      · exact h.pushed p hp
      · rw [List.mem_singleton.mp hp] at hk
        exact absurd ⟨rfl, rfl⟩ hk

theorem pushAll_held (h : pushAll pushes (init objects) = .ok () s) : Held s := by
  induction pushes using List.reverseRecOn generalizing s with
  | nil =>
    cases h
    exact ⟨fun _ _ _ hat => (by cases hat), fun _ _ _ hat => (by cases hat),
      fun _ hp => (by cases hp)⟩
  | append_singleton pushes q ih =>
    obtain ⟨s₁, m', h₁, hm, rfl⟩ := pushAll_snoc_ok h
    exact (ih h₁).after hm

/-- A push that is not apart leaves too much data under some keys, and nothing makes up for
    what is too much already. -/
theorem Tight.before (ht : Tight (s.after q m'.data)) (h : Held s)
    (hm : QueueMessage.merge (s.read.pendingAt q.1 q.2.mKey) (q.2.read s.objects) = .ok m') :
    Tight s ∧ Apart s q := by
  -- the push adds its data to what was pushed under its keys, and to nothing else
  have hunder : ∀ rk k, (dataUnder (s.after q m'.data).pushed rk k).length =
      (dataUnder s.pushed rk k).length +
        if q.1 = rk ∧ q.2.mKey = k then (s.objects q.2.data).data.length else 0 := by
    intro rk k
    rw [SharedBuffer.after, dataUnder_snoc, List.length_append]
    congr 1
    exact apply_ite List.length _ _ _
  constructor
  · intro rk k m hat
    have hlength := after_length hm m.data
    by_cases hk : rk = q.1 ∧ k = q.2.mKey
    · obtain ⟨rfl, rfl⟩ := hk
      have hheld : s.held q = m := by rw [held, hat]; rfl
      have hafter := ht q.1 q.2.mKey m (by
        rw [SharedBuffer.after, Buffer.pendingAt_place, if_pos ⟨rfl, rfl⟩, hheld])
      rw [hunder, if_pos ⟨rfl, rfl⟩, hlength, if_pos ⟨by rw [hat]; rfl, by rw [hheld]⟩] at hafter
      exact Nat.le_of_add_le_add_right hafter
    · have hafter := ht rk k m (by rw [SharedBuffer.after, Buffer.pendingAt_place, if_neg hk, hat])
      rw [hunder, if_neg fun he => hk ⟨he.1.symm, he.2.symm⟩] at hafter
      omega
  · -- another message with this list has more now, and nothing more was pushed under its keys
    intro m hat hdata rk k m₂ hat₂ hsame
    by_contra hk
    have hlength := after_length hm m₂.data
    have hheld : s.held q = m := by rw [held, hat]; rfl
    rw [if_pos ⟨by rw [hat]; rfl, by rw [hheld, hsame]⟩] at hlength
    have hafter := ht rk k m₂ (by rw [SharedBuffer.after, Buffer.pendingAt_place, if_neg hk, hat₂])
    rw [hunder, if_neg fun he => hk ⟨he.1.symm, he.2.symm⟩, hlength] at hafter
    have hold := h.pending rk k m₂ hat₂
    have hnil : (s.objects q.2.data).data = [] := List.eq_nil_of_length_eq_zero (by omega)
    exact hdata (MessageData.data_eq_nil.mp hnil)

theorem pushedApart_of_tight (h : pushAll pushes (init objects) = .ok () s) (ht : Tight s) :
    PushedApart objects pushes := by
  induction pushes using List.reverseRecOn generalizing s with
  | nil => exact fun before p hp => absurd (List.prefix_nil.mp hp) (by simp)
  | append_singleton pushes q ih =>
    obtain ⟨s₁, m', h₁, hm, rfl⟩ := pushAll_snoc_ok h
    obtain ⟨hleft, hlast⟩ := ht.before (pushAll_held h₁) hm
    exact (atEachPush_snoc h₁).mpr ⟨ih h₁ hleft, hlast⟩

/-! ## What was pushed -/

/-- Lists may have new items at their ends. -/
def Grown (objects objects' : DataObjects δ) : Prop :=
  ∀ r, objects' r = objects r ∨
    ∃ xs ys, objects r = .list xs ∧ objects' r = .list (xs ++ ys)

theorem Grown.length_le {objects' : DataObjects δ} (h : Grown objects objects') (r : DataRef) :
    (objects r).data.length ≤ (objects' r).data.length := by
  rcases h r with h | ⟨xs, ys, h, h'⟩
  · exact Nat.le_of_eq (congrArg (·.data.length) h.symm)
  · simp [h, h', MessageData.data]

theorem Grown.eq_of_length_le {objects' : DataObjects δ} (h : Grown objects objects')
    {r : DataRef} (hle : (objects' r).data.length ≤ (objects r).data.length) :
    objects' r = objects r := by
  rcases h r with h | ⟨xs, ys, h, h'⟩
  · exact h
  · rw [h, h'] at hle ⊢
    simp only [MessageData.data, List.length_map, List.length_append] at hle
    have hnil : ys = [] := List.eq_nil_of_length_eq_zero (by omega)
    rw [hnil, List.append_nil]

theorem Grown.after (h : Grown objects s.objects) (hm : QueueMessage.merge
    (s.read.pendingAt q.1 q.2.mKey) (q.2.read s.objects) = .ok m') :
    Grown objects (s.after q m'.data).objects := by
  intro r
  by_cases hr : r = (s.held q).data
  · subst hr
    have hdata : (s.after q m'.data).objects (s.held q).data = m'.data := by simp [SharedBuffer.after]
    rw [hdata]
    rw [read_pendingAt] at hm
    cases ho : s.messages.pendingAt q.1 q.2.mKey with
    | none =>
      rw [ho] at hm
      cases hm
      rw [held, ho]
      exact h q.2.data
    | some m =>
      rw [ho] at hm
      obtain ⟨xs, ys, hxs, _, _, _, rfl⟩ := QueueMessage.iadd_ok hm
      have hold : s.objects m.data = .list xs := hxs
      rw [held, ho]
      rcases h m.data with heq | ⟨xs', ys', heq, heq'⟩
      · exact .inr ⟨xs, ys, heq.symm.trans hold, rfl⟩
      · refine .inr ⟨xs', ys' ++ ys, heq, ?_⟩
        rw [← List.append_assoc, MessageData.list.inj (heq'.symm.trans hold)]
  · rw [after_objects_ne hr]
    exact h r

/-- A message pushed as it was before all pushes, but for new data. -/
def PushedGrown (objects : DataObjects δ) (p : String × MessageObject)
    (l : String × QueueMessage δ) : Prop :=
  ∃ objects', Grown objects objects' ∧ l = (p.1, p.2.read objects')

theorem pushAll_grown (h : pushAll pushes (init objects) = .ok () s) :
    Grown objects s.objects ∧ List.Forall₂ (PushedGrown objects) pushes s.pushed := by
  induction pushes using List.reverseRecOn generalizing s with
  | nil =>
    cases h
    exact ⟨fun r => .inl rfl, .nil⟩
  | append_singleton pushes q ih =>
    obtain ⟨s₁, m', h₁, hm, rfl⟩ := pushAll_snoc_ok h
    obtain ⟨hgrown, hpushed⟩ := ih h₁
    refine ⟨hgrown.after hm, List.rel_append hpushed (.cons ⟨_, hgrown, rfl⟩ .nil)⟩

end

end SharedBuffer

end DddService
