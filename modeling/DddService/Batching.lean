import DddService.SharedMessages
import Mathlib.Data.List.Induction
import Mathlib.Data.List.Perm.Basic

/- Pushing messages to the buffer and publishing them later, beside publishing each at
   once, where no broker operation fails. The buffer merges messages of one routing key,
   trace id and function and keeps the schedule (`started`, `attempt_number`,
   `retry_delay_second`) of the first: every data item is delivered once, but under that
   message's schedule (`deliveries_batched`), and with the items that merges put into its
   list meanwhile. So the two ways deliver the same just when that schedule is each
   message's own, and no merge extends the list of another message (`batching_iff`). -/
namespace DddService
open Hoare SharedBuffer

/-! ## The two ways of publishing -/

/-- A publisher whose broker takes everything. -/
structure CalmPublisher (δ : Type) extends SharedBuffer δ where
  sent : List (String × QueueMessage δ)

namespace CalmPublisher
variable {δ : Type}

def init (objects : DataObjects δ) : CalmPublisher δ := { SharedBuffer.init objects with sent := [] }

/-- `publish_raw_message` and the loop body's `basic_publish` -/
def publishRawMessage (routingKey : String) (message : QueueMessage δ) :
    EStateM Exc (CalmPublisher δ) Unit :=
  modify fun p => { p with sent := p.sent ++ [(routingKey, message)] }

def pushMessage (routingKey : String) (message : MessageObject) (autoPublish : Bool) :
    EStateM Exc (CalmPublisher δ) Unit :=
  if autoPublish then do publishRawMessage routingKey (message.read (← get).objects)
  else fun p => match SharedBuffer.pushMessage routingKey message p.toSharedBuffer with
    | .ok _ s => .ok () { p with toSharedBuffer := s }
    | .error e s => .error e { p with toSharedBuffer := s }

/-- The loop body of `publish_messages`. -/
def publishOne (routingKey key : String) (message : QueueMessage δ) :
    EStateM Exc (CalmPublisher δ) Unit := do
  publishRawMessage routingKey message
  modify fun p => { p with messages := p.messages.popMessage routingKey key }

/-- The loops go through a deep copy. -/
def publishMessages : EStateM Exc (CalmPublisher δ) Unit := do
  let copy := (← get).read
  copy.entries.forM fun (routingKey, messages) =>
    messages.entries.forM fun (key, message) => publishOne routingKey key message
  modify fun p => { p with messages := .empty }

/-- A sequence of `push_message` calls. -/
def pushAll (autoPublish : Bool) (pushes : List (String × MessageObject)) :
    EStateM Exc (CalmPublisher δ) Unit :=
  pushes.forM fun p => pushMessage p.1 p.2 autoPublish

/-- The calls with `auto_publish=False`, then `publish_messages`. -/
def batched (pushes : List (String × MessageObject)) : EStateM Exc (CalmPublisher δ) Unit := do
  pushAll false pushes
  publishMessages

end CalmPublisher

/-! ## Deliveries -/

/-- When and how often a message is to be handled. -/
structure Schedule where
  started : Option DateTime
  attemptNumber : Int
  retryDelaySecond : Int
  deriving DecidableEq, Repr

/-- A function name is told by how it reads, in a message key and in a payload. -/
def FunctionName.told (f : FunctionName) : String × String := (f.text, f.value)

structure Delivery (δ : Type) where
  routingKey : String
  traceId : String
  functionName : String × String
  schedule : Schedule
  datum : Datum δ
  deriving DecidableEq

section
variable {δ : Type}

def QueueMessage.schedule (m : QueueMessage δ) : Schedule :=
  ⟨m.started, m.attemptNumber, m.retryDelaySecond⟩

/-- The data of a message, as delivered under a schedule. -/
def deliver (s : Schedule) (p : String × QueueMessage δ) : List (Delivery δ) :=
  p.2.data.data.map fun x => ⟨p.1, p.2.traceId, p.2.functionName.told, s, x⟩

/-- The data of the messages sent, each under its message's schedule. -/
def deliveries (sent : List (String × QueueMessage δ)) : List (Delivery δ) :=
  sent.flatMap fun p => deliver p.2.schedule p

/-- Whether two messages are pushed under the same routing key and the same message key. -/
def SameKeys (p q : String × QueueMessage δ) : Prop :=
  q.1 = p.1 ∧ Messages.mKey q.2 = Messages.mKey p.2

instance (p q : String × QueueMessage δ) : Decidable (SameKeys p q) :=
  inferInstanceAs (Decidable (_ ∧ _))

/-- The first message pushed under the keys of `p`. -/
def firstLike (pushes : List (String × QueueMessage δ)) (p : String × QueueMessage δ) :
    String × QueueMessage δ :=
  (pushes.find? fun q => SameKeys p q).getD p

/-- Every message that has data has the schedule of the first under its keys. -/
def SchedulesAgree (pushes : List (String × QueueMessage δ)) : Prop :=
  ∀ p ∈ pushes, p.2.data.data ≠ [] → (firstLike pushes p).2.schedule = p.2.schedule

instance (pushes : List (String × QueueMessage δ)) : Decidable (SchedulesAgree pushes) :=
  inferInstanceAs (Decidable (∀ p ∈ pushes, _ → _))

end

/-! ## What a publish sends -/

namespace Messages
open Buffer
variable {δ : Type}

/-- What the inner loop goes through for one routing key. -/
def outgoingOf (e : String × Dict String (QueueMessage δ)) : List (String × QueueMessage δ) :=
  e.2.entries.map fun f => (e.1, f.2)

/-- The pending messages, in the order of the two loops. -/
def outgoing (ms : Messages δ) : List (String × QueueMessage δ) := ms.entries.flatMap outgoingOf

theorem outgoing_place_new {ms : Messages δ} {rk k : String} (h : pendingAt ms rk k = none)
    (m : QueueMessage δ) :
    ∃ l r, outgoing ms = l ++ r ∧ outgoing (ms.place rk k m) = l ++ (rk, m) :: r := by
  cases hg : ms.get? rk with
  | none =>
    refine ⟨outgoing ms, [], (List.append_nil _).symm, ?_⟩
    have hone : ((Dict.empty : Dict String (QueueMessage δ)).set k m).entries = [(k, m)] := rfl
    simp [outgoing, place, hg, Dict.entries_set_new hg, outgoingOf, hone]
  | some inner =>
    have hi : inner.get? k = none := by simpa [pendingAt, hg] using h
    obtain ⟨a, b, hms, hset⟩ := Dict.entries_set_old hg (inner.set k m)
    refine ⟨a.flatMap outgoingOf ++ outgoingOf (rk, inner), b.flatMap outgoingOf, ?_, ?_⟩
    · simp [outgoing, hms]
    · simp [outgoing, place, hg, hset, outgoingOf, Dict.entries_set_new hi]

theorem outgoing_place_old {ms : Messages δ} {rk k : String} {m : QueueMessage δ}
    (h : pendingAt ms rk k = some m) (m' : QueueMessage δ) :
    ∃ l r, outgoing ms = l ++ (rk, m) :: r ∧ outgoing (ms.place rk k m') = l ++ (rk, m') :: r := by
  obtain ⟨inner, hg, hi⟩ := Option.bind_eq_some_iff.mp h
  obtain ⟨a, b, hms, hset⟩ := Dict.entries_set_old hg (inner.set k m')
  obtain ⟨c, d, hinner, hset'⟩ := Dict.entries_set_old hi m'
  refine ⟨a.flatMap outgoingOf ++ c.map fun f => (rk, f.2),
    (d.map fun f => (rk, f.2)) ++ b.flatMap outgoingOf, ?_, ?_⟩
  · simp [outgoing, hms, outgoingOf, hinner]
  · simp [outgoing, place, hg, hset, outgoingOf, hset']

end Messages

namespace CalmPublisher
variable {δ : Type}

theorem publishOne_loop (rk : String) (es : List (String × QueueMessage δ)) (p : CalmPublisher δ) :
    ∃ ms, (es.forM fun f => publishOne rk f.1 f.2) p = .ok ()
      { p with messages := ms, sent := p.sent ++ es.map fun f => (rk, f.2) } := by
  induction es generalizing p with
  | nil => exact ⟨p.messages, by rw [List.map_nil, List.append_nil]; rfl⟩
  | cons f es ih =>
    obtain ⟨ms, hms⟩ := ih { p with
      messages := p.messages.popMessage rk f.1, sent := p.sent ++ [(rk, f.2)] }
    refine ⟨ms, ?_⟩
    rw [List.append_assoc] at hms
    exact bind_ok rfl hms

theorem publishCopy_loop (es : List (String × Dict String (QueueMessage δ))) (p : CalmPublisher δ) :
    ∃ ms, (es.forM fun e => e.2.entries.forM fun f => publishOne e.1 f.1 f.2) p = .ok ()
      { p with messages := ms, sent := p.sent ++ es.flatMap Messages.outgoingOf } := by
  induction es generalizing p with
  | nil => exact ⟨p.messages, by rw [List.flatMap_nil, List.append_nil]; rfl⟩
  | cons e es ih =>
    obtain ⟨ms, hms⟩ := publishOne_loop e.1 e.2.entries p
    obtain ⟨ms', hms'⟩ := ih { p with
      messages := ms, sent := p.sent ++ Messages.outgoingOf e }
    refine ⟨ms', ?_⟩
    rw [List.append_assoc] at hms'
    exact bind_ok hms hms'

theorem publishMessages_run (p : CalmPublisher δ) : publishMessages p = .ok ()
    { p with messages := .empty, sent := p.sent ++ p.read.outgoing } := by
  obtain ⟨ms, hms⟩ := publishCopy_loop p.read.entries p
  exact bind_ok (get_run p) (bind_ok hms rfl)

theorem pushAll_direct (pushes : List (String × MessageObject)) (p : CalmPublisher δ) :
    pushAll true pushes p = .ok () { p with sent := p.sent ++ reads p.objects pushes } := by
  induction pushes generalizing p with
  | nil => exact congrArg (EStateM.Result.ok ()) (by rw [reads, List.map_nil, List.append_nil])
  | cons q pushes ih =>
    have hrest := ih { p with sent := p.sent ++ [(q.1, q.2.read p.objects)] }
    rw [List.append_assoc] at hrest
    exact bind_ok rfl hrest

theorem pushAll_buffer {pushes : List (String × MessageObject)} {p p' : CalmPublisher δ}
    (h : pushAll false pushes p = .ok () p') :
    ∃ s, SharedBuffer.pushAll pushes p.toSharedBuffer = .ok () s ∧
      p' = { p with toSharedBuffer := s } := by
  induction pushes generalizing p with
  | nil => cases h; exact ⟨_, rfl, rfl⟩
  | cons q pushes ih =>
    obtain ⟨_, p₁, h₁, h⟩ := bind_eq_ok h
    change (match SharedBuffer.pushMessage q.1 q.2 p.toSharedBuffer with
      | .ok _ s => EStateM.Result.ok () { p with toSharedBuffer := s }
      | .error e s => .error e { p with toSharedBuffer := s }) = _ at h₁
    cases hs : SharedBuffer.pushMessage q.1 q.2 p.toSharedBuffer with
    | error e s => rw [hs] at h₁; cases h₁
    | ok u s =>
      rw [hs] at h₁
      cases h₁
      obtain ⟨s', hs', rfl⟩ := ih h
      exact ⟨s', bind_ok hs hs', rfl⟩

theorem batched_ok {pushes : List (String × MessageObject)} {objects : DataObjects δ}
    {p : CalmPublisher δ} (h : batched pushes (init objects) = .ok () p) :
    ∃ s, SharedBuffer.pushAll pushes (.init objects) = .ok () s ∧ p.sent = s.read.outgoing := by
  obtain ⟨_, p₁, h₁, h⟩ := bind_eq_ok h
  obtain ⟨s, hs, rfl⟩ := pushAll_buffer h₁
  rw [publishMessages_run] at h
  cases h
  exact ⟨s, hs, List.nil_append _⟩

end CalmPublisher

/-! ## What the buffer holds -/

section
variable {δ : Type} {pushes : List (String × QueueMessage δ)} {ms : Messages δ}
  {q : String × QueueMessage δ} {m' : QueueMessage δ}

theorem deliveries_append (l r : List (String × QueueMessage δ)) :
    deliveries (l ++ r) = deliveries l ++ deliveries r := List.flatMap_append

/-- The buffer after the pushes: under each pair of keys the schedule of the first message
    pushed there, and every message's data under the schedule of the first like it. -/
structure Merged (pushes : List (String × QueueMessage δ)) (ms : Messages δ) : Prop where
  schedules : ∀ rk k, (ms.pendingAt rk k).map QueueMessage.schedule =
    (pushes.find? fun p => p.1 = rk ∧ Messages.mKey p.2 = k).map (·.2.schedule)
  keys : ∀ rk k m, ms.pendingAt rk k = some m → Messages.mKey m = k
  data : (deliveries ms.outgoing).Perm
    (pushes.flatMap fun p => deliver (firstLike pushes p).2.schedule p)

theorem Merged.nil : Merged ([] : List (String × QueueMessage δ)) .empty where
  schedules _ _ := rfl
  keys _ _ _ h := nomatch h
  data := List.Perm.refl _

theorem firstLike_append {p : String × QueueMessage δ} (hp : p ∈ pushes)
    (later : List (String × QueueMessage δ)) :
    firstLike (pushes ++ later) p = firstLike pushes p := by
  have hsome : (pushes.find? fun r => SameKeys p r).isSome = true :=
    List.find?_isSome.mpr ⟨p, hp, by simp [SameKeys]⟩
  obtain ⟨r, hr⟩ := Option.isSome_iff_exists.mp hsome
  simp [firstLike, List.find?_append, hr]

/-- Messages of one trace and one message key have function names that read the same. -/
theorem text_eq {m o : QueueMessage δ} (htrace : o.traceId = m.traceId)
    (hkey : Messages.mKey o = Messages.mKey m) : o.functionName.text = m.functionName.text := by
  rw [Messages.mKey, Messages.mKey, htrace] at hkey
  exact (String.append_right_inj _).mp hkey

/-- A message merged into another is delivered with it, under its schedule. -/
theorem deliver_merged {m : QueueMessage δ} {rk : String}
    (h : m.iadd q.2 = .ok m') (hrk : q.1 = rk) (hkey : Messages.mKey q.2 = Messages.mKey m) :
    m'.schedule = m.schedule ∧
      deliver m.schedule (rk, m') = deliver m.schedule (rk, m) ++ deliver m.schedule q := by
  obtain ⟨xs, ys, hm, hq, htrace, hfunction, rfl⟩ := QueueMessage.iadd_ok h
  have htold : q.2.functionName.told = m.functionName.told :=
    Prod.ext (text_eq htrace hkey) (FunctionName.value_of_compared hfunction)
  refine ⟨rfl, ?_⟩
  simp [deliver, MessageData.data, hm, hq, htrace, htold, hrk]

theorem due_push (pushes : List (String × QueueMessage δ)) (q : String × QueueMessage δ) :
    ((pushes ++ [q]).flatMap fun p => deliver (firstLike (pushes ++ [q]) p).2.schedule p) =
      (pushes.flatMap fun p => deliver (firstLike pushes p).2.schedule p) ++
        deliver (firstLike (pushes ++ [q]) q).2.schedule q := by
  rw [List.flatMap_append, List.flatMap_singleton]
  congr 1
  exact List.flatMap_congr fun p hp => by rw [firstLike_append hp]

theorem Merged.schedules_place (h : Merged pushes ms)
    (hs : some m'.schedule = ((pushes ++ [q]).find? fun p =>
      p.1 = q.1 ∧ Messages.mKey p.2 = Messages.mKey q.2).map (·.2.schedule)) (rk k : String) :
    ((ms.place q.1 (Messages.mKey q.2) m').pendingAt rk k).map QueueMessage.schedule =
      ((pushes ++ [q]).find? fun p => p.1 = rk ∧ Messages.mKey p.2 = k).map (·.2.schedule) := by
  rw [Buffer.pendingAt_place]
  by_cases hk : rk = q.1 ∧ k = Messages.mKey q.2
  · rw [if_pos hk, hk.1, hk.2]
    exact hs
  · have hother : ([q].find? fun p => p.1 = rk ∧ Messages.mKey p.2 = k) = none := by
      refine List.find?_eq_none.mpr fun p hp hkeys => hk ?_
      rw [List.mem_singleton.mp hp, decide_eq_true_eq] at hkeys
      exact ⟨hkeys.1.symm, hkeys.2.symm⟩
    rw [if_neg hk, List.find?_append, hother, Option.or_none]
    exact h.schedules rk k

theorem Merged.keys_place (h : Merged pushes ms) (hkey : Messages.mKey m' = Messages.mKey q.2)
    (rk k : String) (m : QueueMessage δ)
    (hat : (ms.place q.1 (Messages.mKey q.2) m').pendingAt rk k = some m) :
    Messages.mKey m = k := by
  rw [Buffer.pendingAt_place] at hat
  split at hat
  · rename_i hk
    cases hat
    exact hkey.trans hk.2.symm
  · exact h.keys rk k m hat

/-- A message pushed under keys of its own is pending as it is. -/
theorem Merged.push_new (h : Merged pushes ms)
    (ho : ms.pendingAt q.1 (Messages.mKey q.2) = none) :
    Merged (pushes ++ [q]) (ms.place q.1 (Messages.mKey q.2) q.2) := by
  have hold := h.schedules q.1 (Messages.mKey q.2)
  rw [ho] at hold
  have hnone : (pushes.find? fun r => SameKeys q r) = none := Option.map_eq_none_iff.mp hold.symm
  have hfirst : firstLike (pushes ++ [q]) q = q := by
    rw [firstLike, List.find?_append, hnone]
    simp [SameKeys]
  refine ⟨h.schedules_place ?_, h.keys_place rfl, ?_⟩
  · rw [List.find?_append, Option.map_eq_none_iff.mp hold.symm]
    simp
  · obtain ⟨l, r, hms, hplace⟩ := Messages.outgoing_place_new ho q.2
    rw [due_push, hfirst, hplace]
    refine List.Perm.trans ?_ (h.data.append_right _)
    have hq : deliveries ((q.1, q.2) :: r) = deliver q.2.schedule q ++ deliveries r := rfl
    rw [hms, deliveries_append, deliveries_append, hq, List.append_assoc]
    exact List.perm_append_comm.append_left _

/-- A message pushed under keys in use joins the one that is pending there. -/
theorem Merged.push_old (h : Merged pushes ms) {m : QueueMessage δ}
    (ho : ms.pendingAt q.1 (Messages.mKey q.2) = some m) (hm : m.iadd q.2 = .ok m') :
    Merged (pushes ++ [q]) (ms.place q.1 (Messages.mKey q.2) m') := by
  have hold := h.schedules q.1 (Messages.mKey q.2)
  rw [ho] at hold
  have hkey : Messages.mKey m = Messages.mKey q.2 := h.keys _ _ _ ho
  obtain ⟨hs, hd⟩ := deliver_merged hm rfl hkey.symm
  have hkey' : Messages.mKey m' = Messages.mKey m := by
    obtain ⟨_, _, _, _, _, _, rfl⟩ := QueueMessage.iadd_ok hm
    rfl
  obtain ⟨p₀, hp₀, hsched⟩ := Option.map_eq_some_iff.mp hold.symm
  have hfirst : firstLike (pushes ++ [q]) q = p₀ := by
    have hsome : (pushes.find? fun r => SameKeys q r) = some p₀ := hp₀
    simp [firstLike, List.find?_append, hsome]
  refine ⟨h.schedules_place ?_, h.keys_place (hkey'.trans hkey), ?_⟩
  · rw [List.find?_append, hp₀]
    simp [hs, hsched]
  · obtain ⟨l, r, hms, hplace⟩ := Messages.outgoing_place_old ho m'
    rw [due_push, hfirst, hplace, hsched]
    refine List.Perm.trans ?_ (h.data.append_right _)
    have hm₀ : deliveries ((q.1, m) :: r) = deliver m.schedule (q.1, m) ++ deliveries r := rfl
    have hm' : deliveries ((q.1, m') :: r) =
        deliver m.schedule (q.1, m) ++ (deliver m.schedule q ++ deliveries r) := by
      rw [← List.append_assoc, ← hd, ← hs]
      rfl
    rw [hms, deliveries_append, deliveries_append, hm₀, hm', List.append_assoc, List.append_assoc]
    exact (List.perm_append_comm.append_left _).append_left _

theorem Merged.push (h : Merged pushes ms)
    (hm : QueueMessage.merge (ms.pendingAt q.1 (Messages.mKey q.2)) q.2 = .ok m') :
    Merged (pushes ++ [q]) (ms.place q.1 (Messages.mKey q.2) m') := by
  cases ho : ms.pendingAt q.1 (Messages.mKey q.2) with
  | none =>
    rw [ho] at hm
    cases hm
    exact h.push_new ho
  | some m =>
    rw [ho] at hm
    exact h.push_old ho hm

theorem pushAll_merged (h : Messages.pushAll pushes .empty = .ok () ms) : Merged pushes ms := by
  induction pushes using List.reverseRecOn generalizing ms with
  | nil => cases h; exact .nil
  | append_singleton pushes q ih =>
    obtain ⟨ms₁, m', h₁, hm, rfl⟩ := Messages.pushAll_snoc_ok h
    exact (ih h₁).push hm

theorem firstLike_congr {p : String × QueueMessage δ} (h : SameKeys p q) :
    (pushes.find? fun r => SameKeys q r) = pushes.find? fun r => SameKeys p r := by
  refine congrArg (fun like => pushes.find? like) (funext fun r => decide_eq_decide.mpr ?_)
  unfold SameKeys
  rw [h.1, h.2]

/-- Delivering under the schedule of the first like it is delivering each under its own, just
    where the schedules agree. -/
theorem due_perm_iff : (pushes.flatMap fun q => deliver (firstLike pushes q).2.schedule q).Perm
    (deliveries pushes) ↔ SchedulesAgree pushes := by
  constructor
  · intro hperm q hq hdata
    obtain ⟨x, hx⟩ := List.exists_mem_of_ne_nil _ hdata
    have hmem : (⟨q.1, q.2.traceId, q.2.functionName.told, q.2.schedule, x⟩ : Delivery δ) ∈
        deliveries pushes :=
      List.mem_flatMap.mpr ⟨q, hq, List.mem_map.mpr ⟨x, hx, rfl⟩⟩
    -- the item is delivered in a batch whose first message is the first like `q`
    obtain ⟨r, hr, hmem⟩ := List.mem_flatMap.mp (hperm.mem_iff.mpr hmem)
    obtain ⟨y, _, hy⟩ := List.mem_map.mp hmem
    simp only [Delivery.mk.injEq, FunctionName.told, Prod.mk.injEq] at hy
    obtain ⟨hrk, htrace, ⟨htext, _⟩, hschedule, _⟩ := hy
    have hkeys : SameKeys q r := ⟨hrk, by rw [Messages.mKey, Messages.mKey, htrace, htext]⟩
    have hsome : (pushes.find? fun r => SameKeys q r).isSome = true :=
      List.find?_isSome.mpr ⟨q, hq, by simp [SameKeys]⟩
    obtain ⟨p₀, hp₀⟩ := Option.isSome_iff_exists.mp hsome
    rw [← hschedule, firstLike, firstLike, firstLike_congr hkeys, hp₀, Option.getD_some,
      Option.getD_some]
  · intro hagree
    refine List.Perm.of_eq (List.flatMap_congr fun q hq => ?_)
    by_cases hdata : q.2.data.data = []
    · simp [deliver, hdata]
    · rw [hagree q hq hdata]

/-! ## How much is delivered -/

theorem dataUnder_cons (p : String × QueueMessage δ) (sent : List (String × QueueMessage δ))
    (rk k : String) : dataUnder (p :: sent) rk k =
      (if p.1 = rk ∧ Messages.mKey p.2 = k then p.2.data.data else []) ++ dataUnder sent rk k := by
  unfold dataUnder
  rw [List.filter_cons]
  split <;> simp_all

/-- The keys under which an item was sent. -/
def Delivery.keys (d : Delivery δ) : String × String :=
  (d.routingKey, d.traceId ++ "_" ++ d.functionName.1)

theorem countP_deliveries (sent : List (String × QueueMessage δ)) (rk k : String) :
    (deliveries sent).countP (·.keys = (rk, k)) = (dataUnder sent rk k).length := by
  induction sent with
  | nil => rfl
  | cons p sent ih =>
    have hp : (deliver p.2.schedule p).countP (·.keys = (rk, k)) =
        if p.1 = rk ∧ Messages.mKey p.2 = k then p.2.data.data.length else 0 := by
      have hkeys : ∀ d ∈ deliver p.2.schedule p, d.keys = (p.1, Messages.mKey p.2) := by
        intro d hd
        obtain ⟨x, _, rfl⟩ := List.mem_map.mp hd
        rfl
      have hlength : (deliver p.2.schedule p).length = p.2.data.data.length := List.length_map ..
      split
      · rename_i hk
        rw [List.countP_eq_length.mpr, hlength]
        intro d hd
        rw [hkeys d hd, hk.1, hk.2, decide_eq_true_iff]
      · rename_i hk
        refine List.countP_eq_zero.mpr fun d hd heq => hk ?_
        exact Prod.mk.inj ((hkeys d hd).symm.trans (of_decide_eq_true heq))
    have hcons : deliveries (p :: sent) = deliver p.2.schedule p ++ deliveries sent := rfl
    rw [hcons, List.countP_append, ih, hp, dataUnder_cons, List.length_append]
    congr 1
    split <;> rfl

theorem length_le_outgoing {rk k : String} {m : QueueMessage δ} (hat : ms.pendingAt rk k = some m)
    (hkey : Messages.mKey m = k) : m.data.data.length ≤ (dataUnder ms.outgoing rk k).length := by
  obtain ⟨l, r, hms, _⟩ := Messages.outgoing_place_old hat m
  have happend : dataUnder (l ++ (rk, m) :: r) rk k =
      dataUnder l rk k ++ dataUnder ((rk, m) :: r) rk k := by
    simp [dataUnder]
  rw [hms, happend, dataUnder_cons, if_pos ⟨rfl, hkey⟩]
  simp only [List.length_append]
  omega

section
variable {objects : DataObjects δ} {pushed : List (String × QueueMessage δ)}
  {calls : List (String × MessageObject)} {s : SharedBuffer δ}

theorem dataUnder_reads_le (h : List.Forall₂ (PushedGrown objects) calls pushed) (rk k : String) :
    (dataUnder (reads objects calls) rk k).length ≤ (dataUnder pushed rk k).length := by
  induction h with
  | nil => exact Nat.le_refl _
  | @cons p l calls pushed hp _ ih =>
    obtain ⟨objects', hgrown, rfl⟩ := hp
    have hle := hgrown.length_le p.2.data
    change (dataUnder ((p.1, p.2.read objects) :: reads objects calls) rk k).length ≤ _
    rw [dataUnder_cons, dataUnder_cons, List.length_append, List.length_append]
    by_cases hk : p.1 = rk ∧ p.2.mKey = k
    · have hread : p.1 = rk ∧ Messages.mKey (p.2.read objects) = k := hk
      have hread' : p.1 = rk ∧ Messages.mKey (p.2.read objects') = k := hk
      rw [if_pos hread, if_pos hread']
      exact Nat.add_le_add hle ih
    · have hread : ¬(p.1 = rk ∧ Messages.mKey (p.2.read objects) = k) := hk
      have hread' : ¬(p.1 = rk ∧ Messages.mKey (p.2.read objects') = k) := hk
      rw [if_neg hread, if_neg hread']
      exact Nat.add_le_add_left ih _

/-- Where nothing was pushed with more data, everything was pushed as it was. -/
theorem pushed_eq_reads (h : List.Forall₂ (PushedGrown objects) calls pushed)
    (hle : ∀ rk k, (dataUnder pushed rk k).length ≤ (dataUnder (reads objects calls) rk k).length) :
    pushed = reads objects calls := by
  induction h with
  | nil => rfl
  | @cons p l calls pushed hp hrest ih =>
    obtain ⟨objects', hgrown, rfl⟩ := hp
    have hcons : reads objects (p :: calls) = (p.1, p.2.read objects) :: reads objects calls := rfl
    have hread : ∀ o : DataObjects δ, Messages.mKey (p.2.read o) = p.2.mKey := fun _ => rfl
    have hboth : ∀ rk k, (if p.1 = rk ∧ p.2.mKey = k then (objects' p.2.data).data.length else 0) +
        (dataUnder pushed rk k).length ≤
        (if p.1 = rk ∧ p.2.mKey = k then (objects p.2.data).data.length else 0) +
        (dataUnder (reads objects calls) rk k).length := by
      intro rk k
      have hrk := hle rk k
      rw [hcons, dataUnder_cons, dataUnder_cons, List.length_append, List.length_append,
        apply_ite List.length, apply_ite List.length] at hrk
      exact hrk
    have hless := hgrown.length_le p.2.data
    have hown : objects' p.2.data = objects p.2.data := by
      have hat := hboth p.1 p.2.mKey
      have hrest' := dataUnder_reads_le hrest p.1 p.2.mKey
      rw [if_pos ⟨rfl, rfl⟩, if_pos ⟨rfl, rfl⟩] at hat
      exact hgrown.eq_of_length_le (by omega)
    rw [hcons, ih fun rk k => ?_, MessageObject.read, hown]
    · rfl
    · have hat := hboth rk k
      split at hat <;> omega

/-- Deliveries as many as the direct ones leave no room for shared lists. -/
theorem unshared_of_perm (hs : SharedBuffer.pushAll calls (.init objects) = .ok () s)
    (hperm : (deliveries s.read.outgoing).Perm (deliveries (reads objects calls))) :
    PushedApart objects calls ∧ PushedAsWas objects calls := by
  have hheld := pushAll_held hs
  have hgrown := (pushAll_grown hs).2
  have hcount : ∀ rk k, (dataUnder s.read.outgoing rk k).length =
      (dataUnder (reads objects calls) rk k).length := by
    intro rk k
    rw [← countP_deliveries, ← countP_deliveries]
    exact hperm.countP_eq _
  have hsent : ∀ rk k m, s.messages.pendingAt rk k = some m →
      (s.objects m.data).data.length ≤ (dataUnder (reads objects calls) rk k).length := by
    intro rk k m hat
    have hkey := ((pushAll_traced hs).pending rk k m hat).2
    have hread : s.read.pendingAt rk k = some (m.read s.objects) := by
      rw [read_pendingAt, hat]
      rfl
    rw [← hcount]
    exact length_le_outgoing hread hkey.symm
  refine ⟨pushedApart_of_tight hs fun rk k m hat => ?_, (pushedAsWas_iff hs).mpr ?_⟩
  · exact Nat.le_trans (hsent rk k m hat) (dataUnder_reads_le hgrown rk k)
  · refine pushed_eq_reads hgrown fun rk k => ?_
    cases ho : s.messages.pendingAt rk k with
    | none => rw [hheld.dataUnder_nil ho]; exact Nat.zero_le _
    | some m => exact Nat.le_trans (hheld.pending rk k m ho) (hsent rk k m ho)

/-- What the batched way delivers, where no lists are shared: every item once, under the
    schedule of the first message like its own. -/
theorem deliveries_batched (hs : SharedBuffer.pushAll calls (.init objects) = .ok () s)
    (hapart : PushedApart objects calls) (hwas : PushedAsWas objects calls) :
    (deliveries s.read.outgoing).Perm ((reads objects calls).flatMap fun q =>
      deliver (firstLike (reads objects calls) q).2.schedule q) := by
  have hvalues := pushAll_read hapart hs
  rw [(pushedAsWas_iff hs).mp hwas] at hvalues
  exact (pushAll_merged hvalues).data

/-- Batching delivers every data item just as publishing each message at once does, if and
    only if each message with data has the schedule of the first message pushed under its
    routing key, trace id and function, no push extends the list of another pending message,
    and no message has got new data before it is pushed. -/
theorem batching_iff {p : CalmPublisher δ}
    (h : CalmPublisher.batched calls (.init objects) = .ok () p) :
    (deliveries p.sent).Perm
        (deliveries (stateOf (CalmPublisher.pushAll true calls (.init objects))).sent) ↔
      SchedulesAgree (reads objects calls) ∧ PushedApart objects calls ∧
        PushedAsWas objects calls := by
  obtain ⟨s, hs, hsent⟩ := CalmPublisher.batched_ok h
  have hdirect : (stateOf (CalmPublisher.pushAll true calls (.init objects))).sent =
      reads objects calls := by
    rw [CalmPublisher.pushAll_direct]
    rfl
  rw [hsent, hdirect]
  constructor
  · intro hperm
    obtain ⟨hapart, hwas⟩ := unshared_of_perm hs hperm
    have hdue := (deliveries_batched hs hapart hwas).symm.trans hperm
    exact ⟨due_perm_iff.mp hdue, hapart, hwas⟩
  · rintro ⟨hagree, hapart, hwas⟩
    exact (deliveries_batched hs hapart hwas).trans (due_perm_iff.mpr hagree)

end

end

/-! ## Two messages of one function -/

/-- A message whose data are at `r`, to be handled from `started` on. -/
def messageAt (started : Option DateTime) (r : DataRef) : String × MessageObject :=
  ("service", { MessageObject.new "trace" (.str "function") r with started })

/-- Each list has one item. -/
def oneItemEach : DataObjects Nat := fun r => .list [r]

/-- The second message's delay is lost. -/
theorem delayed_message_hurried : ¬(deliveries (stateOf (CalmPublisher.batched
      [messageAt none 1, messageAt (some 10) 2] (.init oneItemEach))).sent).Perm
    (deliveries (stateOf (CalmPublisher.pushAll true
      [messageAt none 1, messageAt (some 10) 2] (.init oneItemEach))).sent) := by
  decide

/-- Two messages of one delay, and one of another function that is to be handled at once. -/
def mixedCalls : List (String × MessageObject) :=
  [messageAt (some 10) 1, ("service", .new "trace" (.str "other") 2), messageAt (some 10) 3]

theorem batching_same_delay : (deliveries (stateOf (CalmPublisher.batched mixedCalls
      (.init oneItemEach))).sent).Perm
    (deliveries (stateOf (CalmPublisher.pushAll true mixedCalls (.init oneItemEach))).sent) :=
  (@batching_iff Nat oneItemEach mixedCalls _ rfl).mpr
    ⟨by decide, pushedApart_of_nodup (by decide)⟩

end DddService
