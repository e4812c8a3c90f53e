import DddService.Basic
import DddService.Lib.Dict
import DddService.Lib.Hoare

/- `packages/message_queue`: the message, and the publisher's buffer of pending
   messages. Data items are of any type `δ`.

   Messages are values here, and `+=` makes a new one. In Python it extends the list of the
   message that is pending; `SharedMessages.lean` has messages as objects, and shows that
   values do where every message is made with a list of its own (`pushAll_values`). -/
namespace DddService
open Hoare

/-- `function_name: str | Enum`. A member of a class made as `(str, Enum)` is both. -/
inductive FunctionName where
  | str (s : String)
  | enum (cls member value : String)
  | strEnum (cls member value : String)
  deriving DecidableEq, Repr

namespace FunctionName

/-- What a payload says. -/
def value : FunctionName → String
  | .str s => s
  | .enum _ _ v => v
  | .strEnum _ _ v => v

/-- What `m_key` says: a `str` as an f-string writes it, an `Enum` by its `value`. -/
def text : FunctionName → String
  | .str s => s
  | .enum _ _ v => v
  | .strEnum cls member _ => cls ++ "." ++ member

/-- What `==` goes by: a `str` by its characters, a plain member by itself. -/
def compared : FunctionName → String ⊕ (String × String × String)
  | .str s => .inl s
  | .enum cls member v => .inr (cls, member, v)
  | .strEnum _ _ v => .inl v

/-- Names that are equal as Python compares them are written the same in a payload. -/
theorem value_of_compared {f g : FunctionName} (h : f.compared = g.compared) :
    f.value = g.value := by
  cases f <;> cases g <;> simp_all [compared, value]

end FunctionName

/-- `data: list | dict` -/
inductive MessageData (δ : Type) where
  | list (xs : List δ)
  | dict (d : Dict String δ)
  deriving DecidableEq

/-- The data items, whichever container holds them. -/
def MessageData.items {δ : Type} : MessageData δ → List δ
  | .list xs => xs
  | .dict d => d.entries.map Prod.snd

/-- What a message carries: an item of its list, or its whole dict. -/
inductive Datum (δ : Type) where
  | item (x : δ)
  | whole (d : Dict String δ)
  deriving DecidableEq

def MessageData.data {δ : Type} : MessageData δ → List (Datum δ)
  | .list xs => xs.map .item
  | .dict d => [.whole d]

theorem MessageData.data_eq_nil {δ : Type} {d : MessageData δ} : d.data = [] ↔ d = .list [] := by
  cases d <;> simp [MessageData.data]

structure QueueMessage (δ : Type) where
  traceId : String
  functionName : FunctionName
  data : MessageData δ
  started : Option DateTime
  attemptNumber : Int
  retryDelaySecond : Int
  deriving DecidableEq

namespace QueueMessage
variable {δ : Type}

/-- The constructor with its defaults. -/
def new (traceId : String) (functionName : FunctionName) (data : MessageData δ) : QueueMessage δ :=
  { traceId, functionName, data, started := none, attemptNumber := 3, retryDelaySecond := 3 }

def check (m o : QueueMessage δ) : Except Exc Unit :=
  if o.traceId ≠ m.traceId then .error (.valueError "trace_id must be same")
  else if o.functionName.compared ≠ m.functionName.compared then
    .error (.valueError "function_name must be same")
  else match m.data, o.data with
    | .list _, .list _ | .dict _, .dict _ => .ok ()
    | _, _ => .error (.valueError "data must be same type")

/-- `__iadd__`, as the value that the message has after it. -/
def iadd (m o : QueueMessage δ) : Except Exc (QueueMessage δ) := do
  m.check o
  match m.data, o.data with
  | .list xs, .list ys => pure { m with data := .list (xs ++ ys) }
  | .dict _, _ => .error (.notImplementedError "data of dict type is not supported")
  | _, _ => pure m

/-- Only lists are merged, and only with what the key says is the same message. -/
theorem iadd_ok {m o m' : QueueMessage δ} (h : m.iadd o = .ok m') :
    ∃ xs ys, m.data = .list xs ∧ o.data = .list ys ∧ o.traceId = m.traceId ∧
      o.functionName.compared = m.functionName.compared ∧
      m' = { m with data := .list (xs ++ ys) } := by
  unfold iadd check at h
  split at h
  · cases h
  · rename_i ht
    split at h
    · cases h
    · rename_i hf
      cases hm : m.data with
      | list xs =>
        cases ho : o.data with
        | list ys =>
          rw [hm, ho] at h
          cases h
          exact ⟨xs, ys, rfl, rfl, not_not.mp ht, not_not.mp hf, rfl⟩
        | dict e => rw [hm, ho] at h; cases h
      | dict d => cases ho : o.data <;> rw [hm, ho] at h <;> cases h

theorem iadd_list {m o : QueueMessage δ} {xs ys : List δ} (htrace : o.traceId = m.traceId)
    (hfunction : o.functionName.compared = m.functionName.compared) (hm : m.data = .list xs)
    (ho : o.data = .list ys) : m.iadd o = .ok { m with data := .list (xs ++ ys) } := by
  unfold iadd check
  rw [if_neg (not_not.mpr htrace), if_neg (not_not.mpr hfunction), hm, ho]
  rfl

/-- The message a push leaves under its key, given what was there. -/
def merge (old : Option (QueueMessage δ)) (message : QueueMessage δ) :
    Except Exc (QueueMessage δ) :=
  match old with
  | none => .ok message
  | some m => m.iadd message

theorem iadd_items {m o m' : QueueMessage δ} (h : m.iadd o = .ok m') :
    m'.data.items = m.data.items ++ o.data.items := by
  obtain ⟨xs, ys, hm, ho, _, _, rfl⟩ := iadd_ok h
  rw [hm, ho]
  rfl

theorem merge_data {old : Option (QueueMessage δ)} {message m' : QueueMessage δ}
    (h : merge old message = .ok m') :
    m'.data.data = (old.map (·.data.data)).getD [] ++ message.data.data := by
  cases old with
  | none => cases h; rfl
  | some m =>
    obtain ⟨xs, ys, hm, ho, _, _, rfl⟩ := iadd_ok h
    simp [MessageData.data, hm, ho]

theorem merge_items {old : Option (QueueMessage δ)} {message m' : QueueMessage δ}
    (h : merge old message = .ok m') :
    m'.data.items = (old.map (·.data.items)).getD [] ++ message.data.items := by
  cases old with
  | none => cases h; rfl
  | some m => exact iadd_items h

end QueueMessage

/-- `self.messages`: what is pending by routing key, then by message key. -/
abbrev Buffer (μ : Type) := Dict String (Dict String μ)

namespace Buffer
variable {μ : Type}

/-- What is pending under the two keys. -/
def pendingAt (ms : Buffer μ) (routingKey key : String) : Option μ :=
  (ms.get? routingKey).bind (·.get? key)

/-- The buffer with `m` under the two keys. -/
def place (ms : Buffer μ) (routingKey key : String) (m : μ) : Buffer μ :=
  ms.set routingKey (((ms.get? routingKey).getD .empty).set key m)

theorem pendingAt_place (ms : Buffer μ) (routingKey key : String) (m : μ)
    (rk k : String) : pendingAt (ms.place routingKey key m) rk k =
      if rk = routingKey ∧ k = key then some m else pendingAt ms rk k := by
  by_cases hrk : rk = routingKey
  · subst hrk
    by_cases hk : k = key
    · simp [pendingAt, place, hk]
    · cases hg : ms.get? rk <;> simp [pendingAt, place, hk, hg]
  · simp [pendingAt, place, hrk]

/-- `self.messages[routing_key].pop(m_key)` -/
def popMessage (ms : Buffer μ) (routingKey key : String) : Buffer μ :=
  ms.set routingKey (((ms.get? routingKey).getD .empty).pop key)

theorem pendingAt_pop (ms : Buffer μ) (routingKey key rk k : String) :
    pendingAt (ms.popMessage routingKey key) rk k =
      if rk = routingKey ∧ k = key then none else pendingAt ms rk k := by
  by_cases hrk : rk = routingKey
  · subst hrk
    by_cases hk : k = key
    · simp [pendingAt, popMessage, hk]
    · cases hg : ms.get? rk <;> simp [pendingAt, popMessage, hk, hg]
  · simp [pendingAt, popMessage, hrk]

/-- The buffer with each message read by `f`. -/
def map {ν : Type} (f : μ → ν) (ms : Buffer μ) : Buffer ν := Dict.map (Dict.map f) ms

@[simp] theorem pendingAt_map {ν : Type} (f : μ → ν) (ms : Buffer μ) (rk k : String) :
    pendingAt (ms.map f) rk k = (pendingAt ms rk k).map f := by
  cases h : ms.get? rk <;> simp [pendingAt, map, h]

/-- Placing a message and reading, where all others read as before. -/
theorem map_place {ν : Type} {f g : μ → ν} {ms : Buffer μ} {routingKey key : String} (m : μ)
    (h : ∀ rk k m', pendingAt ms rk k = some m' → ¬(rk = routingKey ∧ k = key) → g m' = f m') :
    (ms.place routingKey key m).map g = (ms.map f).place routingKey key (g m) := by
  have hinner : Dict.map g (((ms.get? routingKey).getD .empty).set key m) =
      (((ms.map f).get? routingKey).getD .empty).set key (g m) := by
    rw [Dict.map_set (f := f) m]
    · cases hrk : ms.get? routingKey with
      | none => simp [map, hrk]; rfl
      | some inner => simp [map, hrk]
    · intro k u hu hk
      cases hrk : ms.get? routingKey with
      | none => simp [hrk] at hu
      | some inner =>
        rw [hrk, Option.getD_some] at hu
        exact h routingKey k u (by simp [pendingAt, hrk, hu]) fun he => hk he.2
  unfold place map
  rw [Dict.map_set (f := Dict.map f) _ ?_, hinner]
  · rfl
  · intro rk inner hrk hne
    refine Dict.map_congr fun k m' hk => h rk k m' ?_ fun he => hne he.1
    simp [pendingAt, hrk, hk]

end Buffer

/-- The pending messages. -/
abbrev Messages (δ : Type) := Buffer (QueueMessage δ)

namespace Messages
open Buffer
variable {δ : Type}

/-- The data items of the pending messages. -/
def items (ms : Messages δ) : List δ :=
  ms.entries.flatMap (fun e => e.2.entries.flatMap (fun f => f.2.data.items))

/-- `m_key` -/
def mKey (message : QueueMessage δ) : String :=
  message.traceId ++ "_" ++ message.functionName.text

/-- `push_message` with `auto_publish=False`, on `self.messages`, of a message with a list of
    its own. -/
def pushMessage (routingKey : String) (message : QueueMessage δ) :
    EStateM Exc (Messages δ) Unit := do
  modify fun ms => if (ms.get? routingKey).isNone then ms.set routingKey .empty else ms
  let ms ← get
  let inner := (ms.get? routingKey).getD .empty
  match inner.get? (mKey message) with
  | none => set (ms.set routingKey (inner.set (mKey message) message))
  | some m => match m.iadd message with
    | .ok m' => set (ms.set routingKey (inner.set (mKey message) m'))
    | .error e => throw e

/-- A push places its message, merged with what is there; a push that raises
    leaves the buffer as it was. -/
theorem pushMessage_run (ms : Messages δ) (routingKey : String) (message : QueueMessage δ) :
    pushMessage routingKey message ms =
      match QueueMessage.merge (pendingAt ms routingKey (mKey message)) message with
      | .ok m' => .ok () (ms.place routingKey (mKey message) m')
      | .error e => .error e ms := by
  have hrun : ∀ ms' : Messages δ,
      ms' = (if (ms.get? routingKey).isNone then ms.set routingKey .empty else ms) →
      pushMessage routingKey message ms =
        match ((ms'.get? routingKey).getD .empty).get? (mKey message) with
        | none => .ok () (place ms' routingKey (mKey message) message)
        | some m => match m.iadd message with
          | .ok m' => .ok () (place ms' routingKey (mKey message) m')
          | .error e => .error e ms' := by
    rintro ms' rfl
    simp only [pushMessage, bind_run, modify_run, get_run]
    generalize (if (ms.get? routingKey).isNone then ms.set routingKey .empty else ms) = ms'
    cases ((ms'.get? routingKey).getD .empty).get? (mKey message) with
    | none => rfl
    | some m => cases h : m.iadd message <;> simp only [h] <;> rfl
  cases hg : ms.get? routingKey with
  | none =>
    have hp : pendingAt ms routingKey (mKey message) = none := by simp [pendingAt, hg]
    rw [hrun (ms.set routingKey .empty) (by simp [hg]), hp]
    simp [place, hg, Dict.set_set, QueueMessage.merge]
  | some inner =>
    have hp : pendingAt ms routingKey (mKey message) = inner.get? (mKey message) := by
      simp [pendingAt, hg]
    rw [hrun ms (by simp [hg]), hp, hg, Option.getD_some]
    cases hk : inner.get? (mKey message) with
    | none => rfl
    | some m => cases h : m.iadd message <;> simp only [QueueMessage.merge, h]

theorem mem_items {ms : Messages δ} {x : δ} :
    x ∈ items ms ↔ ∃ rk k m, pendingAt ms rk k = some m ∧ x ∈ m.data.items := by
  simp only [items, List.mem_flatMap, Prod.exists, Dict.mem_entries_iff, pendingAt,
    Option.bind_eq_some_iff]
  constructor
  · rintro ⟨rk, inner, h, k, m, h', hx⟩
    exact ⟨rk, k, m, ⟨inner, h, h'⟩, hx⟩
  · rintro ⟨rk, k, m, ⟨inner, h, h'⟩, hx⟩
    exact ⟨rk, inner, h, k, m, h', hx⟩

theorem mem_items_push {ms ms' : Messages δ} {routingKey : String} {message : QueueMessage δ}
    (h : pushMessage routingKey message ms = .ok () ms') (x : δ) :
    x ∈ items ms' ↔ x ∈ items ms ∨ x ∈ message.data.items := by
  rw [pushMessage_run] at h
  cases hm : QueueMessage.merge (pendingAt ms routingKey (mKey message)) message with
  | error e => rw [hm] at h; cases h
  | ok m' =>
    rw [hm] at h
    cases h
    have hitems := QueueMessage.merge_items hm
    rw [mem_items, mem_items]
    constructor
    · rintro ⟨rk, k, m, hk, hx⟩
      rw [pendingAt_place] at hk
      split at hk
      · cases hk
        rw [hitems, List.mem_append] at hx
        refine hx.imp (fun hx => ?_) id
        cases ho : pendingAt ms routingKey (mKey message) with
        | none => rw [ho] at hx; cases hx
        | some m₀ => rw [ho] at hx; exact ⟨_, _, m₀, ho, hx⟩
      · exact Or.inl ⟨rk, k, m, hk, hx⟩
    · have hplaced : pendingAt (ms.place routingKey (mKey message) m') routingKey (mKey message) =
          some m' := by rw [pendingAt_place, if_pos ⟨rfl, rfl⟩]
      rintro (⟨rk, k, m, hk, hx⟩ | hx)
      · by_cases he : rk = routingKey ∧ k = mKey message
        · refine ⟨_, _, m', hplaced, ?_⟩
          rw [he.1, he.2] at hk
          rw [hitems, hk]
          exact List.mem_append_left _ hx
        · exact ⟨rk, k, m, by rw [pendingAt_place, if_neg he]; exact hk, hx⟩
      · exact ⟨_, _, m', hplaced, by rw [hitems]; exact List.mem_append_right _ hx⟩

/-- A sequence of `push_message` calls. -/
def pushAll (pushes : List (String × QueueMessage δ)) : EStateM Exc (Messages δ) Unit :=
  pushes.forM fun p => pushMessage p.1 p.2

theorem pushAll_append (pushes later : List (String × QueueMessage δ)) :
    pushAll (pushes ++ later) = pushAll pushes >>= fun _ => pushAll later := by
  unfold pushAll
  simp only [List.forM_eq_forM]
  exact List.forM_append

theorem pushAll_snoc {pushes : List (String × QueueMessage δ)} {q : String × QueueMessage δ}
    {ms : Messages δ} (h : pushAll pushes .empty = .ok () ms) :
    pushAll (pushes ++ [q]) .empty =
      match QueueMessage.merge (pendingAt ms q.1 (mKey q.2)) q.2 with
      | .ok m' => .ok () (ms.place q.1 (mKey q.2) m')
      | .error e => .error e ms := by
  rw [pushAll_append]
  refine bind_ok h ?_
  show (pushMessage q.1 q.2 >>= fun _ => pure ()) ms = _
  rw [bind_run, pushMessage_run]
  cases QueueMessage.merge (pendingAt ms q.1 (mKey q.2)) q.2 <;> rfl

/-- The last of the pushes that returned. -/
theorem pushAll_snoc_ok {pushes : List (String × QueueMessage δ)} {q : String × QueueMessage δ}
    {ms : Messages δ} (h : pushAll (pushes ++ [q]) .empty = .ok () ms) :
    ∃ ms₁ m', pushAll pushes .empty = .ok () ms₁ ∧
      QueueMessage.merge (pendingAt ms₁ q.1 (mKey q.2)) q.2 = .ok m' ∧
      ms = ms₁.place q.1 (mKey q.2) m' := by
  obtain ⟨_, ms₁, h₁, _⟩ := bind_eq_ok ((congrFun (pushAll_append pushes [q]) _).symm.trans h)
  rw [pushAll_snoc h₁] at h
  cases hm : QueueMessage.merge (pendingAt ms₁ q.1 (mKey q.2)) q.2 with
  | error e => rw [hm] at h; cases h
  | ok m' =>
    rw [hm] at h
    cases h
    exact ⟨ms₁, m', h₁, hm, rfl⟩

end Messages

end DddService
