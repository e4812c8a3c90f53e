import DddService.PartialPublish
import DddService.SharedMessages

/- What the buffer makes of a sequence of pushes. A message is merged with the one pending
   under its message key, which is the text `trace_id + "_" + function_name`; whether the
   two belong together is then asked of the trace ids and the function names themselves,
   and the push raises where they do not. Two different pairs can give the same text, a
   text and an `Enum` member can have the same value, and a member that is a `str` too is
   written as its class and member in the key. And a merge extends the list of the message
   that is pending, which other pending messages may have too. So the buffer is as it should
   be only where no two pushes meet in these ways (`coalescing_iff`). -/
namespace DddService
open Hoare SharedBuffer

/-- Routing key, trace id and function name value. -/
abbrev CoalescingKey := String × String × String

/-- What a push is told by: its routing key, and its message's trace id and function. -/
structure Heading where
  routingKey : String
  traceId : String
  functionName : FunctionName
  deriving DecidableEq

namespace Heading
variable {δ : Type}

def triple (h : Heading) : CoalescingKey := (h.routingKey, h.traceId, h.functionName.value)

/-- The keys that the push goes by. -/
def keys (h : Heading) : String × String :=
  (h.routingKey, h.traceId ++ "_" ++ h.functionName.text)

def ofMessage (p : String × QueueMessage δ) : Heading := ⟨p.1, p.2.traceId, p.2.functionName⟩

def ofObject (p : String × MessageObject) : Heading := ⟨p.1, p.2.traceId, p.2.functionName⟩

end Heading

def Keyed.triple {δ : Type} (x : Keyed δ) : CoalescingKey := (Heading.ofMessage x.outgoing).triple

/-! ## What is asked of the buffer -/

section
variable {δ : Type}

/-- The items of the messages pushed that `like` picks. -/
def itemsOf (pushed : List (String × QueueMessage δ)) (like : Heading → Bool) : List δ :=
  (pushed.filter fun p => like (.ofMessage p)).flatMap (·.2.data.items)

/-- One message for each triple that was pushed, with the data pushed under it. -/
structure Coalesced (pushed : List (String × QueueMessage δ)) (ms : Messages δ) : Prop where
  once : (ms.pending.map Keyed.triple).Nodup
  occurs : ∀ t, t ∈ ms.pending.map Keyed.triple ↔
    t ∈ pushed.map fun p => (Heading.ofMessage p).triple
  data : ∀ x ∈ ms.pending, x.2.2.data = .list (itemsOf pushed (·.triple = x.triple))

/-- The lists as they are before all pushes. -/
def listObjects (lists : DataRef → List δ) : DataObjects δ := fun r => .list (lists r)

/-- No push raises, and the buffer ends as it should. -/
def Faithful (lists : DataRef → List δ) (pushes : List (String × MessageObject)) : Prop :=
  ∃ s, pushAll pushes (init (listObjects lists)) = .ok () s ∧ Coalesced s.pushed s.read

/-- Two pushes go by the same keys just where their triples are the same, and then their
    function names are equal as Python compares them. -/
def KeysTell (headings : List Heading) : Prop :=
  ∀ h ∈ headings, ∀ g ∈ headings, (h.keys = g.keys ↔ h.triple = g.triple) ∧
    (h.keys = g.keys → h.functionName.compared = g.functionName.compared)

instance (headings : List Heading) : Decidable (KeysTell headings) :=
  inferInstanceAs (Decidable (∀ h ∈ headings, ∀ g ∈ headings, _ ∧ _))

/-! ## Headings -/

variable {lists : DataRef → List δ} {objects : DataObjects δ}
  {pushes : List (String × MessageObject)} {s : SharedBuffer δ}

theorem headings_pushed (h : pushAll pushes (init objects) = .ok () s) :
    s.pushed.map Heading.ofMessage = pushes.map Heading.ofObject := by
  induction pushes using List.reverseRecOn generalizing s with
  | nil => cases h; rfl
  | append_singleton pushes q ih =>
    obtain ⟨s₁, m', h₁, _, rfl⟩ := pushAll_snoc_ok h
    rw [after, List.map_append, List.map_append, ih h₁]
    rfl

theorem KeysTell.triple_of_keys {headings : List Heading} (htell : KeysTell headings)
    {h g : Heading} (hh : h ∈ headings) (hg : g ∈ headings) (hk : h.keys = g.keys) :
    h.traceId = g.traceId ∧ h.functionName.compared = g.functionName.compared := by
  obtain ⟨hiff, hcompared⟩ := htell h hh g hg
  exact ⟨congrArg (·.2.1) (hiff.mp hk), hcompared hk⟩

theorem SharedBuffer.Held.triple_eq (h : Held s) {p : String × QueueMessage δ} (hp : p ∈ s.pushed)
    {rk k : String} {m : MessageObject} (hk : (Heading.ofMessage p).keys = (rk, k))
    (hat : s.messages.pendingAt rk k = some m) :
    (Heading.ofObject (rk, m)).triple = (Heading.ofMessage p).triple := by
  obtain ⟨m₀, hat₀, htrace, hcompared⟩ := h.pushed p hp
  obtain ⟨hrk, hkey⟩ := Prod.mk.inj hk
  rw [show p.1 = rk from hrk, show Messages.mKey p.2 = k from hkey, hat,
    Option.some.injEq] at hat₀
  subst hat₀
  simp only [Heading.triple, Heading.ofObject, Heading.ofMessage, htrace,
    FunctionName.value_of_compared hcompared, show p.1 = rk from hrk]

theorem mem_pending_read {rk k : String} {m : MessageObject}
    (hat : s.messages.pendingAt rk k = some m) : (rk, k, m.read s.objects) ∈ s.read.pending :=
  Messages.mem_pending.mpr (by rw [read_pendingAt, hat]; rfl)

theorem exists_of_mem_pending {x : Keyed δ} (hx : x ∈ s.read.pending) :
    ∃ m, s.messages.pendingAt x.1 x.2.1 = some m ∧ x.2.2 = m.read s.objects := by
  have hat := Messages.mem_pending.mp hx
  rw [read_pendingAt, Option.map_eq_some_iff] at hat
  obtain ⟨m, hat, hm⟩ := hat
  exact ⟨m, hat, hm.symm⟩

/-- A push and a pending message: same triple, same keys. -/
theorem SharedBuffer.Held.triple_iff (h : Held s) (htell : KeysTell (s.pushed.map .ofMessage))
    {x : Keyed δ} (hx : x ∈ s.read.pending) {p : String × QueueMessage δ} (hp : p ∈ s.pushed) :
    (Heading.ofMessage p).triple = x.triple ↔ (Heading.ofMessage p).keys = (x.1, x.2.1) := by
  obtain ⟨m, hat, hread⟩ := exists_of_mem_pending hx
  have hx' : x.triple = (Heading.ofObject (x.1, m)).triple := by
    rw [Keyed.triple, Keyed.outgoing, hread]
    rfl
  constructor
  · intro ht
    obtain ⟨p₀, hp₀, hrk, hkey⟩ := h.filed _ _ _ hat
    have hk₀ : (Heading.ofMessage p₀).keys = (x.1, x.2.1) := by rw [← hrk, ← hkey]; rfl
    rw [hx', h.triple_eq hp₀ hk₀ hat] at ht
    rw [← hk₀]
    exact (htell _ (List.mem_map_of_mem hp) _ (List.mem_map_of_mem hp₀)).1.mpr ht
  · intro hk
    rw [hx', h.triple_eq hp hk hat]

/-! ## What the buffer holds -/

/-- Values with list data, grouped by the keys they were pushed with. -/
structure Grouped (pushed : List (String × QueueMessage δ)) (ms : Messages δ) : Prop where
  pending : ∀ rk k m, ms.pendingAt rk k = some m →
    m.data = .list (itemsOf pushed (·.keys = (rk, k)))
  absent : ∀ p ∈ pushed, (ms.pendingAt p.1 (Messages.mKey p.2)).isSome

variable {pushed : List (String × QueueMessage δ)} {ms : Messages δ}
  {q : String × QueueMessage δ}

theorem Grouped.nil : Grouped ([] : List (String × QueueMessage δ)) .empty where
  pending _ _ _ h := nomatch h
  absent _ h := nomatch h

theorem itemsOf_push (pushed : List (String × QueueMessage δ)) (q : String × QueueMessage δ)
    (like : Heading → Bool) : itemsOf (pushed ++ [q]) like =
      itemsOf pushed like ++ if like (.ofMessage q) then q.2.data.items else [] := by
  unfold itemsOf
  rw [List.filter_append, List.flatMap_append]
  congr 1
  cases h : like (.ofMessage q) <;> simp [h]

/-- Under its own keys a push leaves its data after what was pushed there before. -/
theorem Grouped.merged (h : Grouped pushed ms) (hq : ∃ xs, q.2.data = .list xs)
    {m' : QueueMessage δ}
    (hm : QueueMessage.merge (ms.pendingAt q.1 (Messages.mKey q.2)) q.2 = .ok m') :
    m'.data = .list (itemsOf (pushed ++ [q]) (·.keys = (q.1, Messages.mKey q.2))) := by
  have hown : (Heading.ofMessage q).keys = (q.1, Messages.mKey q.2) := rfl
  rw [itemsOf_push, if_pos (decide_eq_true hown)]
  cases ho : ms.pendingAt q.1 (Messages.mKey q.2) with
  | none =>
    rw [ho] at hm
    cases hm
    obtain ⟨xs, hxs⟩ := hq
    have hnone : itemsOf pushed (·.keys = (q.1, Messages.mKey q.2)) = [] := by
      have hno : (pushed.filter fun p =>
          decide ((Heading.ofMessage p).keys = (q.1, Messages.mKey q.2))) = [] := by
        refine List.filter_eq_nil_iff.mpr fun p hp hk => ?_
        obtain ⟨hrk, hkey⟩ := Prod.mk.inj (of_decide_eq_true hk)
        have hat := h.absent p hp
        rw [show p.1 = _ from hrk, show Messages.mKey p.2 = _ from hkey, ho] at hat
        cases hat
      rw [itemsOf, hno]
      rfl
    rw [hnone, hxs]
    rfl
  | some m =>
    rw [ho] at hm
    obtain ⟨xs, ys, hxs, hys, _, _, rfl⟩ := QueueMessage.iadd_ok hm
    have hdata := h.pending _ _ _ ho
    rw [← MessageData.list.inj (hxs.symm.trans hdata), hys]
    rfl

theorem Grouped.push (h : Grouped pushed ms) (hq : ∃ xs, q.2.data = .list xs)
    {m' : QueueMessage δ}
    (hm : QueueMessage.merge (ms.pendingAt q.1 (Messages.mKey q.2)) q.2 = .ok m') :
    Grouped (pushed ++ [q]) (ms.place q.1 (Messages.mKey q.2) m') := by
  constructor
  · intro rk k m hat
    rw [Buffer.pendingAt_place] at hat
    by_cases hk : rk = q.1 ∧ k = Messages.mKey q.2
    · rw [if_pos hk, Option.some.injEq] at hat
      obtain ⟨rfl, rfl⟩ := hk
      subst hat
      exact h.merged hq hm
    · rw [if_neg hk] at hat
      have hne : ¬(Heading.ofMessage q).keys = (rk, k) := fun he =>
        hk (by cases he; exact ⟨rfl, rfl⟩)
      rw [itemsOf_push, if_neg (by simpa using hne), List.append_nil]
      exact h.pending rk k m hat
  · intro p hp
    rw [Buffer.pendingAt_place]
    split
    · rfl
    · rename_i hk
      rcases List.mem_append.mp hp with hp | hp
      · exact h.absent p hp
      · rw [List.mem_singleton.mp hp] at hk
        exact absurd ⟨rfl, rfl⟩ hk

theorem pushAll_grouped (hlists : ∀ p ∈ pushed, ∃ xs, p.2.data = .list xs)
    (h : Messages.pushAll pushed .empty = .ok () ms) : Grouped pushed ms := by
  induction pushed using List.reverseRecOn generalizing ms with
  | nil => cases h; exact .nil
  | append_singleton pushed q ih =>
    obtain ⟨ms₁, m', h₁, hm, rfl⟩ := Messages.pushAll_snoc_ok h
    have hleft := ih (fun p hp => hlists p (List.mem_append_left _ hp)) h₁
    exact hleft.push (hlists q (List.mem_append_right _ List.mem_cons_self)) hm

/-! ## Lists stay lists -/

theorem SharedBuffer.Grown.list {objects' : DataObjects δ} (h : Grown (listObjects lists) objects')
    (r : DataRef) : ∃ xs, objects' r = .list xs := by
  rcases h r with h | ⟨_, _, _, h⟩
  · exact ⟨_, h⟩
  · exact ⟨_, h⟩

theorem pushed_list (h : pushAll pushes (init (listObjects lists)) = .ok () s) :
    ∀ p ∈ s.pushed, ∃ xs, p.2.data = .list xs := by
  intro p hp
  obtain ⟨i, hi, rfl⟩ := List.mem_iff_getElem.mp hp
  have hpushed := (pushAll_grown h).2
  obtain ⟨objects', hgrown, heq⟩ := List.forall₂_iff_get.mp hpushed |>.2 i
    (by rw [hpushed.length_eq]; exact hi) hi
  rw [List.get_eq_getElem, List.get_eq_getElem] at heq
  rw [heq]
  exact hgrown.list _

/-! ## One message for each triple -/

/-- Apart pushes with telling keys leave one message for each triple. -/
theorem SharedBuffer.Held.coalesced (h : Held s) (htell : KeysTell (s.pushed.map .ofMessage))
    (hgrouped : Grouped s.pushed s.read) : Coalesced s.pushed s.read := by
  have htriple : ∀ x ∈ s.read.pending, ∃ p ∈ s.pushed,
      (Heading.ofMessage p).keys = (x.1, x.2.1) ∧ (Heading.ofMessage p).triple = x.triple := by
    intro x hx
    obtain ⟨m, hat, _⟩ := exists_of_mem_pending hx
    obtain ⟨p, hp, hrk, hkey⟩ := h.filed _ _ _ hat
    have hk : (Heading.ofMessage p).keys = (x.1, x.2.1) := by rw [← hrk, ← hkey]; rfl
    exact ⟨p, hp, hk, (h.triple_iff htell hx hp).mpr hk⟩
  refine ⟨?_, fun t => ⟨fun ht => ?_, fun ht => ?_⟩, fun x hx => ?_⟩
  · -- of two pending messages with one triple the keys are the same
    refine List.Nodup.map_on (fun x hx y hy hxy => ?_)
      (List.Nodup.of_map _ s.read.pending_nodup)
    obtain ⟨p, hp, hk, ht⟩ := htriple x hx
    have hk' := (h.triple_iff htell hy hp).mp (ht.trans hxy)
    obtain ⟨hrk, hkey⟩ := Prod.mk.inj (hk.symm.trans hk')
    obtain ⟨rk, k, m⟩ := x
    obtain ⟨rk', k', m'⟩ := y
    cases hrk
    cases hkey
    have hat := (Messages.mem_pending.mp hx).symm.trans (Messages.mem_pending.mp hy)
    rw [Option.some.inj hat]
  · obtain ⟨x, hx, rfl⟩ := List.mem_map.mp ht
    obtain ⟨p, hp, _, ht⟩ := htriple x hx
    exact List.mem_map.mpr ⟨p, hp, ht⟩
  · obtain ⟨p, hp, rfl⟩ := List.mem_map.mp ht
    obtain ⟨m, hat, _⟩ := h.pushed p hp
    have hx := mem_pending_read hat
    exact List.mem_map.mpr ⟨_, hx, ((h.triple_iff htell hx hp).mpr rfl).symm⟩
  · rw [hgrouped.pending _ _ _ (Messages.mem_pending.mp hx), itemsOf, itemsOf]
    congr 2
    exact List.filter_congr fun p hp => decide_eq_decide.mpr (h.triple_iff htell hx hp).symm

/-- In a buffer with one message for each triple, keys tell. -/
theorem SharedBuffer.Held.keysTell (h : Held s) (hcoalesced : Coalesced s.pushed s.read) :
    KeysTell (s.pushed.map .ofMessage) := by
  intro a ha b hb
  obtain ⟨p, hp, rfl⟩ := List.mem_map.mp ha
  obtain ⟨q, hq, rfl⟩ := List.mem_map.mp hb
  obtain ⟨m, hat, htrace, hcompared⟩ := h.pushed p hp
  obtain ⟨m', hat', htrace', hcompared'⟩ := h.pushed q hq
  have hsame : (Heading.ofMessage p).keys = (Heading.ofMessage q).keys → m = m' := by
    intro hk
    obtain ⟨hrk, hkey⟩ := Prod.mk.inj hk
    rw [show p.1 = q.1 from hrk, show Messages.mKey p.2 = _ from hkey] at hat
    exact Option.some.inj (hat.symm.trans hat')
  have hp' := h.triple_eq hp rfl hat
  have hq' := h.triple_eq hq rfl hat'
  refine ⟨⟨fun hk => ?_, fun ht => ?_⟩, fun hk => ?_⟩
  · have hrk : p.1 = q.1 := (Prod.mk.inj hk).1
    rw [← hp', ← hq', hsame hk]
    exact congrArg (fun rk => (Heading.ofObject (rk, m')).triple) hrk
  · -- both have one triple, so they are one pending message
    have hinj := List.inj_on_of_nodup_map hcoalesced.once (mem_pending_read hat)
      (mem_pending_read hat') (hp'.trans (ht.trans hq'.symm))
    exact congrArg (fun x => (x.1, x.2.1)) hinj
  · rw [hsame hk] at hcompared
    exact hcompared.symm.trans hcompared'

theorem SharedBuffer.Held.tight (h : Held s) (hcoalesced : Coalesced s.pushed s.read)
    (hlists : ∀ p ∈ s.pushed, ∃ xs, p.2.data = .list xs) : Tight s := by
  intro rk k m hat
  have hx := mem_pending_read hat
  have hdata : s.objects m.data = _ := hcoalesced.data _ hx
  have hpicked : (s.pushed.filter fun p => decide ((Heading.ofMessage p).triple =
      Keyed.triple (rk, k, m.read s.objects))) =
      s.pushed.filter fun p => p.1 = rk ∧ Messages.mKey p.2 = k := by
    refine List.filter_congr fun p hp => decide_eq_decide.mpr ?_
    rw [h.triple_iff (h.keysTell hcoalesced) hx hp]
    exact Prod.mk.injEq _ _ _ _ ▸ Iff.rfl
  have hlength : ∀ l : List (String × QueueMessage δ),
      (∀ p ∈ l, ∃ xs, p.2.data = .list xs) →
      (l.flatMap (·.2.data.items)).length = (l.flatMap (·.2.data.data)).length := by
    intro l hl
    rw [List.length_flatMap, List.length_flatMap]
    refine congrArg List.sum (List.map_congr_left fun p hp => ?_)
    obtain ⟨xs, hxs⟩ := hl p hp
    simp [hxs, MessageData.items, MessageData.data]
  rw [hdata, dataUnder, ← hlength _ fun p hp => hlists p (List.mem_of_mem_filter hp), itemsOf,
    hpicked]
  simp [MessageData.data]

theorem KeysTell.pushAll_ok (lists : DataRef → List δ) (h : KeysTell (pushes.map .ofObject)) :
    ∃ s, pushAll pushes (init (listObjects lists)) = .ok () s := by
  induction pushes using List.reverseRecOn with
  | nil => exact ⟨_, rfl⟩
  | append_singleton pushes q ih =>
    rw [List.map_append, List.map_singleton] at h
    obtain ⟨s, hs⟩ := ih fun a ha b hb =>
      h a (List.mem_append_left _ ha) b (List.mem_append_left _ hb)
    have hm : ∃ m', QueueMessage.merge (s.read.pendingAt q.1 q.2.mKey) (q.2.read s.objects) =
        .ok m' := by
      rw [read_pendingAt]
      cases ho : s.messages.pendingAt q.1 q.2.mKey with
      | none => exact ⟨_, rfl⟩
      | some m =>
        -- what is pending was pushed under these keys, so its heading is that of a push before
        have hheld := pushAll_held hs
        obtain ⟨p, hp, hrk, hkey⟩ := hheld.filed _ _ _ ho
        obtain ⟨m₀, hat₀, hmtrace, hmcompared⟩ := hheld.pushed p hp
        rw [hrk, hkey, ho, Option.some.injEq] at hat₀
        subst hat₀
        have hp' : Heading.ofMessage p ∈ pushes.map Heading.ofObject := by
          rw [← headings_pushed hs]
          exact List.mem_map_of_mem hp
        have hk : (Heading.ofMessage p).keys = (Heading.ofObject q).keys :=
          Prod.ext hrk hkey
        obtain ⟨htrace, hcompared⟩ := h.triple_of_keys (List.mem_append_left _ hp')
          (List.mem_append_right _ List.mem_cons_self) hk
        obtain ⟨xs, hxs⟩ := (pushAll_grown hs).1.list m.data
        obtain ⟨ys, hys⟩ := (pushAll_grown hs).1.list q.2.data
        exact ⟨_, QueueMessage.iadd_list (htrace.symm.trans hmtrace.symm)
          (hcompared.symm.trans hmcompared.symm) hxs hys⟩
    obtain ⟨m', hm'⟩ := hm
    refine ⟨s.after q m'.data, ?_⟩
    rw [pushAll_snoc hs, hm']

/-- The buffer coalesces the pushes as it should if and only if two of them go by the same
    keys just where their triples are the same (and the names then equal), and no push with
    data extends the list of another pending message. -/
theorem coalescing_iff (lists : DataRef → List δ) (pushes : List (String × MessageObject)) :
    Faithful lists pushes ↔
      KeysTell (pushes.map .ofObject) ∧ PushedApart (listObjects lists) pushes := by
  constructor
  · rintro ⟨s, hs, hcoalesced⟩
    have hheld := pushAll_held hs
    refine ⟨?_, pushedApart_of_tight hs (hheld.tight hcoalesced (pushed_list hs))⟩
    rw [← headings_pushed hs]
    exact hheld.keysTell hcoalesced
  · rintro ⟨htell, hapart⟩
    obtain ⟨s, hs⟩ := htell.pushAll_ok lists
    rw [← headings_pushed hs] at htell
    exact ⟨s, hs, (pushAll_held hs).coalesced htell
      (pushAll_grouped (pushed_list hs) (pushAll_read hapart hs))⟩

/-- One list under two routing keys: what is merged under the first is under both. -/
example : (stateOf (pushAll [("a", .new "t" (.str "f") 0), ("b", .new "t" (.str "f") 0),
    ("a", .new "t" (.str "f") 1)] (init (listObjects fun r => [r])))).read.pending.map
      (fun x => (x.1, x.2.2.data)) = [("a", .list [0, 1]), ("b", .list [0, 1])] := by decide

/-- Trace "a_b" with function "c" and trace "a" with function "b_c", each with a list of its
    own. -/
def clashingPushes : List (String × MessageObject) :=
  [("rk", .new "a_b" (.str "c") 0), ("rk", .new "a" (.str "b_c") 1)]

theorem clashing_push_raises : ¬Faithful (fun r => [r + 1]) clashingPushes := by
  rintro ⟨s, hs, _⟩
  have hraises : raised (pushAll clashingPushes (init (listObjects fun r => [r + 1]))) =
      some (.valueError "trace_id must be same") := by decide
  rw [hs] at hraises
  cases hraises

end

end DddService
