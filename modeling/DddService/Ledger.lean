import DddService.Lib.EventLog
import Mathlib.Computability.RegularExpressions

/- What the aggregate store is for, with values `V` and users `D` of any type:
   each id runs one small machine, from its creation through value updates to a
   voiding and a deletion, and the store keeps the log of what was done. The
   events of an id determine its state; the ids do not interact.

   `lifecycle_word`, `replay_value` and `audit_trail` say what every accepted word
   of events looks like, and how the state's history answers to it. -/
namespace DddService.Ledger
open EventLog

/-- A domain event, without its id. -/
inductive Change (V D : Type) where
  | created (value : V) (doer : D)
  | updated (value : V) (doer : D)
  | voided (doer : D)
  | deleted (doer : D)

/-- An entry of an aggregate's history. -/
inductive Record (V D : Type) where
  | created (doer : D)
  | updated (before after : V) (doer : D)
  | voided (doer : D)

structure Aggregate (V D : Type) where
  value : V
  voided : Bool
  history : List (Record V D)
  creator : D

/-- The state of one id. A deleted id is not a new one. -/
inductive Slot (V D : Type) where
  | absent
  | live (a : Aggregate V D)
  | deleted (last : Aggregate V D)

variable {V D : Type}

namespace Aggregate

def create (value : V) (doer : D) : Aggregate V D :=
  ⟨value, false, [.created doer], doer⟩

def update (a : Aggregate V D) (value : V) (doer : D) : Aggregate V D :=
  { a with value := value, history := a.history ++ [.updated a.value value doer] }

def void (a : Aggregate V D) (doer : D) : Aggregate V D :=
  { a with voided := true, history := a.history ++ [.voided doer] }

end Aggregate

/-- The aggregate of an id, if it has one. -/
def Slot.aggregate? : Slot V D → Option (Aggregate V D)
  | .live a => some a
  | _ => none

def next : Slot V D → Change V D → Option (Slot V D)
  | .absent, .created v d => some (.live (.create v d))
  | .live a, .updated v d => if a.voided then none else some (.live (a.update v d))
  | .live a, .voided d => if a.voided then none else some (.live (a.void d))
  | .live a, .deleted _ => some (.deleted a)
  | _, _ => none

def machine (V D : Type) : Machine (Slot V D) (Change V D) := ⟨.absent, next⟩

/-- The store: a slot for each id, and the log. -/
abbrev Store (K V D : Type) := EventLog.Store K (Slot V D) (Change V D)

/-- Inverse of `next`: the five steps there are. -/
theorem next_cases {s s' : Slot V D} {c : Change V D} (h : next s c = some s') :
    (∃ v d, s = .absent ∧ c = .created v d ∧ s' = .live (.create v d)) ∨
    (∃ a v d, s = .live a ∧ a.voided = false ∧ c = .updated v d ∧ s' = .live (a.update v d)) ∨
    (∃ a d, s = .live a ∧ a.voided = false ∧ c = .voided d ∧ s' = .live (a.void d)) ∨
    (∃ a d, s = .live a ∧ c = .deleted d ∧ s' = .deleted a) := by
  cases s with
  | absent =>
    cases c with
    | created v d => cases h; exact Or.inl ⟨v, d, rfl, rfl, rfl⟩
    | updated v d => cases h
    | voided d => cases h
    | deleted d => cases h
  | live a =>
    cases c with
    | created v d => cases h
    | updated v d =>
      cases hv : a.voided with
      | true => simp [next, hv] at h
      | false =>
        simp only [next, hv, Bool.false_eq_true, if_false, Option.some.injEq] at h
        exact Or.inr (Or.inl ⟨a, v, d, rfl, hv, rfl, h.symm⟩)
    | voided d =>
      cases hv : a.voided with
      | true => simp [next, hv] at h
      | false =>
        simp only [next, hv, Bool.false_eq_true, if_false, Option.some.injEq] at h
        exact Or.inr (Or.inr (Or.inl ⟨a, d, rfl, hv, rfl, h.symm⟩))
    | deleted d => cases h; exact Or.inr (Or.inr (Or.inr ⟨a, d, rfl, rfl, rfl⟩))
  | deleted a => cases c <;> cases h

/-! ## The lifecycle -/

/-- `f` of the four kinds of event. -/
def Change.kind {α : Type} (created updated voided deleted : α) : Change V D → α
  | .created .. => created
  | .updated .. => updated
  | .voided _ => voided
  | .deleted _ => deleted

section Lifecycle
variable {α : Type} (c u v d : α)

/-- `created updated* voided? deleted?`, or nothing. -/
def lifecycle : RegularExpression α :=
  1 + .char c * .star (.char u) * (1 + .char v) * (1 + .char d)

theorem mem_lifecycle {n : Nat} {ws ds : List α} (hv : ws = [] ∨ ws = [v]) (hd : ds = [] ∨ ds = [d]) :
    c :: (List.replicate n u ++ ws ++ ds) ∈ (lifecycle c u v d).matches' := by
  have hu : List.replicate n u ∈ (RegularExpression.star (.char u)).matches' := by
    rw [RegularExpression.matches'_star, Language.mem_kstar]
    refine ⟨List.replicate n [u], ?_, ?_⟩
    · simp
    · intro y hy
      rw [List.eq_of_mem_replicate hy]
      rfl
  have opt : ∀ (x : α) (xs : List α), xs = [] ∨ xs = [x] →
      xs ∈ (1 + RegularExpression.char x : RegularExpression α).matches' := by
    intro x xs h
    rcases h with rfl | rfl
    · exact Or.inl rfl
    · exact Or.inr rfl
  have h1 : [c] ++ List.replicate n u ∈
      (RegularExpression.char c * .star (.char u)).matches' :=
    Language.append_mem_mul (by exact rfl) hu
  have h2 := Language.append_mem_mul (Language.append_mem_mul h1 (opt v ws hv)) (opt d ds hd)
  have h3 : [c] ++ List.replicate n u ++ ws ++ ds = c :: (List.replicate n u ++ ws ++ ds) := rfl
  exact (Language.mem_add _ _ _).mpr (Or.inr (h3 ▸ h2))

end Lifecycle

/-- The word an id's state answers to. -/
def Word {α : Type} (c u v d : α) (w : List α) : Slot V D → Prop
  | .absent => w = []
  | .live a => ∃ n, w = c :: (List.replicate n u ++ (if a.voided then [v] else []))
  | .deleted a => ∃ n, w = c :: (List.replicate n u ++ (if a.voided then [v] else []) ++ [d])

section
variable {α : Type} (c u v d : α)

theorem lifecycle_word : ∀ (es : List (Change V D)) (s : Slot V D),
    (machine V D).run .absent es = some s → Word c u v d (es.map (Change.kind c u v d)) s := by
  refine (machine V D).run_induction (R := fun es s => Word c u v d (es.map (Change.kind c u v d)) s)
    rfl ?_
  intro es s e s' hw hn
  rw [List.map_append]
  rcases next_cases hn with ⟨x, y, rfl, rfl, rfl⟩ | ⟨a, x, y, rfl, ha, rfl, rfl⟩ |
    ⟨a, y, rfl, ha, rfl, rfl⟩ | ⟨a, y, rfl, rfl, rfl⟩
  · rw [show es.map (Change.kind c u v d) = [] from hw]
    exact ⟨0, rfl⟩
  · obtain ⟨n, hn⟩ := hw
    refine ⟨n + 1, ?_⟩
    simp [hn, ha, Aggregate.update, Change.kind, List.replicate_succ']
  · obtain ⟨n, hn⟩ := hw
    refine ⟨n, ?_⟩
    simp [hn, ha, Aggregate.void, Change.kind]
  · obtain ⟨n, hn⟩ := hw
    refine ⟨n, ?_⟩
    simp [hn, Change.kind]

theorem Word.mem_lifecycle {w : List α} {s : Slot V D} (h : Word c u v d w s) :
    w ∈ (lifecycle c u v d).matches' := by
  cases s with
  | absent => rw [show w = [] from h]; exact Or.inl rfl
  | live a =>
    obtain ⟨n, rfl⟩ := h
    have h : c :: (List.replicate n u ++ (if a.voided then [v] else []) ++ []) ∈
        (lifecycle c u v d).matches' :=
      Ledger.mem_lifecycle c u v d (by cases a.voided <;> simp) (Or.inl rfl)
    rwa [List.append_nil] at h
  | deleted a =>
    obtain ⟨n, rfl⟩ := h
    exact Ledger.mem_lifecycle c u v d (by cases a.voided <;> simp) (Or.inr rfl)

end

/-- From a voided aggregate the only way on is deletion. -/
theorem voided_next {a : Aggregate V D} (ha : a.voided = true) {e : Change V D} {s : Slot V D}
    (h : next (.live a) e = some s) : s = .deleted a := by
  rcases next_cases h with ⟨_, _, hs, _⟩ | ⟨b, _, _, hs, hb, _⟩ | ⟨b, _, hs, hb, _⟩ |
    ⟨b, _, hs, _, rfl⟩
  · cases hs
  · cases hs; rw [ha] at hb; cases hb
  · cases hs; rw [ha] at hb; cases hb
  · cases hs; rfl

theorem run_cons {s t : Slot V D} {e : Change V D} {es : List (Change V D)}
    (h : (machine V D).run s (e :: es) = some t) :
    ∃ r, next s e = some r ∧ (machine V D).run r es = some t :=
  Option.bind_eq_some_iff.mp h

theorem deleted_run {a : Aggregate V D} {es : List (Change V D)} {s : Slot V D}
    (h : (machine V D).run (.deleted a) es = some s) : s = .deleted a := by
  cases es with
  | nil => cases h; rfl
  | cons e es =>
    obtain ⟨r, hr, _⟩ := run_cons h
    cases e <;> cases hr

theorem absent_run {es : List (Change V D)} {s : Slot V D}
    (h : (machine V D).run s es = some .absent) : s = .absent := by
  rcases List.eq_nil_or_concat' es with rfl | ⟨es, e, rfl⟩
  · exact Option.some.inj h
  · obtain ⟨t, -, hn⟩ := (machine V D).run_snoc_inv h
    rcases next_cases hn with ⟨_, _, _, _, hs⟩ | ⟨_, _, _, _, _, _, hs⟩ | ⟨_, _, _, _, _, hs⟩ |
      ⟨_, _, _, _, hs⟩ <;> cases hs

/-- A voided aggregate stays as it is, until it is deleted. -/
theorem voided_run {a : Aggregate V D} (ha : a.voided = true) {es : List (Change V D)}
    {s : Slot V D} (h : (machine V D).run (.live a) es = some s) :
    s = .live a ∨ s = .deleted a := by
  cases es with
  | nil => cases h; exact Or.inl rfl
  | cons e es =>
    obtain ⟨r, hr, hrest⟩ := run_cons h
    rw [voided_next ha hr] at hrest
    exact Or.inr (deleted_run hrest)

/-! ## Replaying -/

/-- What the events alone say about an id: value, whether voided, and creator. -/
def replayStep : Option (V × Bool × D) → Change V D → Option (V × Bool × D)
  | _, .created v d => some (v, false, d)
  | s, .updated v _ => s.map fun (_, b, d) => (v, b, d)
  | s, .voided _ => s.map fun (v, _, d) => (v, true, d)
  | _, .deleted _ => none

def replay (es : List (Change V D)) : Option (V × Bool × D) := es.foldl replayStep none

theorem replay_value : ∀ (es : List (Change V D)) (s : Slot V D),
    (machine V D).run .absent es = some s →
    replay es = s.aggregate?.map (fun a => (a.value, a.voided, a.creator)) := by
  refine (machine V D).run_induction
    (R := fun es s => replay es = s.aggregate?.map (fun a => (a.value, a.voided, a.creator))) rfl ?_
  intro es s e s' hr hn
  have hsnoc : replay (es ++ [e]) = replayStep (replay es) e := by simp [replay]
  rw [hsnoc, hr]
  rcases next_cases hn with ⟨x, y, rfl, rfl, rfl⟩ | ⟨a, x, y, rfl, ha, rfl, rfl⟩ |
    ⟨a, y, rfl, ha, rfl, rfl⟩ | ⟨a, y, rfl, rfl, rfl⟩ <;> rfl

/-! ## The audit trail -/

/-- The value the events have put in force. -/
def inForce (es : List (Change V D)) : Option V := (replay es).map Prod.fst

/-- `r` is the record of `c`, with `before` in force until then. -/
def RecordOf (before : Option V) : Change V D → Record V D → Prop
  | .created _ d, .created d' => d' = d
  | .updated v d, .updated b a d' => before = some b ∧ a = v ∧ d' = d
  | .voided d, .voided d' => d' = d
  | _, _ => False

/-- Entry `k` of the history is the record of event `k`. -/
def Audited (es : List (Change V D)) (history : List (Record V D)) : Prop :=
  history.length = es.length ∧
    ∀ k c r, es[k]? = some c → history[k]? = some r → RecordOf (inForce (es.take k)) c r

theorem Audited.nil : Audited ([] : List (Change V D)) [] :=
  ⟨rfl, fun k c r h _ => by simp at h⟩

theorem Audited.snoc {es : List (Change V D)} {history : List (Record V D)} {c : Change V D}
    {r : Record V D} (h : Audited es history) (hr : RecordOf (inForce es) c r) :
    Audited (es ++ [c]) (history ++ [r]) := by
  obtain ⟨hlen, hk⟩ := h
  refine ⟨by simp [hlen], ?_⟩
  intro k c' r' hc hr'
  by_cases hlt : k < es.length
  · rw [List.getElem?_append_left hlt] at hc
    rw [List.getElem?_append_left (by omega)] at hr'
    rw [List.take_append_of_le_length (by omega)]
    exact hk k c' r' hc hr'
  · -- the last event and its record
    have hke : k = es.length := by
      have := List.getElem?_eq_some_iff.mp hc
      obtain ⟨hb, _⟩ := this
      simp only [List.length_append, List.length_singleton] at hb
      omega
    subst hke
    have h1 : c' = c := by simpa using hc.symm
    have h2 : r' = r := by rw [← hlen] at hr'; simpa using hr'.symm
    rw [h1, h2, List.take_left']
    · exact hr
    · rfl

/-- What the log says of an id's history: nothing has happened to an absent id, and
    a live one's history answers to its events, with its value in force. -/
def Trail (es : List (Change V D)) : Slot V D → Prop
  | .absent => es = []
  | .live a => Audited es a.history ∧ inForce es = some a.value
  | .deleted _ => True

theorem audit_trail : ∀ (es : List (Change V D)) (s : Slot V D),
    (machine V D).run .absent es = some s → Trail es s := by
  intro es s h
  have hstep : ∀ es s e s', Trail es s ∧ (machine V D).run .absent es = some s →
      (machine V D).next s e = some s' →
      Trail (es ++ [e]) s' ∧ (machine V D).run .absent (es ++ [e]) = some s' := by
    rintro es s e s' ⟨ht, hrun⟩ hn
    have hrun' := (machine V D).run_snoc hrun hn
    refine ⟨?_, hrun'⟩
    have hval := replay_value _ _ hrun'
    rcases next_cases hn with ⟨x, y, rfl, rfl, rfl⟩ | ⟨a, x, y, rfl, ha, rfl, rfl⟩ |
      ⟨a, y, rfl, ha, rfl, rfl⟩ | ⟨a, y, rfl, rfl, rfl⟩
    · rw [show es = [] from ht] at hval ⊢
      exact ⟨Audited.nil.snoc (c := .created x y) (r := .created y) rfl,
        by rw [inForce, hval]; rfl⟩
    · exact ⟨ht.1.snoc ⟨ht.2, rfl, rfl⟩, by rw [inForce, hval]; rfl⟩
    · exact ⟨ht.1.snoc rfl, by rw [inForce, hval]; rfl⟩
    · trivial
  exact ((machine V D).run_induction
    (R := fun es s => Trail es s ∧ (machine V D).run .absent es = some s)
    ⟨rfl, rfl⟩ hstep es s h).1

end DddService.Ledger
