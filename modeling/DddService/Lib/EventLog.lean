import Mathlib.Logic.Function.Basic
import Mathlib.Data.List.Induction

/- Event-sourced stores. A `Machine` accepts some sequences of events (words) and
   refuses others: `next` is partial. A `Store` keeps one machine state for each
   key and the log of every event it took; an event the key's machine refuses is
   not taken.

   What is proved: the state kept for a key is the machine's run over the key's
   own events in log order (`Replays`), whatever the other keys did, so what
   holds of every run of the machine (`Machine.run_induction`) holds of every
   key of every store that grew from the empty one (`Leads`). -/
namespace EventLog
variable {K S E : Type}

/-- A deterministic machine with a partial step. -/
structure Machine (S E : Type) where
  start : S
  next : S → E → Option S

namespace Machine
variable (m : Machine S E)

/-- The state after a word, if the machine takes all of it. -/
def run (s : S) (es : List E) : Option S := es.foldlM m.next s

@[simp] theorem run_nil (s : S) : m.run s [] = some s := rfl

theorem run_append (s : S) (es es' : List E) :
    m.run s (es ++ es') = (m.run s es).bind (fun t => m.run t es') := by
  simp only [run, List.foldlM_append]; rfl

theorem run_snoc {s t t' : S} {es : List E} {e : E} (h : m.run s es = some t)
    (he : m.next t e = some t') : m.run s (es ++ [e]) = some t' := by
  rw [run_append, h]
  simp [run, he]

theorem run_snoc_inv {s t' : S} {es : List E} {e : E} (h : m.run s (es ++ [e]) = some t') :
    ∃ t, m.run s es = some t ∧ m.next t e = some t' := by
  rw [run_append] at h
  cases ht : m.run s es with
  | none => rw [ht] at h; cases h
  | some t =>
    rw [ht] at h
    refine ⟨t, rfl, ?_⟩
    simpa [run] using h

/-- What holds of the empty word and survives each accepted event holds of every
    accepted word and the state it leads to. -/
theorem run_induction {R : List E → S → Prop} (hnil : R [] m.start)
    (hsnoc : ∀ es s e s', R es s → m.next s e = some s' → R (es ++ [e]) s') :
    ∀ es s, m.run m.start es = some s → R es s := by
  intro es
  induction es using List.reverseRecOn with
  | nil => intro s h; cases h; exact hnil
  | append_singleton es e ih =>
    intro s h
    obtain ⟨t, ht, he⟩ := m.run_snoc_inv h
    exact hsnoc es t e s (ih t ht) he

end Machine

/-- One taken event, with the key's state before and after it. -/
structure Entry (K S E : Type) where
  key : K
  event : E
  before : S
  after : S

structure Store (K S E : Type) where
  state : K → S
  log : List (Entry K S E)

namespace Store

def init (m : Machine S E) : Store K S E := ⟨fun _ => m.start, []⟩

variable [DecidableEq K] (m : Machine S E)

/-- The events of one key, in log order. -/
def wordOf (log : List (Entry K S E)) (k : K) : List E :=
  (log.filter (fun e => e.key = k)).map Entry.event

/-- Takes one event, if the key's machine does. -/
def append (st : Store K S E) (k : K) (e : E) : Option (Store K S E) :=
  (m.next (st.state k) e).map fun s =>
    ⟨Function.update st.state k s, st.log ++ [⟨k, e, st.state k, s⟩]⟩

/-- Takes the events in order, or none of them. -/
def appendAll (st : Store K S E) (es : List (K × E)) : Option (Store K S E) :=
  es.foldlM (fun st e => st.append m e.1 e.2) st

variable {m} {st st' st'' : Store K S E}

theorem append_cases {k : K} {e : E} (h : st.append m k e = some st') :
    ∃ s, m.next (st.state k) e = some s ∧ st'.state = Function.update st.state k s ∧
      st'.log = st.log ++ [⟨k, e, st.state k, s⟩] := by
  simp only [append, Option.map_eq_some_iff] at h
  obtain ⟨s, hs, rfl⟩ := h
  exact ⟨s, hs, rfl, rfl⟩

theorem appendAll_append (st : Store K S E) (es es' : List (K × E)) :
    st.appendAll m (es ++ es') = (st.appendAll m es).bind (fun t => t.appendAll m es') := by
  simp only [appendAll, List.foldlM_append]; rfl

theorem appendAll_single (st : Store K S E) (k : K) (e : E) :
    st.appendAll m [(k, e)] = st.append m k e := by
  simp [appendAll]

theorem appendAll_length {es : List (K × E)} (h : st.appendAll m es = some st') :
    st'.log.length = st.log.length + es.length := by
  induction es generalizing st with
  | nil =>
    cases h
    rfl
  | cons e es ih =>
    obtain ⟨t, ht, hes⟩ := Option.bind_eq_some_iff.mp h
    obtain ⟨s, -, -, hlog⟩ := append_cases ht
    rw [ih hes, hlog, List.length_append, List.length_singleton, List.length_cons]
    omega

theorem wordOf_append (log log' : List (Entry K S E)) (k : K) :
    wordOf (log ++ log') k = wordOf log k ++ wordOf log' k := by
  simp [wordOf]

theorem wordOf_single_self (e : E) (k : K) (b a : S) : wordOf [⟨k, e, b, a⟩] k = [e] := by
  simp [wordOf]

theorem wordOf_single_ne {k k' : K} (h : k ≠ k') (e : E) (b a : S) :
    wordOf [⟨k, e, b, a⟩] k' = [] := by
  simp [wordOf, h]

/-! ## Replaying -/

/-- Every key's state is the machine's run over the key's own events. -/
def Replays (m : Machine S E) (st : Store K S E) : Prop :=
  ∀ k, m.run m.start (wordOf st.log k) = some (st.state k)

theorem replays_init : Replays m (init m : Store K S E) := fun _ => rfl

theorem replays_append {k : K} {e : E} (h : Replays m st) (ha : st.append m k e = some st') :
    Replays m st' := by
  obtain ⟨s, hs, hst, hlog⟩ := append_cases ha
  intro k'
  rw [hlog, wordOf_append, hst]
  by_cases hk : k = k'
  · subst hk
    rw [wordOf_single_self, Function.update_self]
    exact m.run_snoc (h k) hs
  · rw [wordOf_single_ne hk, List.append_nil, Function.update_of_ne (Ne.symm hk)]
    exact h k'

/-! ## Growth -/

/-- `st'` is `st` after some more events. -/
def Leads (m : Machine S E) (st st' : Store K S E) : Prop :=
  ∃ es, st.appendAll m es = some st'

theorem Leads.refl (st : Store K S E) : Leads m st st := ⟨[], rfl⟩

theorem Leads.trans (h : Leads m st st') (h' : Leads m st' st'') : Leads m st st'' := by
  obtain ⟨es, he⟩ := h
  obtain ⟨es', he'⟩ := h'
  exact ⟨es ++ es', by rw [appendAll_append, he]; exact he'⟩

theorem Leads.of_appendAll {es : List (K × E)} (h : st.appendAll m es = some st') :
    Leads m st st' := ⟨es, h⟩

/-- What every append preserves, growth preserves. -/
theorem Leads.preserves {I : Store K S E → Prop}
    (hstep : ∀ st st' k e, I st → append m st k e = some st' → I st')
    (h : Leads m st st') (hi : I st) : I st' := by
  obtain ⟨es, he⟩ := h
  induction es generalizing st with
  | nil => cases he; exact hi
  | cons e es ih =>
    obtain ⟨k, e⟩ := e
    change (append m st k e).bind (fun t => t.appendAll m es) = some st' at he
    obtain ⟨t, ht, hrest⟩ := Option.bind_eq_some_iff.mp he
    exact ih (hstep st t k e hi ht) hrest

theorem Leads.replays (h : Leads m (init m) st) : Replays m st :=
  h.preserves (fun _ _ _ _ => replays_append) replays_init

/-- A key's later state is the run of its machine over the key's later events. -/
theorem Leads.run (h : Leads m st st') (k : K) :
    ∃ es, m.run (st.state k) es = some (st'.state k) := by
  refine h.preserves (I := fun t => ∃ es, m.run (st.state k) es = some (t.state k)) ?_ ⟨[], rfl⟩
  intro t t' k' e ⟨es, hes⟩ ha
  obtain ⟨s, hs, hst, _⟩ := append_cases ha
  by_cases hk : k = k'
  · subst hk
    exact ⟨es ++ [e], by rw [hst, Function.update_self]; exact m.run_snoc hes hs⟩
  · exact ⟨es, by rw [hst, Function.update_of_ne hk]; exact hes⟩

/-! ## The log as a history -/

/-- Each entry is a step of its key's machine, from where the key's earlier events had led. -/
def Chained (m : Machine S E) (log : List (Entry K S E)) : Prop :=
  ∀ n e, log[n]? = some e → m.run m.start (wordOf (log.take n) e.key) = some e.before ∧
    m.next e.before e.event = some e.after

/-- What the last entry of a key has led to. -/
def latest (m : Machine S E) (log : List (Entry K S E)) (k : K) : S :=
  ((log.filter (fun e => e.key = k)).getLast?.map Entry.after).getD m.start

theorem Chained.append {k : K} {e : E} (h : Chained m st.log) (hr : Replays m st)
    (ha : st.append m k e = some st') : Chained m st'.log := by
  obtain ⟨s, hs, -, hlog⟩ := append_cases ha
  rw [hlog]
  intro n entry hn
  rcases Nat.lt_or_ge n st.log.length with hlt | hge
  · rw [List.getElem?_append_left hlt] at hn
    rw [List.take_append_of_le_length (Nat.le_of_lt hlt)]
    exact h n entry hn
  · rw [List.getElem?_append_right hge] at hn
    have hlast : n - st.log.length = 0 := by
      have hlt := (List.getElem?_eq_some_iff.mp hn).1
      exact Nat.lt_one_iff.mp hlt
    have hlen : n = st.log.length := Nat.le_antisymm (Nat.sub_eq_zero_iff_le.mp hlast) hge
    rw [hlast] at hn
    cases hn
    rw [hlen, List.take_left]
    exact ⟨hr k, hs⟩

theorem latest_append {k : K} {e : E} (ha : st.append m k e = some st')
    (h : ∀ k, st.state k = latest m st.log k) (k' : K) : st'.state k' = latest m st'.log k' := by
  obtain ⟨s, -, hst, hlog⟩ := append_cases ha
  unfold latest
  rw [hst, hlog, List.filter_append]
  by_cases hk : k = k'
  · subst hk
    rw [Function.update_self]
    simp
  · rw [Function.update_of_ne (Ne.symm hk), h k']
    simp [latest, hk]

theorem Leads.chained (h : Leads m (init m) st) :
    Chained m st.log ∧ ∀ k, st.state k = latest m st.log k := by
  have hboth := h.preserves
    (I := fun t => Replays m t ∧ Chained m t.log ∧ ∀ k, t.state k = latest m t.log k)
    (fun _ _ _ _ hi ha => ⟨replays_append hi.1 ha, hi.2.1.append hi.1 ha, latest_append ha hi.2.2⟩)
    ⟨replays_init, fun n e he => by simp [init] at he, fun _ => rfl⟩
  exact hboth.2

end Store

end EventLog
