import DddService.Forest

/- One call, one trace. The controller gives its use case the call's trace id once; the
   first save takes it, and the events of later saves start traces of their own. The rows
   of a call thus have one trace id exactly when one of them at most is a root
   (`one_trace_iff_roots`), and a call that returns has stored a root for each request. -/
namespace DddService
open Hoare Coroutine Lineage Causality

/-- The trace ids that the requests of a command carry. -/
def Call.traceIds : Call → List (Option String)
  | .create rs => rs.map (·.traceId)
  | .update rs => rs.map (·.traceId)
  | .void rs => rs.map (·.traceId)
  | .delete rs => rs.map (·.traceId)
  | .get _ | .newContext _ => []

/-- The rows that the call added to the table of events. -/
def Call.newRows (env : Env) (c : Call) (w : World) : List DomainEventModel :=
  (stateOf (c.run env w)).db.domainEvent.drop w.db.domainEvent.length

/-! ## Roots and traces -/

section
variable {trace : String} {rows : List Stored}

theorem countP_isRoot_snoc (rows : List Stored) (x : Stored) :
    (rows ++ [x]).countP Stored.isRoot = rows.countP Stored.isRoot + if x.isRoot then 1 else 0 := by
  rw [List.countP_append, List.countP_singleton]

theorem has_root (h : Grown (Placed trace) rows) (hne : rows ≠ []) :
    1 ≤ rows.countP Stored.isRoot := by
  revert hne
  refine h.induction (I := fun rows => rows ≠ [] → 1 ≤ rows.countP Stored.isRoot)
    (fun hne => absurd rfl hne) fun pre x _ hx ih _ => ?_
  rw [countP_isRoot_snoc]
  by_cases hpre : pre = []
  · have hroot : x.isRoot = true := by
      cases hh : x.handled with
      | none => simp [Stored.isRoot, hh]
      | some e =>
        obtain ⟨y, hy, _⟩ := hx.child e hh
        rw [hpre] at hy
        cases hy
    rw [if_pos hroot]
    omega
  · have := ih hpre
    omega

theorem one_trace (h : Grown (Placed trace) rows) :
    rows.countP Stored.isRoot ≤ 1 → ∀ x ∈ rows, x.row.traceId = trace := by
  refine h.induction (I := fun rows => rows.countP Stored.isRoot ≤ 1 →
    ∀ x ∈ rows, x.row.traceId = trace) (by simp) fun pre x hpre hx ih hcount => ?_
  rw [countP_isRoot_snoc] at hcount
  have hold : ∀ y ∈ pre, y.row.traceId = trace := ih (by omega)
  intro y hy
  rcases List.mem_append.mp hy with hy | hy
  · exact hold y hy
  · rw [List.mem_singleton.mp hy]
    cases hh : x.handled with
    | none =>
      -- a second root would be one too many
      have hnil : pre = [] := by
        by_contra hne
        have hroot := has_root hpre hne
        have hx' : x.isRoot = true := by simp [Stored.isRoot, hh]
        rw [if_pos hx'] at hcount
        omega
      rw [(hx.root hh).2, if_pos hnil]
    | some e =>
      obtain ⟨z, hz, _, htrace⟩ := hx.child e hh
      rw [htrace]
      exact hold z hz

theorem second_trace (h : Grown (Placed trace) rows) :
    2 ≤ rows.countP Stored.isRoot → ∃ x ∈ rows, x.row.traceId = x.row.spanId := by
  refine h.induction (I := fun rows => 2 ≤ rows.countP Stored.isRoot →
    ∃ x ∈ rows, x.row.traceId = x.row.spanId) (by simp) fun pre x _ hx ih hcount => ?_
  rw [countP_isRoot_snoc] at hcount
  by_cases hroot : x.isRoot = true
  · refine ⟨x, List.mem_append_right _ (List.mem_singleton_self x), ?_⟩
    rw [if_pos hroot] at hcount
    have hne : pre ≠ [] := by
      rintro rfl
      simp at hcount
    have hh : x.handled = none := Option.isNone_iff_eq_none.mp hroot
    rw [(hx.root hh).2, if_neg hne]
  · rw [if_neg hroot] at hcount
    obtain ⟨y, hy, htrace⟩ := ih (by omega)
    exact ⟨y, List.mem_append_left _ hy, htrace⟩

theorem first_trace (h : Grown (Placed trace) rows) (hne : rows ≠ []) :
    ∃ x ∈ rows, x.row.traceId = trace := by
  obtain ⟨x, post, hrows⟩ := List.exists_cons_of_ne_nil hne
  have hx : Placed trace [] x := h [] x post hrows
  refine ⟨x, by rw [hrows]; exact List.mem_cons_self, ?_⟩
  cases hh : x.handled with
  | none => rw [(hx.root hh).2, if_pos rfl]
  | some e =>
    obtain ⟨y, hy, _⟩ := hx.child e hh
    cases hy

end

/-! ## Calls -/

section
variable {env : Env} {w : World} {c : Call} {t : String} {n : Nat}

theorem Call.traceId_eq (hn : 1 ≤ n) (hc : c.traceIds = List.replicate n (some t)) :
    c.traceId = some t ∧ c.requests = n := by
  have hall : ∀ {ρ : Type} {rs : List ρ} {f : ρ → Option String},
      rs.map f = List.replicate n (some t) → rs.head?.bind f = some t ∧ rs.length = n := by
    intro ρ rs f hrs
    have hlen : rs.length = n := by
      have := congrArg List.length hrs
      simpa using this
    cases rs with
    | nil =>
      rw [List.length_nil] at hlen
      omega
    | cons r rs =>
      refine ⟨?_, hlen⟩
      have hmem : f r ∈ List.replicate n (some t) := by
        rw [← hrs]
        exact List.mem_cons_self
      exact List.eq_of_mem_replicate hmem
  have hnone : [] ≠ List.replicate n (some t) := by
    intro h
    have := congrArg List.length h
    rw [List.length_replicate, List.length_nil] at this
    omega
  cases c with
  | create rs => exact hall hc
  | update rs => exact hall hc
  | void rs => exact hall hc
  | delete rs => exact hall hc
  | get r => exact absurd hc hnone
  | newContext traceId => exact absurd hc hnone

theorem Call.newRows_eq (h : Quiescent w) :
    c.newRows env w = (c.committed env w).map (·.row) := by
  unfold Call.newRows
  rw [Call.table c h, List.drop_left]

theorem Call.committed_roots (h : Quiescent w) {w' : World} (hr : c.run env w = .ok () w') :
    (c.committed env w).countP Stored.isRoot = c.requests := by
  obtain ⟨s, hworld, hstored, _, hret, _⟩ := Call.ends env c h
  have hreturned := hret w' hr
  have hcommitted := hreturned.committed
  have hroots := hreturned.roots
  rw [hstored] at hcommitted hroots
  rw [hworld] at hcommitted
  unfold Call.committed
  by_cases hsame : (stateOf (c.run env w)).db.domainEvent = w.db.domainEvent
  · have hnil : c.stored env w = [] := by
      have hlength := congrArg List.length (hcommitted.symm.trans hsame)
      rw [List.length_append, List.length_map] at hlength
      change w.db.domainEvent.length + _ = w.db.domainEvent.length at hlength
      exact List.eq_nil_of_length_eq_zero (by omega)
    rw [if_pos hsame, ← hnil]
    exact hroots
  · rw [if_neg hsame]
    exact hroots

theorem Call.committed_budget (h : Quiescent w) :
    (c.committed env w).countP Stored.isRoot ≤ c.requests := by
  obtain ⟨s, _, hstored, hend, _⟩ := Call.ends env c h
  rcases Call.committed_cases env w c with hc | hc
  · rw [hc]
    exact Nat.zero_le _
  · rw [hc, ← hstored]
    exact hend.budget

theorem Call.committed_spans (h : Quiescent w) :
    ∀ x ∈ c.committed env w, ∃ k, w.drawn .span ≤ k ∧ x.row.spanId = env.uuid4 .span k := by
  obtain ⟨s, _, hstored, hend, _⟩ := Call.ends env c h
  intro x hx
  rcases Call.committed_cases env w c with hc | hc
  · rw [hc] at hx
    cases hx
  · rw [hc, ← hstored] at hx
    obtain ⟨k, hk, _, hspan⟩ := hend.spans x.row (List.mem_map_of_mem hx)
    exact ⟨k, hk, hspan⟩

theorem Call.newRows_exception (h : Quiescent w) {e : Exc} {w' : World}
    (hr : c.run env w = .error e w') (he : e.isException = true) : c.newRows env w = [] := by
  have hdb : (stateOf (c.run env w)).db = w.db := by
    cases hm : c.method env with
    | none =>
      cases c with
      | newContext traceId =>
        obtain ⟨t, drawn, _, hrun⟩ := Call.newContext_run env traceId w
        rw [hrun]
      | _ => cases hm
    | some m =>
      rw [hr]
      exact connectDbSession_exception env m.traceId (Body.method env hm) h.count
        (Call.run_error hm hr) he
  unfold Call.newRows
  rw [hdb]
  exact List.drop_length

theorem Call.newRows_parentless (h : Quiescent w) :
    (c.newRows env w).countP (·.parentSpanId.isNone) = (c.committed env w).countP Stored.isRoot := by
  have hforest := CausalForest.of_grown (Call.committed_grown env c h)
  rw [Call.newRows_eq h, List.countP_map]
  apply List.countP_congr
  intro x hx
  have hroot := hforest.root x hx
  simp only [Function.comp_apply, Stored.isRoot, Option.isNone_iff_eq_none]
  exact hroot

/-- The rows of a command have the one trace id it carries if there is a trace id to carry,
    and one root at most. -/
theorem one_trace_iff_roots (h : Quiescent w) (hn : 1 ≤ n)
    (hc : c.traceIds = List.replicate n (some t))
    (hfresh : ∀ k, w.drawn .span ≤ k → env.uuid4 .span k ≠ t) :
    (∀ row ∈ c.newRows env w, row.traceId = t) ↔
      c.newRows env w = [] ∨ (t ≠ "" ∧ (c.newRows env w).countP (·.parentSpanId.isNone) ≤ 1) := by
  have hgrown := Call.committed_grown env c h
  obtain ⟨htrace, _⟩ := Call.traceId_eq hn hc
  let trace := (Opening.ofCall env c w).trace
  have hsame : t ≠ "" → trace = t := by
    intro ht
    show ControllerBase.traceFor env c.traceId w = t
    unfold ControllerBase.traceFor
    rw [htrace]
    exact if_neg ht
  rw [Call.newRows_parentless h, Call.newRows_eq h, List.map_eq_nil_iff]
  constructor
  · -- an empty id and a second root both make a row with a trace id of its own
    intro hall
    by_cases hnil : c.committed env w = []
    · exact Or.inl hnil
    · refine Or.inr ⟨?_, ?_⟩
      · obtain ⟨x, hx, hfirst⟩ := first_trace hgrown hnil
        intro ht
        have hx' := hall x.row (List.mem_map_of_mem hx)
        rw [hfirst, ht] at hx'
        exact (Opening.ofCall env c w).trace_ne hx'
      · by_contra hmany
        obtain ⟨x, hx, hown⟩ := second_trace hgrown (by omega)
        have hx' := hall x.row (List.mem_map_of_mem hx)
        obtain ⟨k, hk, hspan⟩ := Call.committed_spans h x hx
        exact hfresh k hk (hspan.symm.trans (hown.symm.trans hx'))
  · rintro (hnil | ⟨ht, hroots⟩) row hrow
    · rw [hnil] at hrow
      cases hrow
    · obtain ⟨x, hx, rfl⟩ := List.mem_map.mp hrow
      exact (one_trace hgrown hroots x hx).trans (hsame ht)

end

/-- A command that returns has given all its events the trace id its requests carry if and
    only if it is one request, and that id is not empty. One request alone cannot go wrong,
    and a command that raises an `Exception` stores nothing. Whatever else ends a command,
    its events have one trace id just when at most one of them has no parent. -/
theorem one_trace_iff (env : Env) (db : Database) (faults : List (Option Exc)) (calls : List Call)
    {c : Call} {t : String} {n : Nat} (hn : 1 ≤ n)
    (hc : c.traceIds = List.replicate n (some t))
    (hfresh : ∀ k, (runCalls env (World.start db faults) calls).drawn .span ≤ k →
      env.uuid4 .span k ≠ t) :
    let w := runCalls env (World.start db faults) calls
    (∀ w', c.run env w = .ok () w' →
      ((∀ row ∈ c.newRows env w, row.traceId = t) ↔ n = 1 ∧ t ≠ "")) ∧
    (n = 1 → t ≠ "" → ∀ row ∈ c.newRows env w, row.traceId = t) ∧
    (∀ e w', c.run env w = .error e w' → e.isException = true → c.newRows env w = []) ∧
    ((∀ row ∈ c.newRows env w, row.traceId = t) ↔ c.newRows env w = [] ∨
      (t ≠ "" ∧ (c.newRows env w).countP (·.parentSpanId.isNone) ≤ 1)) := by
  have h : Quiescent (runCalls env (World.start db faults) calls) :=
    (Quiescent.start db faults).run calls
  have hiff := one_trace_iff_roots h hn hc hfresh
  have hrequests := (Call.traceId_eq hn hc).2
  refine ⟨fun w' hr => ?_, fun hone ht => ?_, fun e w' hr he => ?_, hiff⟩
  · have hroots := Call.committed_roots h hr
    rw [hiff, Call.newRows_parentless h, hroots, hrequests, Call.newRows_eq h, List.map_eq_nil_iff]
    constructor
    · rintro (hnil | ⟨ht, hle⟩)
      · rw [hnil] at hroots
        change 0 = c.requests at hroots
        omega
      · exact ⟨by omega, ht⟩
    · rintro ⟨hone, ht⟩
      exact Or.inr ⟨ht, by omega⟩
  · rw [hiff, Call.newRows_parentless h]
    have hbudget := @Call.committed_budget env _ c h
    exact Or.inr ⟨ht, by omega⟩
  · exact Call.newRows_exception h hr he

/-- A call that creates two aggregates. -/
def Call.createTwo : Call :=
  let doer : User := ⟨none, none, none, none, none⟩
  .create [⟨doer, some "trace", ⟨"first", 1⟩⟩, ⟨doer, some "trace", ⟨"second", 2⟩⟩]

/-- The second of two creations in one call starts a trace of its own. -/
theorem second_creation_own_trace :
    ¬∀ row ∈ Call.createTwo.newRows .plain (World.init []), row.traceId = "trace" := by
  decide +kernel

/-- With one creation, its event and its handler's event have the trace id of the request. -/
theorem one_trace_created :
    (∀ row ∈ Call.createOne.newRows .plain (World.init []), row.traceId = "trace") ∧
    (Call.createOne.newRows .plain (World.init [])).length = 2 := by
  have hfresh : ∀ k, (runCalls .plain (World.start .empty []) []).drawn .span ≤ k →
      Env.plain.uuid4 .span k ≠ "trace" := by
    intro k _ h
    have hchars := String.ofList_injective (h.trans (String.ofList_toList).symm)
    cases hchars
  constructor
  · exact (one_trace_iff .plain .empty [] [] (n := 1) (c := .createOne) (t := "trace")
      (Nat.le_refl 1) rfl hfresh).2.1 rfl (by decide)
  · decide +kernel

end DddService
