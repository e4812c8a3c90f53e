import Mathlib.Data.List.Basic
import Mathlib.Data.List.Induction
import Mathlib.Order.Defs.Unbundled

/- Triples for programs that raise and keep their state. A program is an
   `EStateM ε σ α`: it either returns a value or raises an exception, and in
   both cases leaves a state behind, as a statement sequence of an imperative
   language with exceptions does (a raise does not undo the writes before it).

   `Triple P x Q E` has one postcondition for each exit. The rules follow the
   constructs of the language: sequencing, raising, catching, a scope with an
   exit action, and loops over a list. `Frames f x` says that `x` leaves `f` of the
   state alone, whichever way it exits, and `Moves R x` that it takes every state to one
   that the preorder `R` relates it to. `RaisesOnly Q I x` says that `x` keeps an invariant
   and raises only what `Q` allows. -/
namespace Hoare
variable {ε σ α β : Type}

/-- The state a program leaves behind, whichever way it exits. -/
def stateOf : EStateM.Result ε σ α → σ
  | .ok _ s => s
  | .error _ s => s

/-- The exception it raised, if it raised one. -/
def raised : EStateM.Result ε σ α → Option ε
  | .ok _ _ => none
  | .error e _ => some e

theorem eq_error_of_raised {r : EStateM.Result ε σ α} {e : ε} (h : raised r = some e) :
    r = .error e (stateOf r) := by
  cases r with
  | ok a s => cases h
  | error e' s => cases h; rfl

theorem eq_ok_of_raised {r : EStateM.Result ε σ α} (h : raised r = none) :
    ∃ a, r = .ok a (stateOf r) := by
  cases r with
  | ok a s => exact ⟨a, rfl⟩
  | error e s => cases h

/-- What every step preserves, along a run, from the steps before it. -/
theorem foldl_induction {step : σ → α → σ} {s : σ} {I : σ → Prop} (hinit : I s) :
    ∀ xs : List α, (∀ p x, p ++ [x] <+: xs → I (p.foldl step s) → I (step (p.foldl step s) x)) →
      I (xs.foldl step s) := by
  intro xs
  induction xs using List.reverseRecOn with
  | nil => exact fun _ => hinit
  | append_singleton xs x ih =>
    intro h
    rw [List.foldl_append]
    refine h xs x List.prefix_rfl (ih fun p y hp => h p y (hp.trans ?_))
    exact List.prefix_append xs [x]

/-- The steps of a run one by one, each with the steps before it. -/
theorem forall_steps {P : List α → α → Prop} {xs : List α}
    (h : ∀ i : Fin xs.length, P (xs.take i) (xs.get i)) : ∀ p x, p ++ [x] <+: xs → P p x := by
  rintro p x ⟨later, rfl⟩
  have hat := h ⟨p.length, by simp⟩
  simpa using hat

/-! ## Running a program

   What each construct does to a state, for proofs that follow one execution. -/

section Run
variable (s : σ)

@[simp] theorem pure_run (a : α) : (pure a : EStateM ε σ α) s = .ok a s := rfl

@[simp] theorem throw_run (e : ε) : (throw e : EStateM ε σ α) s = .error e s := rfl

@[simp] theorem get_run : (get : EStateM ε σ σ) s = .ok s s := rfl

@[simp] theorem modify_run (f : σ → σ) : (modify f : EStateM ε σ PUnit) s = .ok ⟨⟩ (f s) := rfl

theorem bind_run (x : EStateM ε σ α) (f : α → EStateM ε σ β) :
    (x >>= f) s = match x s with
      | .ok a t => f a t
      | .error e t => .error e t := rfl

theorem tryCatch_run (x : EStateM ε σ α) (k : ε → EStateM ε σ α) :
    (tryCatch x k) s = match x s with
      | .ok a t => .ok a t
      | .error e t => k e t := by
  show EStateM.tryCatch x k s = _
  unfold EStateM.tryCatch
  cases x s <;> rfl

variable {s} {t : σ} {x : EStateM ε σ α} {a : α} {e : ε}

theorem bind_ok {f : α → EStateM ε σ β} {r : EStateM.Result ε σ β} (h : x s = .ok a t)
    (h' : f a t = r) : (x >>= f) s = r := by
  rw [bind_run, h]
  exact h'

theorem bind_error {f : α → EStateM ε σ β} (h : x s = .error e t) :
    (x >>= f) s = .error e t := by
  rw [bind_run, h]

theorem tryCatch_ok {k : ε → EStateM ε σ α} (h : x s = .ok a t) :
    (tryCatch x k) s = .ok a t := by
  rw [tryCatch_run, h]

theorem tryCatch_error {k : ε → EStateM ε σ α} {r : EStateM.Result ε σ α}
    (h : x s = .error e t) (h' : k e t = r) : (tryCatch x k) s = r := by
  rw [tryCatch_run, h]
  exact h'

theorem run_ite_pos {c : Prop} [Decidable c] {y : EStateM ε σ α} {r : EStateM.Result ε σ α}
    (hc : c) (h : x s = r) : (if c then x else y) s = r := by
  rw [if_pos hc]
  exact h

theorem run_ite_neg {c : Prop} [Decidable c] {y : EStateM ε σ α} {r : EStateM.Result ε σ α}
    (hc : ¬c) (h : x s = r) : (if c then y else x) s = r := by
  rw [if_neg hc]
  exact h

/-- A sequence that returned: both parts did. -/
theorem bind_eq_ok {f : α → EStateM ε σ β} {b : β} (h : (x >>= f) s = .ok b t) :
    ∃ a r, x s = .ok a r ∧ f a r = .ok b t := by
  rw [bind_run] at h
  cases hx : x s with
  | ok a r => rw [hx] at h; exact ⟨a, r, rfl, h⟩
  | error e r => rw [hx] at h; cases h

/-- A sequence that raised: the first part did, or it returned and the second did. -/
theorem bind_eq_error {f : α → EStateM ε σ β} (h : (x >>= f) s = .error e t) :
    x s = .error e t ∨ ∃ a r, x s = .ok a r ∧ f a r = .error e t := by
  rw [bind_run] at h
  cases hx : x s with
  | ok a r => rw [hx] at h; exact Or.inr ⟨a, r, rfl, h⟩
  | error e' r => rw [hx] at h; cases h; exact Or.inl rfl

end Run

/-! ## Triples -/

/-- From every state in `P`, a return lands in `Q` and a raise lands in `E`. -/
def Triple (P : σ → Prop) (x : EStateM ε σ α) (Q : α → σ → Prop) (E : ε → σ → Prop) : Prop :=
  ∀ s, P s → match x s with
    | .ok a t => Q a t
    | .error e t => E e t

/-- An `async with` block: `enter`, the body, and `exit` on both ways out. An
    exception of `exit` replaces the one the body raised. -/
def scope (enter exit : EStateM ε σ Unit) (body : EStateM ε σ α) : EStateM ε σ α := do
  enter
  let a ← tryCatch body (fun e => do exit; throw e)
  exit
  pure a

section Rules
variable {P P' : σ → Prop} {E E' : ε → σ → Prop}

theorem Triple.conseq {x : EStateM ε σ α} {Q Q' : α → σ → Prop} (h : Triple P x Q E)
    (hP : ∀ s, P' s → P s) (hQ : ∀ a s, Q a s → Q' a s) (hE : ∀ e s, E e s → E' e s) :
    Triple P' x Q' E' := by
  intro s hs
  have := h s (hP s hs)
  revert this
  cases x s with
  | ok a t => exact hQ a t
  | error e t => exact hE e t

/-- A triple is proved one entry state at a time. -/
theorem Triple.intro {x : EStateM ε σ α} {Q : α → σ → Prop}
    (h : ∀ s₀, P s₀ → Triple (fun s => s = s₀) x Q E) : Triple P x Q E :=
  fun s hs => h s hs s rfl

/-- Started in one state of `P`. -/
theorem Triple.start {x : EStateM ε σ α} {Q : α → σ → Prop} (h : Triple P x Q E) {s₀ : σ}
    (hs : P s₀) : Triple (fun s => s = s₀) x Q E :=
  h.conseq (fun _ e => e ▸ hs) (fun _ _ => id) (fun _ _ => id)

/-- A weaker condition on the raises. -/
theorem Triple.raises {x : EStateM ε σ α} {Q : α → σ → Prop} (h : Triple P x Q E)
    (hE : ∀ e s, E e s → E' e s) : Triple P x Q E' :=
  h.conseq (fun _ => id) (fun _ _ => id) hE

/-- What holds of no state in particular holds after a return, too. -/
theorem Triple.carry {p : Prop} {x : EStateM ε σ α} {Q : α → σ → Prop} (h : Triple P x Q E) :
    Triple (fun s => p ∧ P s) x (fun a s => p ∧ Q a s) E := by
  intro s hs
  have := h s hs.2
  revert this
  cases x s with
  | ok a t => exact fun hq => ⟨hs.1, hq⟩
  | error e t => exact id

/-- It holds after every program that returns. -/
theorem Triple.still {p : Prop} (x : EStateM ε σ α) (h : ∀ s, P s → p) :
    Triple P x (fun _ _ => p) fun _ _ => True := by
  intro s hs
  cases x s with
  | ok a t => exact h s hs
  | error e t => trivial

theorem Triple.pure {a : α} {Q : α → σ → Prop} (h : ∀ s, P s → Q a s) :
    Triple P (pure a : EStateM ε σ α) Q E :=
  fun s hs => h s hs

theorem Triple.throw {e : ε} {Q : α → σ → Prop} (h : ∀ s, P s → E e s) :
    Triple P (throw e : EStateM ε σ α) Q E :=
  fun s hs => h s hs

theorem Triple.bind {x : EStateM ε σ α} {f : α → EStateM ε σ β} {R : α → σ → Prop}
    {Q : β → σ → Prop} (hx : Triple P x R E) (hf : ∀ a, Triple (R a) (f a) Q E) :
    Triple P (x >>= f) Q E := by
  intro s hs
  have h1 := hx s hs
  rw [bind_run]
  revert h1
  cases x s with
  | ok a t => exact hf a t
  | error e t => exact id

theorem Triple.get {Q : σ → σ → Prop} (h : ∀ s, P s → Q s s) :
    Triple P (get : EStateM ε σ σ) Q E :=
  fun s hs => h s hs

theorem Triple.modify {f : σ → σ} {Q : PUnit → σ → Prop} (h : ∀ s, P s → Q ⟨⟩ (f s)) :
    Triple P (modify f : EStateM ε σ PUnit) Q E :=
  fun s hs => h s hs

theorem Triple.tryCatch {x : EStateM ε σ α} {k : ε → EStateM ε σ α} {Q : α → σ → Prop}
    {R : ε → σ → Prop} (hx : Triple P x Q R) (hk : ∀ e, Triple (R e) (k e) Q E) :
    Triple P (tryCatch x k) Q E := by
  intro s hs
  have h1 := hx s hs
  rw [tryCatch_run]
  revert h1
  cases x s with
  | ok a t => exact id
  | error e t => exact hk e t

theorem Triple.ite {c : Prop} [Decidable c] {x y : EStateM ε σ α} {Q : α → σ → Prop}
    (hx : c → Triple P x Q E) (hy : ¬c → Triple P y Q E) :
    Triple P (if c then x else y) Q E := by
  by_cases h : c
  · simp only [h, if_true]; exact hx h
  · simp only [h, if_false]; exact hy h

/-- The body starts in `B` and leaves in `R` or in `F`; the exit action runs
    either way. -/
theorem Triple.scope (B : σ → Prop) (R : α → σ → Prop) (F : ε → σ → Prop)
    {enter exit : EStateM ε σ Unit} {body : EStateM ε σ α} {Q : α → σ → Prop}
    (henter : Triple P enter (fun _ => B) E) (hbody : Triple B body R F)
    (hret : ∀ a, Triple (R a) exit (fun _ => Q a) E)
    (hraise : ∀ e, Triple (F e) exit (fun _ => E e) E) :
    Triple P (scope enter exit body) Q E := by
  refine henter.bind fun _ => ?_
  refine Triple.bind (R := R) (Triple.tryCatch hbody fun e => ?_) fun a => ?_
  · exact (hraise e).bind fun _ => Triple.throw fun _ => id
  · exact (hret a).bind fun _ => Triple.pure fun _ => id

/-- A loop over a list, with an invariant on what was done so far. -/
theorem Triple.forM {f : β → EStateM ε σ PUnit} (I : List β → σ → Prop) :
    ∀ (l done : List β), (∀ d x, x ∈ l → Triple (I d) (f x) (fun _ => I (d ++ [x])) E) →
      Triple (I done) (l.forM f) (fun _ => I (done ++ l)) E
  | [], done, _ => Triple.pure fun s hs => by rw [List.append_nil]; exact hs
  | x :: l, done, h => by
    change Triple _ (f x >>= fun _ => l.forM f) _ _
    refine (h done x List.mem_cons_self).bind fun _ => ?_
    have ih := Triple.forM I l (done ++ [x]) fun d y hy => h d y (List.mem_cons_of_mem x hy)
    rwa [List.append_assoc] at ih

end Rules

/-! ## Frames -/

/-- `f` of the state is after `x` what it was before. -/
def Frames (f : σ → β) (x : EStateM ε σ α) : Prop := ∀ s, f (stateOf (x s)) = f s

namespace Frames
variable {γ : Type} {f : σ → β}

theorem pure (a : α) : Frames f (pure a : EStateM ε σ α) := fun _ => rfl

theorem throw (e : ε) : Frames f (throw e : EStateM ε σ α) := fun _ => rfl

theorem get : Frames f (get : EStateM ε σ σ) := fun _ => rfl

theorem modify {g : σ → σ} (h : ∀ s, f (g s) = f s) :
    Frames f (modify g : EStateM ε σ PUnit) := h

theorem bind {x : EStateM ε σ α} {k : α → EStateM ε σ γ} (hx : Frames f x)
    (hk : ∀ a, Frames f (k a)) : Frames f (x >>= k) := by
  intro s
  have h := hx s
  rw [bind_run]
  cases hr : x s with
  | ok a t => rw [hr] at h; exact (hk a t).trans h
  | error e t => rw [hr] at h; exact h

theorem tryCatch {x : EStateM ε σ α} {k : ε → EStateM ε σ α} (hx : Frames f x)
    (hk : ∀ e, Frames f (k e)) : Frames f (tryCatch x k) := by
  intro s
  have h := hx s
  rw [tryCatch_run]
  cases hr : x s with
  | ok a t => rw [hr] at h; exact h
  | error e t => rw [hr] at h; exact (hk e t).trans h

/-- A part of what is left alone is left alone. -/
theorem map {x : EStateM ε σ α} (h : Frames f x) (g : β → γ) : Frames (fun s => g (f s)) x :=
  fun s => congrArg g (h s)

theorem ite {c : Prop} [Decidable c] {x y : EStateM ε σ α} (hx : Frames f x) (hy : Frames f y) :
    Frames f (if c then x else y) := by
  by_cases hc : c
  · rw [if_pos hc]
    exact hx
  · rw [if_neg hc]
    exact hy

theorem scope {enter exit : EStateM ε σ Unit} {body : EStateM ε σ α} (henter : Frames f enter)
    (hexit : Frames f exit) (hbody : Frames f body) : Frames f (Hoare.scope enter exit body) := by
  apply henter.bind
  intro _
  apply bind
  · exact hbody.tryCatch fun e => hexit.bind fun _ => throw e
  · exact fun a => hexit.bind fun _ => pure a

theorem forM {g : γ → EStateM ε σ PUnit} (h : ∀ c, Frames f (g c)) :
    ∀ l : List γ, Frames f (l.forM g)
  | [] => pure _
  | c :: l => (h c).bind fun _ => forM h l

theorem mapM {g : γ → EStateM ε σ α} (h : ∀ c, Frames f (g c)) :
    ∀ l : List γ, Frames f (l.mapM g)
  | [] => pure _
  | c :: l => by
    rw [List.mapM_cons]
    exact (h c).bind fun _ => (mapM h l).bind fun _ => pure _

end Frames

/-! ## Moves -/

/-- Whichever way it exits, `x` takes a state to one that `R` relates it to. -/
def Moves (R : σ → σ → Prop) (x : EStateM ε σ α) : Prop := ∀ s, R s (stateOf (x s))

namespace Moves
variable {γ : Type} {R R' : σ → σ → Prop}

theorem imp {x : EStateM ε σ α} (h : Moves R x) (himp : ∀ s t, R s t → R' s t) : Moves R' x :=
  fun s => himp s _ (h s)

theorem of_frames {f : σ → β} {x : EStateM ε σ α} (h : Frames f x)
    (hR : ∀ s t, f t = f s → R s t) : Moves R x :=
  fun s => hR s _ (h s)

theorem ite {c : Prop} [Decidable c] {x y : EStateM ε σ α} (hx : Moves R x) (hy : Moves R y) :
    Moves R (if c then x else y) := by
  by_cases hc : c
  · rw [if_pos hc]
    exact hx
  · rw [if_neg hc]
    exact hy

variable [IsPreorder σ R]

theorem pure (a : α) : Moves R (pure a : EStateM ε σ α) := fun s => Std.Refl.refl s

theorem throw (e : ε) : Moves R (throw e : EStateM ε σ α) := fun s => Std.Refl.refl s

theorem get : Moves R (get : EStateM ε σ σ) := fun s => Std.Refl.refl s

theorem bind {x : EStateM ε σ α} {k : α → EStateM ε σ γ} (hx : Moves R x)
    (hk : ∀ a, Moves R (k a)) : Moves R (x >>= k) := by
  intro s
  have h := hx s
  rw [bind_run]
  cases hr : x s with
  | ok a t => rw [hr] at h; exact IsTrans.trans _ _ _ h (hk a t)
  | error e t => rw [hr] at h; exact h

theorem tryCatch {x : EStateM ε σ α} {k : ε → EStateM ε σ α} (hx : Moves R x)
    (hk : ∀ e, Moves R (k e)) : Moves R (tryCatch x k) := by
  intro s
  have h := hx s
  rw [tryCatch_run]
  cases hr : x s with
  | ok a t => rw [hr] at h; exact h
  | error e t => rw [hr] at h; exact IsTrans.trans _ _ _ h (hk e t)

theorem forM {g : γ → EStateM ε σ PUnit} (h : ∀ c, Moves R (g c)) :
    ∀ l : List γ, Moves R (l.forM g)
  | [] => pure _
  | c :: l => (h c).bind fun _ => forM h l

theorem scope {enter exit : EStateM ε σ Unit} {body : EStateM ε σ α} (henter : Moves R enter)
    (hexit : Moves R exit) (hbody : Moves R body) : Moves R (Hoare.scope enter exit body) := by
  apply henter.bind
  intro _
  apply bind
  · exact hbody.tryCatch fun e => hexit.bind fun _ => throw e
  · exact fun a => hexit.bind fun _ => pure a

end Moves

/-! ## Raises -/

/-- `x` keeps `I`, whichever way it exits, and raises only what `Q` allows. -/
def RaisesOnly (Q : ε → Prop) (I : σ → Prop) (x : EStateM ε σ α) : Prop :=
  Triple I x (fun _ => I) fun e s => I s ∧ Q e

namespace RaisesOnly
variable {γ : Type} {Q : ε → Prop} {I : σ → Prop}

theorem pure (a : α) : RaisesOnly Q I (pure a : EStateM ε σ α) := Triple.pure fun _ h => h

theorem throw {e : ε} (h : Q e) : RaisesOnly Q I (throw e : EStateM ε σ α) :=
  Triple.throw fun _ hs => ⟨hs, h⟩

theorem get : RaisesOnly Q I (get : EStateM ε σ σ) := Triple.get fun _ h => h

theorem modify {f : σ → σ} (h : ∀ s, I s → I (f s)) :
    RaisesOnly Q I (modify f : EStateM ε σ PUnit) := Triple.modify h

theorem bind {x : EStateM ε σ α} {k : α → EStateM ε σ γ} (hx : RaisesOnly Q I x)
    (hk : ∀ a, RaisesOnly Q I (k a)) : RaisesOnly Q I (x >>= k) := Triple.bind hx hk

theorem ite {c : Prop} [Decidable c] {x y : EStateM ε σ α} (hx : c → RaisesOnly Q I x)
    (hy : ¬c → RaisesOnly Q I y) : RaisesOnly Q I (if c then x else y) := Triple.ite hx hy

/-- What is caught is what the program may raise. -/
theorem tryCatch {Q' : ε → Prop} {x : EStateM ε σ α} {k : ε → EStateM ε σ α}
    (hx : RaisesOnly Q' I x) (hk : ∀ e, Q' e → RaisesOnly Q I (k e)) :
    RaisesOnly Q I (tryCatch x k) :=
  Triple.tryCatch hx fun e => Triple.intro fun _ hs => (hk e hs.2).start hs.1

theorem scope {enter exit : EStateM ε σ Unit} {body : EStateM ε σ α}
    (henter : RaisesOnly Q I enter) (hexit : RaisesOnly Q I exit) (hbody : RaisesOnly Q I body) :
    RaisesOnly Q I (Hoare.scope enter exit body) := by
  apply henter.bind
  intro _
  apply bind
  · exact hbody.tryCatch fun e he => hexit.bind fun _ => throw he
  · exact fun a => hexit.bind fun _ => pure a

theorem forM {f : γ → EStateM ε σ PUnit} (h : ∀ c, RaisesOnly Q I (f c)) (l : List γ) :
    RaisesOnly Q I (l.forM f) :=
  Triple.forM (fun _ => I) l [] fun _ c _ => h c

/-- Where nothing may be raised, it returns. -/
theorem returns {x : EStateM ε σ α} (h : RaisesOnly (fun _ => False) I x) {s : σ} (hs : I s) :
    raised (x s) = none := by
  have hrun := h s hs
  cases hx : x s with
  | ok a t => rfl
  | error e t =>
    rw [hx] at hrun
    exact hrun.2.elim

end RaisesOnly

/-! ## Outputs -/

/-- A return of `x` adds to the log what `R` says of it. -/
def Emits {τ : Type} (log : σ → List τ) (x : EStateM ε σ α) (R : α → List τ → Prop) : Prop :=
  ∀ s a t, x s = .ok a t → ∃ out, log t = log s ++ out ∧ R a out

namespace Emits
variable {τ : Type} {log : σ → List τ} {R R' : α → List τ → Prop}

theorem pure {a : α} (h : R a []) : Emits log (pure a : EStateM ε σ α) R := by
  intro s b t hr
  cases hr
  exact ⟨[], (List.append_nil _).symm, h⟩

theorem throw (e : ε) : Emits log (throw e : EStateM ε σ α) R := by
  intro s a t hr
  cases hr

/-- What leaves the log alone adds nothing. -/
theorem of_frames {x : EStateM ε σ α} (hx : Frames log x)
    (hR : ∀ s a t, x s = .ok a t → R a []) : Emits log x R := by
  intro s a t hr
  have hlog := hx s
  rw [hr] at hlog
  exact ⟨[], hlog.trans (List.append_nil _).symm, hR s a t hr⟩

theorem imp {x : EStateM ε σ α} (h : Emits log x R) (hR : ∀ a out, R a out → R' a out) :
    Emits log x R' := by
  intro s a t hr
  obtain ⟨out, hlog, hout⟩ := h s a t hr
  exact ⟨out, hlog, hR a out hout⟩

theorem bind {x : EStateM ε σ α} {f : α → EStateM ε σ β} {S : β → List τ → Prop}
    (hx : Emits log x R) (hf : ∀ a l, R a l → Emits log (f a) fun b r => S b (l ++ r)) :
    Emits log (x >>= f) S := by
  intro s b t hr
  obtain ⟨a, u, hxr, hfr⟩ := bind_eq_ok hr
  obtain ⟨l, hl, ha⟩ := hx s a u hxr
  obtain ⟨r, hr, hb⟩ := hf a l ha u b t hfr
  exact ⟨l ++ r, by rw [hr, hl, List.append_assoc], hb⟩

end Emits

end Hoare
