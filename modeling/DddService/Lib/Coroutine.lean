import DddService.Lib.Hoare
import Mathlib.Data.List.Forall2
import Mathlib.Logic.Function.Basic

/- Programs that suspend. A coroutine is an `EStateM` program that may stop in the
   middle and hand the state over; whoever resumes it passes a state back. Between
   two suspensions nobody else runs, as between two `await`s of an event loop.

   `Coro.alone` runs a coroutine with nobody else around, and `AloneIs` says that
   it then is a given `EStateM` program. `Meets` are rely-guarantee triples: `R` is
   what others may do to the state while the coroutine is suspended, `G` what the
   coroutine does to it between two suspensions, and `I` holds wherever it
   suspends. With nobody else around, what is proved under `Contract.lone` holds of all
   that is seen (`Meets.alone`). A pool of coroutines on one shared state runs under any schedule;
   what every one of them guarantees and can rely on, every run keeps
   (`Pool.run_keeps`). -/
namespace Coroutine
open Hoare
variable {σ τ ε α β : Type}

/-- Where a coroutine stops that was started or resumed. -/
inductive Outcome (σ ε α : Type) where
  | ok (a : α) (s : σ)
  | error (e : ε) (s : σ)
  | suspend (s : σ) (k : σ → Outcome σ ε α)

/-- A coroutine: from a state to where it stops first. -/
def Coro (σ ε α : Type) := σ → Outcome σ ε α

namespace Outcome

/-- Goes on with `f` after a return, and with `g` after a raise. -/
def andThen (f : α → σ → Outcome σ ε β) (g : ε → σ → Outcome σ ε β) :
    Outcome σ ε α → Outcome σ ε β
  | ok a s => f a s
  | error e s => g e s
  | suspend s k => suspend s fun s' => (k s').andThen f g

/-- Resumed at once, whenever it suspends. -/
def alone : Outcome σ ε α → EStateM.Result ε σ α
  | ok a s => .ok a s
  | error e s => .error e s
  | suspend s k => (k s).alone

end Outcome

namespace Coro

instance : Monad (Coro σ ε) where
  pure a := fun s => .ok a s
  bind x f := fun s => (x s).andThen f fun e t => .error e t

theorem bind_apply (x : Coro σ ε α) (f : α → Coro σ ε β) (s : σ) :
    (x >>= f) s = (x s).andThen f fun e t => .error e t := rfl

instance : LawfulMonad (Coro σ ε) := by
  have hret : ∀ {α : Type} (o : Outcome σ ε α),
      o.andThen (fun a t => .ok a t) (fun e t => .error e t) = o := by
    intro α o
    induction o with
    | ok a s => rfl
    | error e s => rfl
    | suspend s k ih => exact congrArg (Outcome.suspend s) (funext ih)
  have hassoc : ∀ {α β γ : Type} (f : α → Coro σ ε β) (g : β → Coro σ ε γ) (o : Outcome σ ε α),
      (o.andThen f fun e t => .error e t).andThen g (fun e t => .error e t) =
        o.andThen (fun a => f a >>= g) fun e t => .error e t := by
    intro α β γ f g o
    induction o with
    | ok a s => rfl
    | error e s => rfl
    | suspend s k ih => exact congrArg (Outcome.suspend s) (funext ih)
  refine LawfulMonad.mk' _ ?_ ?_ ?_
  · intro α x
    funext s
    exact hret (x s)
  · intro α β a f
    rfl
  · intro α β γ x f g
    funext s
    exact hassoc f g (x s)

instance : MonadExceptOf ε (Coro σ ε) where
  throw e := fun s => .error e s
  tryCatch x k := fun s => (x s).andThen (fun a t => .ok a t) k

/-- Stops, and goes on from the state it is resumed in. -/
def suspend : Coro σ ε Unit := fun s => .suspend s fun s' => .ok () s'

/-- A program that does not suspend, on the part `get` of the state. -/
def lift (get : σ → τ) (put : τ → σ → σ) (x : EStateM ε τ α) : Coro σ ε α := fun s =>
  match x (get s) with
  | .ok a t => .ok a (put t s)
  | .error e t => .error e (put t s)

/-- A change of the state. -/
def update (f : σ → σ) : Coro σ ε Unit := fun s => .ok () (f s)

/-- A value computed from the state. -/
def read (f : σ → α) : Coro σ ε α := fun s => .ok (f s) s

/-- `async with`. -/
def scope (enter exit : Coro σ ε Unit) (body : Coro σ ε α) : Coro σ ε α := do
  enter
  let a ← tryCatch body (fun e => do exit; throw e)
  exit
  pure a

end Coro

/-! ## Alone -/

section Alone
variable {π : σ → τ}

/-- A result with its state seen through `π`. -/
def mapState (π : σ → τ) : EStateM.Result ε σ α → EStateM.Result ε τ α
  | .ok a s => .ok a (π s)
  | .error e s => .error e (π s)

/-- Run alone, and seen through `π`, the coroutine `x` is the program `y`. -/
def AloneIs (π : σ → τ) (x : Coro σ ε α) (y : EStateM ε τ α) : Prop :=
  ∀ s, mapState π (x s).alone = y (π s)

theorem Outcome.alone_andThen (f : α → σ → Outcome σ ε β) (g : ε → σ → Outcome σ ε β) :
    ∀ o : Outcome σ ε α, (o.andThen f g).alone = match o.alone with
      | .ok a s => (f a s).alone
      | .error e s => (g e s).alone
  | .ok _ _ => rfl
  | .error _ _ => rfl
  | .suspend s k => alone_andThen f g (k s)

theorem Coro.bind_alone (x : Coro σ ε α) (f : α → Coro σ ε β) (s : σ) :
    ((x >>= f) s).alone = match (x s).alone with
      | .ok a t => (f a t).alone
      | .error e t => .error e t :=
  Outcome.alone_andThen f (fun e t => .error e t) (x s)

theorem Coro.tryCatch_alone (x : Coro σ ε α) (k : ε → Coro σ ε α) (s : σ) :
    ((tryCatch x k) s).alone = match (x s).alone with
      | .ok a t => .ok a t
      | .error e t => (k e t).alone :=
  Outcome.alone_andThen (fun a t => .ok a t) k (x s)

namespace AloneIs

theorem pure (a : α) : AloneIs π (pure a : Coro σ ε α) (pure a) := fun _ => rfl

theorem throw (e : ε) : AloneIs π (throw e : Coro σ ε α) (throw e) := fun _ => rfl

theorem bind {x : Coro σ ε α} {y : EStateM ε τ α} {f : α → Coro σ ε β} {g : α → EStateM ε τ β}
    (hx : AloneIs π x y) (hf : ∀ a, AloneIs π (f a) (g a)) : AloneIs π (x >>= f) (y >>= g) := by
  intro s
  have h := hx s
  rw [bind_run, ← h, Coro.bind_alone]
  cases (x s).alone with
  | ok a t => exact hf a t
  | error e t => rfl

theorem tryCatch {x : Coro σ ε α} {y : EStateM ε τ α} {k : ε → Coro σ ε α} {l : ε → EStateM ε τ α}
    (hx : AloneIs π x y) (hk : ∀ e, AloneIs π (k e) (l e)) :
    AloneIs π (tryCatch x k) (tryCatch y l) := by
  intro s
  have h := hx s
  rw [tryCatch_run, ← h, Coro.tryCatch_alone]
  cases (x s).alone with
  | ok a t => rfl
  | error e t => exact hk e t

theorem ite {c : Prop} [Decidable c] {x x' : Coro σ ε α} {y y' : EStateM ε τ α}
    (h : AloneIs π x y) (h' : AloneIs π x' y') :
    AloneIs π (if c then x else x') (if c then y else y') := by
  by_cases hc : c
  · rw [if_pos hc, if_pos hc]
    exact h
  · rw [if_neg hc, if_neg hc]
    exact h'

theorem lift {get : σ → τ} {put : τ → σ → σ} (hput : ∀ t s, get (put t s) = t)
    (x : EStateM ε τ α) : AloneIs get (Coro.lift get put x) x := by
  intro s
  show mapState get (Coro.lift get put x s).alone = x (get s)
  unfold Coro.lift
  cases x (get s) with
  | ok a t => exact congrArg (EStateM.Result.ok a) (hput t s)
  | error e t => exact congrArg (EStateM.Result.error e) (hput t s)

theorem suspend_bind {x : Coro σ ε α} {y : EStateM ε τ α} (h : AloneIs π x y) :
    AloneIs π (Coro.suspend >>= fun _ => x) y := h

/-- Neither does a change that `π` does not see. -/
theorem update_bind {f : σ → σ} {x : Coro σ ε α} {y : EStateM ε τ α} (h : AloneIs π x y)
    (hf : ∀ s, π (f s) = π s) : AloneIs π (Coro.update f >>= fun _ => x) y := by
  intro s
  rw [← hf s]
  exact h (f s)

theorem bind_update {f : σ → σ} {x : Coro σ ε Unit} {y : EStateM ε τ Unit} (h : AloneIs π x y)
    (hf : ∀ s, π (f s) = π s) : AloneIs π (x >>= fun _ => Coro.update f) y := by
  intro s
  rw [← h s, Coro.bind_alone]
  cases (x s).alone with
  | ok a t => exact congrArg (EStateM.Result.ok a) (hf t)
  | error e t => rfl

theorem read_bind {γ : Type} {f : σ → γ} {x : γ → Coro σ ε α} {y : EStateM ε τ α}
    (h : ∀ c, AloneIs π (x c) y) : AloneIs π (Coro.read f >>= x) y :=
  fun s => h (f s) s

theorem forM {γ : Type} {f : β → Coro σ ε PUnit} {g : γ → EStateM ε τ PUnit} {l : List β}
    {l' : List γ} (h : List.Forall₂ (fun b c => AloneIs π (f b) (g c)) l l') :
    AloneIs π (l.forM f) (l'.forM g) := by
  induction h with
  | nil => exact pure _
  | cons hb _ ih => exact hb.bind fun _ => ih

end AloneIs

end Alone

/-! ## Rely and guarantee -/

/-- What a coroutine relies on while it is suspended, what it guarantees between
    two suspensions, and what holds where it suspends. -/
structure Contract (σ : Type) where
  rely : σ → σ → Prop
  guar : σ → σ → Prop
  inv : σ → Prop
  guar_refl : ∀ s, guar s s
  guar_trans : ∀ {s t u}, guar s t → guar t u → guar s u

/-- The contract kept by a coroutine that was started or resumed in `s₀`. -/
def Outcome.Meets (C : Contract σ) (Q : α → σ → Prop) (E : ε → σ → Prop) :
    σ → Outcome σ ε α → Prop
  | s₀, ok a s => C.guar s₀ s ∧ Q a s
  | s₀, error e s => C.guar s₀ s ∧ E e s
  | s₀, suspend s k => C.guar s₀ s ∧ C.inv s ∧ ∀ s', C.rely s s' → Meets C Q E s' (k s')

/-- Started in `P`, the coroutine keeps `C`, returns in `Q` and raises in `E`. -/
def Meets (C : Contract σ) (P : σ → Prop) (x : Coro σ ε α) (Q : α → σ → Prop)
    (E : ε → σ → Prop) : Prop :=
  ∀ s, P s → (x s).Meets C Q E s

section Rules
variable {C : Contract σ} {P P' : σ → Prop} {Q Q' : α → σ → Prop} {E E' : ε → σ → Prop}

/-- What was guaranteed before counts too. -/
theorem Outcome.Meets.earlier {s₀ s₁ : σ} (hg : C.guar s₀ s₁) {o : Outcome σ ε α}
    (h : o.Meets C Q E s₁) : o.Meets C Q E s₀ := by
  cases o with
  | ok a s => exact ⟨C.guar_trans hg h.1, h.2⟩
  | error e s => exact ⟨C.guar_trans hg h.1, h.2⟩
  | suspend s k => exact ⟨C.guar_trans hg h.1, h.2⟩

theorem Outcome.Meets.andThen {f : α → σ → Outcome σ ε β} {g : ε → σ → Outcome σ ε β}
    {Q' : β → σ → Prop} (hf : ∀ a s, Q a s → (f a s).Meets C Q' E' s)
    (hg : ∀ e s, E e s → (g e s).Meets C Q' E' s) :
    ∀ (o : Outcome σ ε α) (s₀ : σ), o.Meets C Q E s₀ → (o.andThen f g).Meets C Q' E' s₀
  | .ok a s, _, h => (hf a s h.2).earlier h.1
  | .error e s, _, h => (hg e s h.2).earlier h.1
  | .suspend _ k, _, h => ⟨h.1, h.2.1, fun s' hr =>
      Outcome.Meets.andThen hf hg (k s') s' (h.2.2 s' hr)⟩

namespace Meets

theorem conseq {x : Coro σ ε α} (h : Meets C P x Q E) (hP : ∀ s, P' s → P s)
    (hQ : ∀ a s, Q a s → Q' a s) (hE : ∀ e s, E e s → E' e s) : Meets C P' x Q' E' := by
  have hmono : ∀ (o : Outcome σ ε α) (s₀ : σ), o.Meets C Q E s₀ → o.Meets C Q' E' s₀ := by
    intro o
    induction o with
    | ok a s => exact fun s₀ h => ⟨h.1, hQ a s h.2⟩
    | error e s => exact fun s₀ h => ⟨h.1, hE e s h.2⟩
    | suspend s k ih => exact fun s₀ h => ⟨h.1, h.2.1, fun s' hr => ih s' s' (h.2.2 s' hr)⟩
  exact fun s hs => hmono _ s (h s (hP s hs))

theorem intro {x : Coro σ ε α} (h : ∀ s₀, P s₀ → Meets C (fun s => s = s₀) x Q E) :
    Meets C P x Q E :=
  fun s hs => h s hs s rfl

theorem start {x : Coro σ ε α} (h : Meets C P x Q E) {s₀ : σ} (hs : P s₀) :
    Meets C (fun s => s = s₀) x Q E :=
  fun _ hs' => hs' ▸ h s₀ hs

theorem pure {a : α} (h : ∀ s, P s → Q a s) : Meets C P (pure a : Coro σ ε α) Q E :=
  fun s hs => ⟨C.guar_refl s, h s hs⟩

theorem throw {e : ε} (h : ∀ s, P s → E e s) : Meets C P (throw e : Coro σ ε α) Q E :=
  fun s hs => ⟨C.guar_refl s, h s hs⟩

theorem bind {x : Coro σ ε α} {f : α → Coro σ ε β} {Q' : β → σ → Prop} (hx : Meets C P x Q E)
    (hf : ∀ a, Meets C (Q a) (f a) Q' E) : Meets C P (x >>= f) Q' E :=
  fun s hs => Outcome.Meets.andThen (g := fun e t => .error e t) hf
    (fun _ t ht => ⟨C.guar_refl t, ht⟩) (x s) s (hx s hs)

theorem tryCatch {x : Coro σ ε α} {k : ε → Coro σ ε α} (hx : Meets C P x Q E)
    (hk : ∀ e, Meets C (E e) (k e) Q E') : Meets C P (tryCatch x k) Q E' :=
  fun s hs => Outcome.Meets.andThen (f := fun a t => .ok a t)
    (fun _ t ht => ⟨C.guar_refl t, ht⟩) hk (x s) s (hx s hs)

theorem scope {enter exit : Coro σ ε Unit} {body : Coro σ ε α} (B : σ → Prop) (Q₀ : α → σ → Prop)
    (E₀ : ε → σ → Prop) (henter : Meets C P enter (fun _ => B) E) (hbody : Meets C B body Q₀ E₀)
    (hret : ∀ a, Meets C (Q₀ a) exit (fun _ => Q a) E)
    (hraise : ∀ e, Meets C (E₀ e) exit (fun _ => E e) E) :
    Meets C P (Coro.scope enter exit body) Q E := by
  apply henter.bind
  intro _
  have hcatch : Meets C B (MonadExcept.tryCatch body fun e => do exit; MonadExcept.throw e)
      Q₀ E := by
    apply hbody.tryCatch
    intro e
    exact (hraise e).bind fun _ => Meets.throw fun _ h => h
  exact hcatch.bind fun a => (hret a).bind fun _ => Meets.pure fun _ h => h

theorem ite {c : Prop} [Decidable c] {x y : Coro σ ε α} (hx : c → Meets C P x Q E)
    (hy : ¬c → Meets C P y Q E) : Meets C P (if c then x else y) Q E := by
  by_cases hc : c
  · rw [if_pos hc]
    exact hx hc
  · rw [if_neg hc]
    exact hy hc

theorem exists_elim {ι : Type} {p : ι → σ → Prop} {x : Coro σ ε α}
    (h : ∀ i, Meets C (p i) x Q E) : Meets C (fun s => ∃ i, p i s) x Q E := by
  intro s hs
  obtain ⟨i, hi⟩ := hs
  exact h i s hi

theorem suspend {Q : Unit → σ → Prop} (hi : ∀ s, P s → C.inv s)
    (hq : ∀ s s', P s → C.rely s s' → Q () s') :
    Meets C P (Coro.suspend : Coro σ ε Unit) Q E :=
  fun s hs => ⟨C.guar_refl s, hi s hs, fun s' hr => ⟨C.guar_refl s', hq s s' hs hr⟩⟩

theorem lift {get : σ → τ} {put : τ → σ → σ} {x : EStateM ε τ α}
    (h : ∀ s, P s → match x (get s) with
      | .ok a t => C.guar s (put t s) ∧ Q a (put t s)
      | .error e t => C.guar s (put t s) ∧ E e (put t s)) :
    Meets C P (Coro.lift get put x) Q E := by
  intro s hs
  have hx := h s hs
  show (Coro.lift get put x s).Meets C Q E s
  unfold Coro.lift
  cases hr : x (get s) with
  | ok a t => rw [hr] at hx; exact hx
  | error e t => rw [hr] at hx; exact hx

theorem update {f : σ → σ} {Q : Unit → σ → Prop} (h : ∀ s, P s → C.guar s (f s) ∧ Q () (f s)) :
    Meets C P (Coro.update f : Coro σ ε Unit) Q E := h

theorem read {f : σ → α} (h : ∀ s, P s → Q (f s) s) : Meets C P (Coro.read f) Q E :=
  fun s hs => ⟨C.guar_refl s, h s hs⟩

theorem forM {f : β → Coro σ ε PUnit} :
    ∀ l : List β, (∀ b ∈ l, Meets C P (f b) (fun _ => P) E) →
      Meets C P (l.forM f) (fun _ => P) E
  | [], _ => pure fun _ h => h
  | b :: l, h => bind (h b List.mem_cons_self) fun _ =>
      forM l fun c hc => h c (List.mem_cons_of_mem b hc)

theorem mapM {f : β → Coro σ ε α} (h : ∀ b, Meets C P (f b) (fun _ => P) E) :
    ∀ l : List β, Meets C P (l.mapM f) (fun _ => P) E
  | [] => pure fun _ h => h
  | b :: l => by
    rw [List.mapM_cons]
    exact (h b).bind fun _ => (mapM h l).bind fun _ => pure fun _ h => h

/-- A loop that counts its turns, up to `bound` of them. -/
theorem mapM_count {f : β → Coro σ ε α} {I : Nat → σ → Prop} {bound : Nat}
    (h : ∀ k b, k < bound → Meets C (I k) (f b) (fun _ => I (k + 1)) E) :
    ∀ (l : List β) (k : Nat), k + l.length ≤ bound →
      Meets C (I k) (l.mapM f) (fun _ => I (k + l.length)) E
  | [], _, _ => pure fun _ h => h
  | b :: l, k, hk => by
    have hlength : (b :: l).length = l.length + 1 := List.length_cons
    have hadd : k + (b :: l).length = k + 1 + l.length := by omega
    rw [List.mapM_cons, hadd]
    refine (h k b (by omega)).bind fun _ => ?_
    exact (mapM_count h l (k + 1) (by omega)).bind fun _ => pure fun _ h => h

end Meets

end Rules

/-! ### With nobody else around -/

/-- Whoever resumes the coroutine changes nothing, and `I` holds where it suspends. -/
def Contract.lone (I : σ → Prop) : Contract σ where
  rely s s' := s' = s
  guar _ _ := True
  inv := I
  guar_refl _ := trivial
  guar_trans _ _ := trivial

/-- The states in which a coroutine that is resumed at once suspends, and the one it
    ends in. -/
def Outcome.seen : Outcome σ ε α → List σ
  | ok _ s => [s]
  | error _ s => [s]
  | suspend s k => s :: (k s).seen

/-- A lone coroutine ends as its triple says, and `I` holds of all that is seen of it. -/
theorem Meets.alone {I P : σ → Prop} {x : Coro σ ε α} {Q : α → σ → Prop} {E : ε → σ → Prop}
    (h : Meets (Contract.lone I) P x Q E) (hQ : ∀ a s, Q a s → I s) (hE : ∀ e s, E e s → I s)
    {s : σ} (hs : P s) :
    (match (x s).alone with
      | .ok a t => Q a t
      | .error e t => E e t) ∧ ∀ t ∈ (x s).seen, I t := by
  have hall : ∀ (o : Outcome σ ε α) (s₀ : σ), o.Meets (Contract.lone I) Q E s₀ →
      (match o.alone with
        | .ok a t => Q a t
        | .error e t => E e t) ∧ ∀ t ∈ o.seen, I t := by
    intro o
    induction o with
    | ok a s => exact fun _ h => ⟨h.2, fun t ht => List.mem_singleton.mp ht ▸ hQ a s h.2⟩
    | error e s => exact fun _ h => ⟨h.2, fun t ht => List.mem_singleton.mp ht ▸ hE e s h.2⟩
    | suspend s k ih =>
      intro _ h
      obtain ⟨hend, hseen⟩ := ih s s (h.2.2 s rfl)
      refine ⟨hend, fun t ht => ?_⟩
      rcases List.mem_cons.mp ht with rfl | ht
      · exact h.2.1
      · exact hseen t ht
  exact hall (x s) s (h s hs)

/-! ## Pools -/

/-- A coroutine with its own part of the state, and what is left of it to run. -/
structure Thread (S L ε α : Type) where
  loc : L
  rest : Option (Coro (S × L) ε α)

/-- Coroutines on one shared state. -/
structure Pool (S L ε α : Type) where
  shared : S
  thread : Nat → Thread S L ε α

variable {S L V : Type}

/-- The shared state and the thread, where a coroutine stopped. -/
def Outcome.stopped : Outcome (S × L) ε α → S × Thread S L ε α
  | ok _ s => (s.1, ⟨s.2, none⟩)
  | error _ s => (s.1, ⟨s.2, none⟩)
  | suspend s k => (s.1, ⟨s.2, some k⟩)

/-- Resumes coroutine `i`, whose own state `wake v` prepares. -/
def Pool.resume (wake : V → L → L) (p : Pool S L ε α) (i : Nat) (v : V) : Pool S L ε α :=
  match (p.thread i).rest with
  | none => p
  | some k =>
    let r := (k (p.shared, wake v (p.thread i).loc)).stopped
    { shared := r.1, thread := Function.update p.thread i r.2 }

/-- A schedule says who is resumed next, and with what. -/
def Pool.run (wake : V → L → L) (p : Pool S L ε α) (schedule : List (Nat × V)) : Pool S L ε α :=
  schedule.foldl (fun p x => p.resume wake x.1 x.2) p

/-- Contracts that fit together: each coroutine may rely on what the others
    guarantee and on what resuming does. -/
structure Compatible (C : Nat → Contract (S × L)) (wake : V → L → L) : Prop where
  wake : ∀ i v s l, (C i).rely (s, l) (s, wake v l)
  trans : ∀ i a b c, (C i).rely a b → (C i).rely b c → (C i).rely a c
  others : ∀ i j, i ≠ j → ∀ s s' l l' m, (C j).guar (s, l) (s', l') → (C i).rely (s, m) (s', m)

/-- Thread `i` has kept `Φ i`, and will, whatever it may rely on happens first. -/
def Thread.Keeps (C : Nat → Contract (S × L)) (Φ : Nat → L → Prop) (i : Nat) (s : S)
    (t : Thread S L ε α) : Prop :=
  Φ i t.loc ∧ ∀ k, t.rest = some k → ∀ s', (C i).rely (s, t.loc) s' →
    (k s').Meets (C i) (fun _ u => Φ i u.2) (fun _ u => Φ i u.2) s'

section
variable {C : Nat → Contract (S × L)} {wake : V → L → L} {Φ : Nat → L → Prop}

/-- Where thread `i` stops, it keeps `Φ i`, and has changed only what it may. -/
theorem Outcome.Meets.stopped (hinv : ∀ i s l, (C i).inv (s, l) → Φ i l) {i : Nat} {s₀ : S × L}
    {o : Outcome (S × L) ε α}
    (h : o.Meets (C i) (fun _ u => Φ i u.2) (fun _ u => Φ i u.2) s₀) :
    Thread.Keeps C Φ i o.stopped.1 o.stopped.2 ∧
      (C i).guar s₀ (o.stopped.1, o.stopped.2.loc) := by
  cases o with
  | ok a s => exact ⟨⟨h.2, fun k hk => (nomatch hk)⟩, h.1⟩
  | error e s => exact ⟨⟨h.2, fun k hk => (nomatch hk)⟩, h.1⟩
  | suspend s k =>
    refine ⟨⟨hinv i s.1 s.2 h.2.1, ?_⟩, h.1⟩
    intro k' hk s' hr
    have hk' : k = k' := Option.some.inj hk
    rw [← hk']
    exact h.2.2 s' hr

/-- One step of a pool: everyone still keeps theirs. -/
theorem Pool.resume_keeps (hc : Compatible C wake) (hinv : ∀ i s l, (C i).inv (s, l) → Φ i l)
    {p : Pool S L ε α} (h : ∀ i, Thread.Keeps C Φ i p.shared (p.thread i)) (i : Nat) (v : V) :
    ∀ j, Thread.Keeps C Φ j (p.resume wake i v).shared ((p.resume wake i v).thread j) := by
  intro j
  unfold Pool.resume
  cases hr : (p.thread i).rest with
  | none => exact h j
  | some k =>
    have hmeets := (h i).2 k hr (p.shared, wake v (p.thread i).loc) (hc.wake i v _ _)
    obtain ⟨hkeeps, hguar⟩ := hmeets.stopped hinv
    show Thread.Keeps C Φ j _ (Function.update p.thread i _ j)
    by_cases hj : j = i
    · rw [hj, Function.update_self]
      exact hkeeps
    · rw [Function.update_of_ne hj]
      refine ⟨(h j).1, fun k' hk' s' hrely => (h j).2 k' hk' s' ?_⟩
      exact hc.trans j _ _ _ (hc.others j i hj _ _ _ _ _ hguar) hrely

/-- Every run of a pool: everyone keeps theirs, under any schedule. -/
theorem Pool.run_keeps (hc : Compatible C wake) (hinv : ∀ i s l, (C i).inv (s, l) → Φ i l)
    (schedule : List (Nat × V)) {p : Pool S L ε α}
    (h : ∀ i, Thread.Keeps C Φ i p.shared (p.thread i)) :
    ∀ i, Thread.Keeps C Φ i (p.run wake schedule).shared ((p.run wake schedule).thread i) := by
  induction schedule generalizing p with
  | nil => exact h
  | cons x schedule ih => exact ih (Pool.resume_keeps hc hinv h x.1 x.2)

end

end Coroutine
