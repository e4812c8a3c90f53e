import DddService.Lib.Hoare

/- Two runs of one program. `Couples P x Q E` says that from two states that `P` relates
   `x` exits the same way: it returns one value and `Q` relates the states it leaves, or it
   raises one exception and `E` relates them. The rules follow the constructs of the
   language, as those of `Triple` do. -/
namespace Hoare
variable {ε σ α β γ : Type}

/-- Both returned the same value, or both raised the same exception. -/
inductive SameExit (Q : α → σ → σ → Prop) (E : ε → σ → σ → Prop) :
    EStateM.Result ε σ α → EStateM.Result ε σ α → Prop
  | ok {a : α} {s t : σ} (h : Q a s t) : SameExit Q E (.ok a s) (.ok a t)
  | error {e : ε} {s t : σ} (h : E e s t) : SameExit Q E (.error e s) (.error e t)

/-- From two states that `P` relates `x` exits the same way. -/
def Couples (P : σ → σ → Prop) (x : EStateM ε σ α) (Q : α → σ → σ → Prop)
    (E : ε → σ → σ → Prop) : Prop :=
  ∀ s t, P s t → SameExit Q E (x s) (x t)

namespace Couples
variable {P P' : σ → σ → Prop} {Q Q' : α → σ → σ → Prop} {E E' : ε → σ → σ → Prop}

theorem conseq {x : EStateM ε σ α} (h : Couples P x Q E) (hP : ∀ s t, P' s t → P s t)
    (hQ : ∀ a s t, Q a s t → Q' a s t) (hE : ∀ e s t, E e s t → E' e s t) :
    Couples P' x Q' E' := by
  intro s t hst
  have hexit := h s t (hP s t hst)
  revert hexit
  generalize x s = r, x t = r'
  intro hexit
  cases hexit with
  | ok hq => exact .ok (hQ _ _ _ hq)
  | error he => exact .error (hE _ _ _ he)

theorem carry {p : Prop} {x : EStateM ε σ α} (h : Couples P x Q E) :
    Couples (fun s t => p ∧ P s t) x (fun a s t => p ∧ Q a s t) E := by
  intro s t hst
  have hexit := h s t hst.2
  revert hexit
  generalize x s = r, x t = r'
  intro hexit
  cases hexit with
  | ok hq => exact .ok ⟨hst.1, hq⟩
  | error he => exact .error he

theorem pure {a : α} (h : ∀ s t, P s t → Q a s t) :
    Couples P (pure a : EStateM ε σ α) Q E :=
  fun s t hst => .ok (h s t hst)

theorem throw {e : ε} (h : ∀ s t, P s t → E e s t) :
    Couples P (throw e : EStateM ε σ α) Q E :=
  fun s t hst => .error (h s t hst)

theorem modify {f : σ → σ} {Q : PUnit → σ → σ → Prop} (h : ∀ s t, P s t → Q ⟨⟩ (f s) (f t)) :
    Couples P (modify f : EStateM ε σ PUnit) Q E :=
  fun s t hst => .ok (h s t hst)

theorem bind {x : EStateM ε σ α} {f : α → EStateM ε σ β} {R : β → σ → σ → Prop}
    (hx : Couples P x Q E) (hf : ∀ a, Couples (Q a) (f a) R E) : Couples P (x >>= f) R E := by
  intro s t hst
  have hexit := hx s t hst
  rw [bind_run, bind_run]
  revert hexit
  generalize x s = r, x t = r'
  intro hexit
  cases hexit with
  | ok hq => exact hf _ _ _ hq
  | error he => exact .error he

/-- Reading the state, where what follows comes out the same from both. -/
theorem get_bind {f : σ → EStateM ε σ β} {R : β → σ → σ → Prop}
    (hsame : ∀ s t, P s t → f t = f s) (hf : ∀ s, Couples P (f s) R E) :
    Couples P (get >>= f) R E := by
  intro s t hst
  rw [bind_run, bind_run, get_run, get_run]
  show SameExit R E (f s s) (f t t)
  rw [hsame s t hst]
  exact hf s s t hst

theorem tryCatch {x : EStateM ε σ α} {k : ε → EStateM ε σ α} (hx : Couples P x Q E)
    (hk : ∀ e, Couples (E e) (k e) Q E') : Couples P (tryCatch x k) Q E' := by
  intro s t hst
  have hexit := hx s t hst
  rw [tryCatch_run, tryCatch_run]
  revert hexit
  generalize x s = r, x t = r'
  intro hexit
  cases hexit with
  | ok hq => exact .ok hq
  | error he => exact hk _ _ _ he

theorem ite {c : Prop} [Decidable c] {x y : EStateM ε σ α} (hx : c → Couples P x Q E)
    (hy : ¬c → Couples P y Q E) : Couples P (if c then x else y) Q E := by
  by_cases hc : c
  · rw [if_pos hc]
    exact hx hc
  · rw [if_neg hc]
    exact hy hc

/-- The body starts in states that `B` relates and leaves in ones that `R` or `F` does. -/
theorem scope (B : σ → σ → Prop) (R : α → σ → σ → Prop) (F : ε → σ → σ → Prop)
    {enter exit : EStateM ε σ Unit} {body : EStateM ε σ α}
    (henter : Couples P enter (fun _ => B) E) (hbody : Couples B body R F)
    (hret : ∀ a, Couples (R a) exit (fun _ => Q a) E)
    (hraise : ∀ e, Couples (F e) exit (fun _ => E e) E) :
    Couples P (Hoare.scope enter exit body) Q E := by
  apply henter.bind
  intro _
  refine bind (Q := R) (hbody.tryCatch fun e => ?_) fun a => ?_
  · exact (hraise e).bind fun _ => throw fun _ _ h => h
  · exact (hret a).bind fun _ => pure fun _ _ h => h

theorem forM {f : γ → EStateM ε σ PUnit} (h : ∀ c, Couples P (f c) (fun _ => P) E) :
    ∀ l : List γ, Couples P (l.forM f) (fun _ => P) E
  | [] => pure fun _ _ hst => hst
  | c :: l => (h c).bind fun _ => forM h l

theorem mapM {f : γ → EStateM ε σ α} (h : ∀ c, Couples P (f c) (fun _ => P) E) :
    ∀ l : List γ, Couples P (l.mapM f) (fun _ => P) E
  | [] => pure fun _ _ hst => hst
  | c :: l => by
    rw [List.mapM_cons]
    exact (h c).bind fun _ => (mapM h l).bind fun _ => pure fun _ _ hst => hst

end Couples

end Hoare
