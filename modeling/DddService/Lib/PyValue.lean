import Mathlib.Data.List.Basic

/- Values of a dynamically typed program, as far as data is built from them: scalars, enum
   members, times, instances of dataclasses, lists, sets (in the order they are iterated)
   and dicts with text keys. `PyValue.induct` is their induction; `all p` asks `p` of a value
   and of everything in it, at any depth; the value of an enum member is not in the member.
   The operators follow the language's, where `none`
   is a `TypeError`. -/

inductive Scalar where
  | none
  | bool (b : Bool)
  | int (n : Int)
  | float (x : Float)
  | str (s : String)

inductive PyValue where
  | scalar (s : Scalar)
  | enum (cls member : String) (value : PyValue)
  | dateTime (t : Int)
  | instance (cls : String) (fields : List (String × PyValue))
  | list (xs : List PyValue)
  | set (xs : List PyValue)
  | dict (entries : List (String × PyValue))

namespace PyValue

/-! ## Induction -/

/-- What holds of a container when it holds of its contents holds of every value. -/
@[elab_as_elim]
theorem induct {P : PyValue → Prop} (scalar : ∀ s, P (.scalar s))
    (enum : ∀ cls member value, P value → P (.enum cls member value))
    (dateTime : ∀ t, P (.dateTime t))
    (instance_ : ∀ cls fields, (∀ e ∈ fields, P e.2) → P (.instance cls fields))
    (list : ∀ xs, (∀ x ∈ xs, P x) → P (.list xs)) (set : ∀ xs, (∀ x ∈ xs, P x) → P (.set xs))
    (dict : ∀ entries, (∀ e ∈ entries, P e.2) → P (.dict entries)) (v : PyValue) : P v :=
  @PyValue.rec P (fun fields => ∀ e ∈ fields, P e.2) (fun xs => ∀ x ∈ xs, P x) (fun e => P e.2)
    scalar enum dateTime instance_ list set dict
    (fun _ h => nomatch h) (fun _ _ he hes => List.forall_mem_cons.mpr ⟨he, hes⟩)
    (fun _ h => nomatch h) (fun _ _ hx hxs => List.forall_mem_cons.mpr ⟨hx, hxs⟩)
    (fun _ _ h => h) v

/-! ## Everything in a value -/

section
variable (p : PyValue → Bool)

mutual
def all : PyValue → Bool
  | .scalar s => p (.scalar s)
  | .enum cls member value => p (.enum cls member value)
  | .dateTime t => p (.dateTime t)
  | .instance cls fields => p (.instance cls fields) && allFields fields
  | .list xs => p (.list xs) && allList xs
  | .set xs => p (.set xs) && allList xs
  | .dict entries => p (.dict entries) && allFields entries

def allList : List PyValue → Bool
  | [] => true
  | x :: xs => all x && allList xs

def allFields : List (String × PyValue) → Bool
  | [] => true
  | (_, x) :: fields => all x && allFields fields
end

variable {p}

theorem allList_iff {xs : List PyValue} : allList p xs = true ↔ ∀ x ∈ xs, all p x = true := by
  induction xs with
  | nil => simp [allList]
  | cons x xs ih => rw [allList, Bool.and_eq_true, ih, List.forall_mem_cons]

theorem allFields_iff {fields : List (String × PyValue)} :
    allFields p fields = true ↔ ∀ e ∈ fields, all p e.2 = true := by
  induction fields with
  | nil => simp [allFields]
  | cons e fields ih => rw [allFields, Bool.and_eq_true, ih, List.forall_mem_cons]

theorem allFields_map_iff {f : PyValue → PyValue} {fields : List (String × PyValue)} :
    allFields p (fields.map fun e => (e.1, f e.2)) = true ↔
      ∀ e ∈ fields, all p (f e.2) = true := by
  rw [allFields_iff, List.forall_mem_map]

theorem allList_map_iff {f : PyValue → PyValue} {xs : List PyValue} :
    allList p (xs.map f) = true ↔ ∀ x ∈ xs, all p (f x) = true := by
  rw [allList_iff, List.forall_mem_map]

end

/-! ## Operators -/

/-- Truth value testing. -/
def truthy : PyValue → Bool
  | .scalar .none => false
  | .scalar (.bool b) => b
  | .scalar (.int n) => n != 0
  | .scalar (.float x) => x != 0
  | .scalar (.str s) => s != ""
  | .enum .. | .dateTime _ | .instance .. => true
  | .list xs | .set xs => !xs.isEmpty
  | .dict entries => !entries.isEmpty

/-- `v < t`, for a time `t`. -/
def before? (t : Int) : PyValue → Option Bool
  | .dateTime s => some (s < t)
  | _ => none

/-- What can be compared with a time is one. -/
theorem truthy_of_before {t : Int} {v : PyValue} {b : Bool} (h : v.before? t = some b) :
    v.truthy = true := by
  cases v with
  | dateTime s => rfl
  | _ => cases h

/-- `v == -1` -/
def isNegOne : PyValue → Bool
  | .scalar (.int n) => n == -1
  | .scalar (.float x) => x == -1
  | _ => false

/-- `v - 1` -/
def subOne? : PyValue → Option PyValue
  | .scalar (.int n) => some (.scalar (.int (n - 1)))
  | .scalar (.bool b) => some (.scalar (.int (b.toInt - 1)))
  | .scalar (.float x) => some (.scalar (.float (x - 1)))
  | _ => none

/-- `v > 0` -/
def positive? : PyValue → Option Bool
  | .scalar (.int n) => some (0 < n)
  | .scalar (.bool b) => some b
  | .scalar (.float x) => some (0 < x)
  | _ => none

/-- A difference is a number, and can be compared. -/
theorem positive_of_subOne {v w : PyValue} (h : v.subOne? = some w) :
    ∃ b, w.positive? = some b := by
  cases v with
  | scalar s =>
    cases s with
    | int n => cases h; exact ⟨_, rfl⟩
    | bool b => cases h; exact ⟨_, rfl⟩
    | float x => cases h; exact ⟨_, rfl⟩
    | none => cases h
    | str t => cases h
  | _ => cases h

end PyValue
