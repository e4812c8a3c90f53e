import Mathlib.Data.List.Basic

/- What the service computes with: times, JSON values as a JSONB column holds
   them, the exceptions its functions raise, and what it takes from outside
   (`Env`): fresh uuids, and the `serialize` / `create` pair that the
   `dataclass_mixins` package puts on a dataclass. -/
namespace DddService

/-- A point in time. -/
abbrev DateTime := Int

/-- A JSON value. -/
inductive Json where
  | null
  | num (n : Int)
  | str (s : String)
  | arr (xs : List Json)
  | obj (fields : List (String × Json))
  deriving Repr

namespace Json

mutual
def decEq : (a b : Json) → Decidable (a = b)
  | .null, .null => isTrue rfl
  | .num m, .num n => decidable_of_iff (m = n) (by simp)
  | .str s, .str t => decidable_of_iff (s = t) (by simp)
  | .arr xs, .arr ys => match decEqList xs ys with
    | isTrue h => isTrue (by rw [h])
    | isFalse h => isFalse (by simpa using h)
  | .obj fs, .obj gs => match decEqFields fs gs with
    | isTrue h => isTrue (by rw [h])
    | isFalse h => isFalse (by simpa using h)
  | .null, .num _ | .null, .str _ | .null, .arr _ | .null, .obj _
  | .num _, .null | .num _, .str _ | .num _, .arr _ | .num _, .obj _
  | .str _, .null | .str _, .num _ | .str _, .arr _ | .str _, .obj _
  | .arr _, .null | .arr _, .num _ | .arr _, .str _ | .arr _, .obj _
  | .obj _, .null | .obj _, .num _ | .obj _, .str _ | .obj _, .arr _ => isFalse (by simp)

def decEqList : (xs ys : List Json) → Decidable (xs = ys)
  | [], [] => isTrue rfl
  | [], _ :: _ | _ :: _, [] => isFalse (by simp)
  | x :: xs, y :: ys => match decEq x y, decEqList xs ys with
    | isTrue h, isTrue h' => isTrue (by rw [h, h'])
    | isFalse h, _ => isFalse (by simp [h])
    | _, isFalse h => isFalse (by simp [h])

def decEqFields : (fs gs : List (String × Json)) → Decidable (fs = gs)
  | [], [] => isTrue rfl
  | [], _ :: _ | _ :: _, [] => isFalse (by simp)
  | (k, x) :: fs, (l, y) :: gs =>
    match decEq x y, decEqFields fs gs, (inferInstance : Decidable (k = l)) with
    | isTrue h, isTrue h', isTrue hk => isTrue (by rw [h, h', hk])
    | isFalse h, _, _ => isFalse (by simp [h])
    | _, isFalse h, _ => isFalse (by simp [h])
    | _, _, isFalse h => isFalse (by simp [h])
end

instance : DecidableEq Json := decEq

/-- A text, or `null` for `None`. -/
def optStr : Option String → Json
  | none => .null
  | some s => .str s

/-- The field `k` of an object. -/
def get? : Json → String → Option Json
  | .obj fields, k => fields.lookup k
  | _, _ => none

@[simp] theorem get?_cons_self (k : String) (v : Json) (fields : List (String × Json)) :
    (obj ((k, v) :: fields)).get? k = some v := List.lookup_cons_self

@[simp] theorem get?_cons_of_ne {k k' : String} (h : k ≠ k') (v : Json)
    (fields : List (String × Json)) : (obj ((k', v) :: fields)).get? k = (obj fields).get? k := by
  have hb : (k == k') = false := beq_eq_false_iff_ne.mpr h
  show List.lookup k ((k', v) :: fields) = List.lookup k fields
  rw [List.lookup_cons, hb]

def asStr? : Json → Option String
  | .str s => some s
  | _ => none

def asNum? : Json → Option Int
  | .num n => some n
  | _ => none

def asArr? : Json → Option (List Json)
  | .arr xs => some xs
  | _ => none

/-- Reads back what `optStr` writes. -/
def asOptStr? : Json → Option (Option String)
  | .null => some none
  | .str s => some (some s)
  | _ => none

@[simp] theorem asOptStr_optStr (s : Option String) : asOptStr? (optStr s) = some s := by
  cases s <;> rfl

end Json

/-- The exceptions that reach the code's `except` clauses, by the class those
    clauses tell apart. -/
inductive Exc where
  | noResultFound (msg : String)
  | integrityError (msg : String)
  | sqlAlchemyError (msg : String)
  | invalidRequestError (msg : String)
  | yourAggregateStatusNotMatched (msg : String)
  | valueError (msg : String)
  | typeError (msg : String)
  | notImplementedError (msg : String)
  | attributeError (msg : String)
  | indexError (msg : String)
  | runtimeError (msg : String)
  | recursionError
  /-- Any other subclass of `Exception`. -/
  | exception (name : String)
  /-- A `BaseException` that is not an `Exception`: `asyncio.CancelledError`,
      `SystemExit`, `KeyboardInterrupt`. -/
  | baseException (name : String)
  deriving DecidableEq, Repr

/-- Whether `except Exception` catches it. -/
def Exc.isException : Exc → Bool
  | .baseException _ => false
  | _ => true

/-- How code fails: with an `Exception`. -/
abbrev Failure := { e : Exc // e.isException = true }

/-- What a uuid is drawn for. -/
inductive UuidKind where
  | aggregate | span | archive | trace
  deriving DecidableEq, Repr

end DddService
