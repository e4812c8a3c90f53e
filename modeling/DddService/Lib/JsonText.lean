import Mathlib.Data.List.Basic
import DddService.Lib.PyText

/- JSON as text: `dumps` writes a value as Python's `json.dumps` does, with its separators
   `", "` and `": "`, and `decode` reads a text by the grammar of JSON, strictly: no control
   character stands in a string, and nothing but blanks comes after the value. A number is
   kept as its text. The floats that are no numbers of the grammar are values and are written,
   as Python does (`NaN`), but never read. Strings are read back as they were written (`spells_encode`); a text that
   is put between quotes as it is reads as itself only where all its characters are `plain`
   (`plain_of_string`). -/
namespace JsonText

/-! ## Numbers -/

def numberChar (c : Char) : Bool := c.isDigit || c ∈ ['-', '+', '.', 'e', 'E']

/-- One digit or more: what comes after them. -/
def digits (s : Text) : Option Text :=
  if (s.takeWhile Char.isDigit).isEmpty then none else some (s.dropWhile Char.isDigit)

def intPart : Text → Option Text
  | '0' :: s => some s
  | s => digits s

def fracPart : Text → Option Text
  | '.' :: s => digits s
  | s => some s

def exponent : Text → Option Text
  | '-' :: s => digits s
  | '+' :: s => digits s
  | s => digits s

def expPart : Text → Option Text
  | 'e' :: s => exponent s
  | 'E' :: s => exponent s
  | s => some s

def unsigned : Text → Text
  | '-' :: s => s
  | s => s

/-- `s` is a number by the grammar. -/
def isNumber (s : Text) : Bool :=
  s.all numberChar && (do expPart (← fracPart (← intPart (unsigned s)))) == some []

/-- A finite number, as it is written. -/
structure Number where
  text : Text
  valid : isNumber text = true
  deriving DecidableEq

/-- The floats that Python reads from `NaN`, `Infinity` or a literal like `1e999`. -/
inductive NonFinite where
  | nan
  | infinity
  | negInfinity
  deriving DecidableEq

/-- How `json.dumps` writes them. -/
def NonFinite.text : NonFinite → Text
  | .nan => "NaN".toList
  | .infinity => "Infinity".toList
  | .negInfinity => "-Infinity".toList

/-! ## Values -/

inductive Value where
  | null
  | bool (b : Bool)
  | num (n : Number)
  | nonfinite (x : NonFinite)
  | str (s : Text)
  | arr (items : List Value)
  | obj (members : List (Text × Value))

/-- What holds of a container when it holds of its contents holds of every value. -/
@[elab_as_elim]
theorem Value.induct {P : Value → Prop} (null : P .null) (bool : ∀ b, P (.bool b))
    (num : ∀ n, P (.num n)) (nonfinite : ∀ x, P (.nonfinite x)) (str : ∀ s, P (.str s))
    (arr : ∀ items, (∀ v ∈ items, P v) → P (.arr items))
    (obj : ∀ members, (∀ m ∈ members, P m.2) → P (.obj members)) (v : Value) : P v :=
  @Value.rec P (fun items => ∀ v ∈ items, P v) (fun members => ∀ m ∈ members, P m.2)
    (fun m => P m.2) null bool num nonfinite str arr obj
    (by simp) (fun _ _ hv hvs => List.forall_mem_cons.mpr ⟨hv, hvs⟩)
    (by simp) (fun _ _ hm hms => List.forall_mem_cons.mpr ⟨hm, hms⟩) (fun _ _ h => h) v

mutual
/-- No float in the value is infinite or not a number. -/
def Value.finite : Value → Bool
  | .nonfinite _ => false
  | .arr items => finiteItems items
  | .obj members => finiteMembers members
  | .null | .bool _ | .num _ | .str _ => true

def finiteItems : List Value → Bool
  | [] => true
  | v :: items => v.finite && finiteItems items

def finiteMembers : List (Text × Value) → Bool
  | [] => true
  | (_, v) :: members => v.finite && finiteMembers members
end

theorem finiteItems_iff {items : List Value} :
    finiteItems items = true ↔ ∀ v ∈ items, v.finite = true := by
  induction items with
  | nil => simp [finiteItems]
  | cons v items ih => simp [finiteItems, ih]

theorem finiteMembers_iff {members : List (Text × Value)} :
    finiteMembers members = true ↔ ∀ m ∈ members, m.2.finite = true := by
  induction members with
  | nil => simp [finiteMembers]
  | cons m members ih => simp [finiteMembers, ih]

@[simp] theorem finite_arr {items : List Value} :
    (Value.arr items).finite = true ↔ ∀ v ∈ items, v.finite = true := by
  rw [Value.finite, finiteItems_iff]

@[simp] theorem finite_obj {members : List (Text × Value)} :
    (Value.obj members).finite = true ↔ ∀ m ∈ members, m.2.finite = true := by
  rw [Value.finite, finiteMembers_iff]

@[simp] theorem finite_str (s : Text) : (Value.str s).finite = true := by rw [Value.finite]

/-! ## Writing -/

/-- `'{0:04x}'.format(n)` -/
def hex4 (n : Nat) : Text :=
  [(n / 4096 % 16).digitChar, (n / 256 % 16).digitChar, (n / 16 % 16).digitChar,
    (n % 16).digitChar]

def codeUnitEscape (n : Nat) : Text := '\\' :: 'u' :: hex4 n

/-- How a character of a string is written. -/
def escape (ensureAscii : Bool) (c : Char) : Text :=
  if c = '"' then ['\\', '"']
  else if c = '\\' then ['\\', '\\']
  else if c = '\n' then ['\\', 'n']
  else if c = '\r' then ['\\', 'r']
  else if c = '\t' then ['\\', 't']
  else if c = '\x0c' then ['\\', 'f']
  else if c = '\x08' then ['\\', 'b']
  else if c.toNat < 0x20 then codeUnitEscape c.toNat
  else if ensureAscii && 0x7e < c.toNat then
    if c.toNat ≤ 0xffff then codeUnitEscape c.toNat
    else
      codeUnitEscape (0xd800 + (c.toNat - 0x10000) / 0x400) ++
        codeUnitEscape (0xdc00 + (c.toNat - 0x10000) % 0x400)
  else [c]

def encode (ensureAscii : Bool) (s : Text) : Text := s.flatMap (escape ensureAscii)

def quote (s : Text) : Text := '"' :: s ++ ['"']

mutual
/-- `json.dumps(v, ensure_ascii=ensureAscii)` -/
def dumps (ensureAscii : Bool) : Value → Text
  | .null => "null".toList
  | .bool true => "true".toList
  | .bool false => "false".toList
  | .num n => n.text
  | .nonfinite x => x.text
  | .str s => quote (encode ensureAscii s)
  | .arr [] => "[]".toList
  | .arr (v :: items) => '[' :: dumps ensureAscii v ++ dumpsItems ensureAscii items
  | .obj [] => ['{', '}']
  | .obj ((k, v) :: members) =>
    '{' :: quote (encode ensureAscii k) ++ ": ".toList ++ dumps ensureAscii v ++
      dumpsMembers ensureAscii members

/-- The items after the first. -/
def dumpsItems (ensureAscii : Bool) : List Value → Text
  | [] => "]".toList
  | v :: items => ", ".toList ++ dumps ensureAscii v ++ dumpsItems ensureAscii items

/-- The members after the first. -/
def dumpsMembers (ensureAscii : Bool) : List (Text × Value) → Text
  | [] => ['}']
  | (k, v) :: members =>
    ", ".toList ++ quote (encode ensureAscii k) ++ ": ".toList ++ dumps ensureAscii v ++
      dumpsMembers ensureAscii members
end

/-! ## Reading -/

def blank (c : Char) : Bool := c ∈ [' ', '\t', '\n', '\r']

def skipBlanks (s : Text) : Text := s.dropWhile blank

def hexValue (c : Char) : Option Nat :=
  if '0' ≤ c ∧ c ≤ '9' then some (c.toNat - 48)
  else if 'a' ≤ c ∧ c ≤ 'f' then some (c.toNat - 87)
  else if 'A' ≤ c ∧ c ≤ 'F' then some (c.toNat - 55)
  else none

/-- Four hex digits. -/
def codeUnit : Text → Option (Nat × Text)
  | a :: b :: c :: d :: s => do
    pure (((← hexValue a) * 4096 + (← hexValue b) * 256 + (← hexValue c) * 16 + (← hexValue d)), s)
  | _ => none

/-- The second of two surrogates, where `hi` is the first. -/
def lowSurrogate (hi : Nat) : Text → Option (Char × Text)
  | '\\' :: 'u' :: s => do
    let (lo, s) ← codeUnit s
    if 0xdc00 ≤ lo ∧ lo ≤ 0xdfff then
      pure (Char.ofNat (0x10000 + (hi - 0xd800) * 0x400 + (lo - 0xdc00)), s)
    else none
  | _ => none

/-- What comes after `\u`. A surrogate by itself is no character. -/
def unicodeEscape (s : Text) : Option (Char × Text) := do
  let (n, s) ← codeUnit s
  if n < 0xd800 ∨ 0xdfff < n then pure (Char.ofNat n, s)
  else if n < 0xdc00 then lowSurrogate n s
  else none

def simpleEscape (c : Char) : Option Char :=
  if c = '"' ∨ c = '\\' ∨ c = '/' then some c
  else if c = 'n' then some '\n'
  else if c = 'r' then some '\r'
  else if c = 't' then some '\t'
  else if c = 'f' then some '\x0c'
  else if c = 'b' then some '\x08'
  else none

/-- What comes after a backslash. -/
def escapeSequence : Text → Option (Char × Text)
  | [] => none
  | c :: s => if c = 'u' then unicodeEscape s else (simpleEscape c).map fun x => (x, s)

/-- A string goes on with a character, or ends: `none`. -/
def nextChar : Text → Option (Option Char × Text)
  | [] => none
  | c :: s =>
    if c = '"' then some (none, s)
    else if c = '\\' then (escapeSequence s).map fun p => (some p.1, p.2)
    else if c.toNat < 0x20 then none
    else some (some c, s)

/-- A character that stands for itself in a string. -/
def plain (c : Char) : Bool := c != '"' && c != '\\' && 0x20 ≤ c.toNat

theorem codeUnit_eq {s r : Text} {n : Nat} (h : codeUnit s = some (n, r)) :
    ∃ p, s = p ++ r ∧ p.length = 4 := by
  match s, h with
  | a :: b :: c :: d :: s, h =>
    simp only [codeUnit, Option.bind_eq_bind, Option.bind_eq_some_iff, Option.pure_def,
      Option.some.injEq, Prod.mk.injEq] at h
    obtain ⟨_, _, _, _, _, _, _, _, _, rfl⟩ := h
    exact ⟨[a, b, c, d], rfl, rfl⟩

theorem lowSurrogate_eq {hi : Nat} {s r : Text} {c : Char}
    (h : lowSurrogate hi s = some (c, r)) : ∃ p, s = p ++ r ∧ p.length = 6 := by
  unfold lowSurrogate at h
  split at h
  · rename_i s
    obtain ⟨⟨lo, s'⟩, hs, hlo⟩ := Option.bind_eq_some_iff.mp h
    obtain ⟨p, rfl, hp⟩ := codeUnit_eq hs
    dsimp only at hlo
    split at hlo
    · rw [Option.pure_def, Option.some.injEq, Prod.mk.injEq] at hlo
      obtain ⟨-, rfl⟩ := hlo
      exact ⟨'\\' :: 'u' :: p, rfl, by simp [hp]⟩
    · cases hlo
  · cases h

theorem unicodeEscape_eq {s r : Text} {c : Char} (h : unicodeEscape s = some (c, r)) :
    ∃ p, s = p ++ r ∧ 4 ≤ p.length := by
  obtain ⟨⟨n, s'⟩, hs, hn⟩ := Option.bind_eq_some_iff.mp h
  obtain ⟨p, rfl, hp⟩ := codeUnit_eq hs
  dsimp only at hn
  split at hn
  · cases hn
    exact ⟨p, rfl, by omega⟩
  · split at hn
    · obtain ⟨q, rfl, hq⟩ := lowSurrogate_eq hn
      exact ⟨p ++ q, by simp, by simp; omega⟩
    · cases hn

theorem escapeSequence_eq {s r : Text} {c : Char} (h : escapeSequence s = some (c, r)) :
    ∃ p, s = p ++ r ∧ 1 ≤ p.length := by
  cases s with
  | nil => cases h
  | cons d s =>
    simp only [escapeSequence] at h
    split at h
    · obtain ⟨p, rfl, hp⟩ := unicodeEscape_eq h
      exact ⟨d :: p, rfl, by simp⟩
    · obtain ⟨x, -, h⟩ := Option.map_eq_some_iff.mp h
      cases h
      exact ⟨[d], rfl, by simp⟩

/-- What is taken for a character: the character itself, or an escape of two characters or
    more; and for the end of a string, its quote. -/
theorem nextChar_eq {s r : Text} {o : Option Char} (h : nextChar s = some (o, r)) :
    (o = none ∧ s = '"' :: r) ∨ (∃ c, o = some c ∧ s = c :: r ∧ plain c = true) ∨
      ∃ c p, o = some c ∧ s = p ++ r ∧ 2 ≤ p.length := by
  cases s with
  | nil => cases h
  | cons d s =>
    simp only [nextChar] at h
    split at h
    · rename_i hquote
      cases h
      exact .inl ⟨rfl, by rw [hquote]⟩
    · rename_i hquote
      split at h
      · obtain ⟨⟨c, r'⟩, hp, h⟩ := Option.map_eq_some_iff.mp h
        cases h
        obtain ⟨p, rfl, hp⟩ := escapeSequence_eq hp
        exact .inr (.inr ⟨c, d :: p, rfl, rfl, by simp; omega⟩)
      · rename_i hbackslash
        split at h
        · cases h
        · rename_i hcontrol
          cases h
          exact .inr (.inl ⟨d, rfl, rfl, by simp [plain, hquote, hbackslash]; omega⟩)

theorem nextChar_length {s r : Text} {o : Option Char} (h : nextChar s = some (o, r)) :
    r.length < s.length := by
  obtain ⟨-, rfl⟩ | ⟨c, -, rfl, -⟩ | ⟨c, p, -, rfl, hp⟩ := nextChar_eq h <;> simp
  omega

/-- A string, from the character after its opening quote on: the text in it, and what comes
    after its closing quote. -/
def string (s : Text) : Option (Text × Text) :=
  match h : nextChar s with
  | none => none
  | some (none, r) => some ([], r)
  | some (some c, r) =>
    have := nextChar_length h
    (string r).map fun p => (c :: p.1, p.2)
termination_by s.length

/-- A value that is one word: a constant or a number. -/
def word : Text → Option (Value × Text)
  | 'n' :: 'u' :: 'l' :: 'l' :: s => some (.null, s)
  | 't' :: 'r' :: 'u' :: 'e' :: s => some (.bool true, s)
  | 'f' :: 'a' :: 'l' :: 's' :: 'e' :: s => some (.bool false, s)
  | s =>
    if h : isNumber (s.takeWhile numberChar) = true then
      some (.num ⟨s.takeWhile numberChar, h⟩, s.dropWhile numberChar)
    else none

mutual
/-- A value at the beginning of a text, and what comes after it. Each call but the first
    takes a character or more, so `n` may be the length of the text. -/
def value : Nat → Text → Option (Value × Text)
  | 0, _ => none
  | n + 1, s =>
    match skipBlanks s with
    | '"' :: r => (string r).map fun p => (.str p.1, p.2)
    | '[' :: r =>
      match skipBlanks r with
      | ']' :: r => some (.arr [], r)
      | r => (items n r).map fun p => (.arr p.1, p.2)
    | '{' :: r =>
      match skipBlanks r with
      | '}' :: r => some (.obj [], r)
      | r => (members n r).map fun p => (.obj p.1, p.2)
    | r => word r

/-- The items of an array up to its closing bracket. -/
def items : Nat → Text → Option (List Value × Text)
  | 0, _ => none
  | n + 1, s => do
    let (v, r) ← value n s
    match skipBlanks r with
    | ',' :: r => (items n r).map fun p => (v :: p.1, p.2)
    | ']' :: r => some ([v], r)
    | _ => none

/-- The members of an object up to its closing brace. -/
def members : Nat → Text → Option (List (Text × Value) × Text)
  | 0, _ => none
  | n + 1, s => do
    let ((k, v), r) ← member n s
    match skipBlanks r with
    | ',' :: r => (members n r).map fun p => ((k, v) :: p.1, p.2)
    | '}' :: r => some ([(k, v)], r)
    | _ => none

def member : Nat → Text → Option ((Text × Value) × Text)
  | 0, _ => none
  | n + 1, s =>
    match skipBlanks s with
    | '"' :: r => do
      let (k, r) ← string r
      match skipBlanks r with
      | ':' :: r => (value n r).map fun p => ((k, p.1), p.2)
      | _ => none
    | _ => none
end

/-- A text that is one value by the grammar. -/
def decode (s : Text) : Option Value :=
  match value s.length s with
  | some (v, r) => if skipBlanks r = [] then some v else none
  | none => none

/-! ## Strings -/

theorem hexValue_digitChar : ∀ d < 16, hexValue d.digitChar = some d := by decide

theorem codeUnit_hex4 {n : Nat} (h : n < 0x10000) (r : Text) :
    codeUnit (hex4 n ++ r) = some (n, r) := by
  have hdigit := fun m => hexValue_digitChar (m % 16) (Nat.mod_lt m (by decide))
  have hvalue : n / 4096 % 16 * 4096 + n / 256 % 16 * 256 + n / 16 % 16 * 16 + n % 16 = n := by
    omega
  simp [hex4, codeUnit, hdigit, hvalue]

/-- The code of a character is no surrogate. -/
theorem toNat_bounds (c : Char) :
    (c.toNat < 0xd800 ∨ 0xdfff < c.toNat) ∧ c.toNat < 0x110000 := by
  have h : c.val.toNat < 0xd800 ∨ (0xdfff < c.val.toNat ∧ c.val.toNat < 0x110000) := c.valid
  have hval : c.toNat = c.val.toNat := rfl
  omega

theorem unicodeEscape_codeUnit {c : Char} (h : c.toNat ≤ 0xffff) (r : Text) :
    unicodeEscape (hex4 c.toNat ++ r) = some (c, r) := by
  have hbounds := (toNat_bounds c).1
  simp only [unicodeEscape, codeUnit_hex4 (by omega : c.toNat < 0x10000), Option.bind_eq_bind,
    Option.bind_some]
  rw [if_pos hbounds, Char.ofNat_toNat, Option.pure_def]

/-- Two surrogates, one after the other. -/
theorem unicodeEscape_pair {hi lo : Nat} (hhi : 0xd800 ≤ hi ∧ hi < 0xdc00)
    (hlo : 0xdc00 ≤ lo ∧ lo ≤ 0xdfff) (r : Text) :
    unicodeEscape (hex4 hi ++ (codeUnitEscape lo ++ r)) =
      some (Char.ofNat (0x10000 + (hi - 0xd800) * 0x400 + (lo - 0xdc00)), r) := by
  simp only [unicodeEscape, codeUnit_hex4 (by omega : hi < 0x10000), Option.bind_eq_bind,
    Option.bind_some]
  rw [if_neg (by omega), if_pos hhi.2]
  simp only [codeUnitEscape, List.cons_append, lowSurrogate, Option.bind_eq_bind,
    codeUnit_hex4 (by omega : lo < 0x10000), Option.bind_some]
  rw [if_pos hlo, Option.pure_def]

theorem unicodeEscape_surrogates {c : Char} (h : 0xffff < c.toNat) (r : Text) :
    unicodeEscape (hex4 (0xd800 + (c.toNat - 0x10000) / 0x400) ++
      (codeUnitEscape (0xdc00 + (c.toNat - 0x10000) % 0x400) ++ r)) = some (c, r) := by
  have hbounds := (toNat_bounds c).2
  have hvalue : 0x10000 + (0xd800 + (c.toNat - 0x10000) / 0x400 - 0xd800) * 0x400 +
      (0xdc00 + (c.toNat - 0x10000) % 0x400 - 0xdc00) = c.toNat := by omega
  rw [unicodeEscape_pair (by omega) (by omega), hvalue, Char.ofNat_toNat]

/-- A character that stands for itself is taken as it is. -/
theorem nextChar_plain {c : Char} (h : plain c = true) (r : Text) :
    nextChar (c :: r) = some (some c, r) := by
  simp only [plain, Bool.and_eq_true, bne_iff_ne, ne_eq, decide_eq_true_eq] at h
  simp only [nextChar]
  rw [if_neg h.1.1, if_neg h.1.2, if_neg (by omega)]

/-- What is written for a character is taken for it. -/
theorem nextChar_escape (ensureAscii : Bool) (c : Char) (r : Text) :
    nextChar (escape ensureAscii c ++ r) = some (some c, r) := by
  have hsimple : ∀ d x, simpleEscape d = some x → d ≠ 'u' →
      nextChar ('\\' :: d :: r) = some (some x, r) := by
    intro d x hd hu
    simp [nextChar, escapeSequence, hd, hu]
  have hunicode : ∀ s, unicodeEscape s = some (c, r) →
      nextChar ('\\' :: 'u' :: s) = some (some c, r) := by
    intro s hs
    simp [nextChar, escapeSequence, hs]
  unfold escape
  split_ifs with h1 h2 h3 h4 h5 h6 h7 h8 h9 h10
  · subst h1
    exact hsimple _ _ rfl (by decide)
  · subst h2
    exact hsimple _ _ rfl (by decide)
  · subst h3
    exact hsimple _ _ rfl (by decide)
  · subst h4
    exact hsimple _ _ rfl (by decide)
  · subst h5
    exact hsimple _ _ rfl (by decide)
  · subst h6
    exact hsimple _ _ rfl (by decide)
  · subst h7
    exact hsimple _ _ rfl (by decide)
  · exact hunicode _ (unicodeEscape_codeUnit (by omega) r)
  · exact hunicode _ (unicodeEscape_codeUnit h10 r)
  · rw [List.append_assoc]
    exact hunicode _ (unicodeEscape_surrogates (by omega) r)
  · exact nextChar_plain (by simp [plain, h1, h2]; omega) r

theorem string_eq (s : Text) : string s = match nextChar s with
    | none => none
    | some (none, r) => some ([], r)
    | some (some c, r) => (string r).map fun p => (c :: p.1, p.2) := by
  rw [string]
  split <;> simp_all

@[simp] theorem string_quote (r : Text) : string ('"' :: r) = some ([], r) := by
  rw [string_eq]
  rfl

theorem string_next {s r : Text} {c : Char} (h : nextChar s = some (some c, r)) :
    string s = (string r).map fun p => (c :: p.1, p.2) := by
  rw [string_eq, h]

theorem string_none {s : Text} (h : nextChar s = none) : string s = none := by
  rw [string_eq, h]

/-- `t` stands for `s` in a string. -/
def Spells (t s : Text) : Prop := ∀ r, string (t ++ '"' :: r) = some (s, r)

theorem Spells.nil : Spells [] [] := fun r => string_quote r

theorem Spells.cons {c : Char} {p t s : Text}
    (hp : ∀ r, nextChar (p ++ r) = some (some c, r)) (h : Spells t s) :
    Spells (p ++ t) (c :: s) := by
  intro r
  rw [List.append_assoc, string_next (hp _), h r]
  rfl

theorem spells_encode (ensureAscii : Bool) (s : Text) : Spells (encode ensureAscii s) s := by
  induction s with
  | nil => exact .nil
  | cons c s ih => exact .cons (nextChar_escape ensureAscii c) ih

theorem spells_plain {s : Text} (h : s.all plain = true) : Spells s s := by
  induction s with
  | nil => exact .nil
  | cons c s ih =>
    rw [List.all_cons, Bool.and_eq_true] at h
    exact .cons (p := [c]) (nextChar_plain h.1) (ih h.2)

/-! ## Raw text in a string -/

theorem string_length {s t r : Text} (h : string s = some (t, r)) : t.length < s.length := by
  induction hn : s.length using Nat.strongRecOn generalizing s t r with
  | ind n ih =>
    subst hn
    cases hs : nextChar s with
    | none => rw [string_none hs] at h; cases h
    | some p =>
      obtain ⟨o, r'⟩ := p
      have hlength := nextChar_length hs
      cases o with
      | none =>
        rw [string_eq, hs] at h
        cases h
        exact Nat.zero_lt_of_lt hlength
      | some c =>
        rw [string_next hs] at h
        obtain ⟨⟨t', r''⟩, hr, h⟩ := Option.map_eq_some_iff.mp h
        cases h
        have := ih _ hlength hr rfl
        simp only [List.length_cons]
        omega

/-! A text that something is appended to is read as before, as far as it was read; and where a
    quote comes next, what could not be read stays unreadable. -/

theorem codeUnit_append {s r : Text} {n : Nat} (h : codeUnit s = some (n, r)) (t : Text) :
    codeUnit (s ++ t) = some (n, r ++ t) := by
  match s, h with
  | a :: b :: c :: d :: s, h =>
    simp only [codeUnit, List.cons_append, Option.bind_eq_bind, Option.bind_eq_some_iff,
      Option.pure_def, Option.some.injEq, Prod.mk.injEq] at h ⊢
    obtain ⟨w, hw, x, hx, y, hy, z, hz, rfl, rfl⟩ := h
    exact ⟨w, hw, x, hx, y, hy, z, hz, rfl, rfl⟩

theorem codeUnit_none {s : Text} (h : codeUnit s = none) (t : Text) :
    codeUnit (s ++ '"' :: t) = none := by
  have hquote : hexValue '"' = none := by decide
  match s with
  | [] => rcases t with _ | ⟨b, _ | ⟨c, _ | ⟨d, t⟩⟩⟩ <;> simp [codeUnit, hquote]
  | [a] => rcases t with _ | ⟨c, _ | ⟨d, t⟩⟩ <;> simp [codeUnit, hquote]
  | [a, b] => rcases t with _ | ⟨d, t⟩ <;> simp [codeUnit, hquote]
  | [a, b, c] => simp [codeUnit, hquote]
  | a :: b :: c :: d :: s =>
    simp only [codeUnit, List.cons_append, Option.bind_eq_bind, Option.bind_eq_none_iff,
      Option.pure_def, reduceCtorEq] at h ⊢
    exact h

theorem lowSurrogate_append {hi : Nat} {s r : Text} {c : Char}
    (h : lowSurrogate hi s = some (c, r)) (t : Text) :
    lowSurrogate hi (s ++ t) = some (c, r ++ t) := by
  unfold lowSurrogate at h
  split at h
  · rename_i s
    obtain ⟨⟨lo, s'⟩, hs, hlo⟩ := Option.bind_eq_some_iff.mp h
    simp only [List.cons_append, lowSurrogate, codeUnit_append hs t, Option.bind_eq_bind,
      Option.bind_some]
    dsimp only at hlo
    split at hlo
    · rename_i hbounds
      rw [Option.pure_def, Option.some.injEq, Prod.mk.injEq] at hlo
      obtain ⟨rfl, rfl⟩ := hlo
      rw [if_pos hbounds, Option.pure_def]
    · cases hlo
  · cases h

theorem lowSurrogate_none {hi : Nat} {s : Text} (h : lowSurrogate hi s = none) (t : Text) :
    lowSurrogate hi (s ++ '"' :: t) = none := by
  rcases s with _ | ⟨c, _ | ⟨d, s⟩⟩
  · simp [lowSurrogate]
  · simp [lowSurrogate]
  · by_cases hcd : c = '\\' ∧ d = 'u'
    · obtain ⟨rfl, rfl⟩ := hcd
      simp only [List.cons_append, lowSurrogate, Option.bind_eq_bind] at h ⊢
      cases hs : codeUnit s with
      | none => rw [codeUnit_none hs, Option.bind_none]
      | some p =>
        rw [hs, Option.bind_some] at h
        rw [codeUnit_append hs, Option.bind_some]
        dsimp only at h ⊢
        split
        · rename_i hbounds
          rw [if_pos hbounds] at h
          cases h
        · rfl
    · rw [List.cons_append, List.cons_append, lowSurrogate]
      intro s' heq
      cases heq
      exact hcd ⟨rfl, rfl⟩

theorem unicodeEscape_append {s r : Text} {c : Char} (h : unicodeEscape s = some (c, r))
    (t : Text) : unicodeEscape (s ++ t) = some (c, r ++ t) := by
  obtain ⟨⟨n, s'⟩, hs, hn⟩ := Option.bind_eq_some_iff.mp h
  simp only [unicodeEscape, codeUnit_append hs t, Option.bind_eq_bind, Option.bind_some]
  dsimp only at hn
  split at hn
  · rename_i hbounds
    rw [Option.pure_def, Option.some.injEq, Prod.mk.injEq] at hn
    obtain ⟨rfl, rfl⟩ := hn
    rw [if_pos hbounds, Option.pure_def]
  · rename_i hbounds
    rw [if_neg hbounds]
    split at hn
    · rename_i hhi
      rw [if_pos hhi]
      exact lowSurrogate_append hn t
    · cases hn

theorem unicodeEscape_none {s : Text} (h : unicodeEscape s = none) (t : Text) :
    unicodeEscape (s ++ '"' :: t) = none := by
  unfold unicodeEscape at h ⊢
  rw [Option.bind_eq_bind] at h ⊢
  cases hs : codeUnit s with
  | none => rw [codeUnit_none hs, Option.bind_none]
  | some p =>
    rw [hs, Option.bind_some] at h
    rw [codeUnit_append hs, Option.bind_some]
    dsimp only at h ⊢
    split
    · rename_i hbounds
      rw [if_pos hbounds] at h
      cases h
    · rename_i hbounds
      rw [if_neg hbounds] at h
      split
      · rename_i hhi
        rw [if_pos hhi] at h
        exact lowSurrogate_none h t
      · rfl

theorem escapeSequence_append {s r : Text} {c : Char} (h : escapeSequence s = some (c, r))
    (t : Text) : escapeSequence (s ++ t) = some (c, r ++ t) := by
  cases s with
  | nil => cases h
  | cons d s =>
    simp only [escapeSequence, List.cons_append] at h ⊢
    split at h
    · rename_i hd
      rw [if_pos hd]
      exact unicodeEscape_append h t
    · rename_i hd
      obtain ⟨x, hx, h⟩ := Option.map_eq_some_iff.mp h
      cases h
      rw [if_neg hd, hx]
      rfl

theorem escapeSequence_none {s : Text} (hs : s ≠ []) (h : escapeSequence s = none) (t : Text) :
    escapeSequence (s ++ '"' :: t) = none := by
  cases s with
  | nil => exact absurd rfl hs
  | cons d s =>
    simp only [escapeSequence, List.cons_append] at h ⊢
    split at h
    · rename_i hd
      rw [if_pos hd]
      exact unicodeEscape_none h t
    · rename_i hd
      rw [if_neg hd, Option.map_eq_none_iff.mp h, Option.map_none]

theorem nextChar_append {s r : Text} {o : Option Char} (h : nextChar s = some (o, r)) (t : Text) :
    nextChar (s ++ t) = some (o, r ++ t) := by
  cases s with
  | nil => cases h
  | cons c s =>
    simp only [nextChar, List.cons_append] at h ⊢
    split_ifs at h ⊢ with hquote hbackslash hcontrol
    · cases h
      rfl
    · obtain ⟨p, hp, h⟩ := Option.map_eq_some_iff.mp h
      cases h
      rw [escapeSequence_append hp]
      rfl
    · cases h
      rfl

theorem nextChar_none {s : Text} (hs : s ≠ []) (hb : s ≠ ['\\']) (h : nextChar s = none)
    (t : Text) : nextChar (s ++ '"' :: t) = none := by
  cases s with
  | nil => exact absurd rfl hs
  | cons c s =>
    simp only [nextChar, List.cons_append] at h ⊢
    split_ifs at h ⊢ with hquote hbackslash hcontrol
    · have hne : s ≠ [] := by
        rintro rfl
        exact hb (by rw [hbackslash])
      rw [escapeSequence_none hne (Option.map_eq_none_iff.mp h), Option.map_none]
    · rfl

/-- What is read of a raw text `s` before `", "`: the text, if its characters are plain;
    otherwise a shorter text, or one that ends in the blank, where `s` ends in a backslash. -/
theorem string_raw {s t r u : Text} (h : string (s ++ '"' :: ',' :: ' ' :: '"' :: u) = some (t, r)) :
    (s.all plain = true ∧ t = s) ∨ t.length < s.length ∨
      (s.getLast? = some '\\' ∧ t.getLast? = some ' ') := by
  -- by the length of `s`: one character or escape of it is read at a time
  induction hn : s.length using Nat.strongRecOn generalizing s t r with
  | ind n ih =>
    subst hn
    cases hs : nextChar s with
    | none =>
      by_cases hnil : s = []
      · subst hnil
        rw [List.nil_append, string_quote] at h
        cases h
        exact .inl ⟨rfl, rfl⟩
      · by_cases hb : s = ['\\']
        · -- `s` is one backslash: it escapes the quote, and the string goes on to the next one
          subst hb
          have hquote : nextChar ('\\' :: '"' :: ',' :: ' ' :: '"' :: u) =
              some (some '"', ',' :: ' ' :: '"' :: u) := rfl
          rw [List.singleton_append, string_next hquote, string_next (nextChar_plain rfl _),
            string_next (nextChar_plain rfl _), string_quote] at h
          cases h
          exact .inr (.inr ⟨rfl, rfl⟩)
        · rw [string_none (nextChar_none hnil hb hs _)] at h
          cases h
    | some p =>
      obtain ⟨o, s'⟩ := p
      have hnext := nextChar_append hs ('"' :: ',' :: ' ' :: '"' :: u)
      have hlength := nextChar_length hs
      cases o with
      | none =>
        rw [string_eq, hnext] at h
        cases h
        exact .inr (.inl (Nat.zero_lt_of_lt hlength))
      | some c =>
        rw [string_next hnext] at h
        obtain ⟨⟨t', r'⟩, ht', h⟩ := Option.map_eq_some_iff.mp h
        cases h
        have hrest := ih _ hlength ht' rfl
        have hend : s'.getLast? = some '\\' ∧ t'.getLast? = some ' ' → ∀ p, s = p ++ s' →
            s.getLast? = some '\\' ∧ (c :: t').getLast? = some ' ' := by
          rintro ⟨hs', ht'⟩ p rfl
          rw [List.getLast?_append, List.getLast?_cons, hs', ht']
          exact ⟨rfl, rfl⟩
        obtain ⟨ho, -⟩ | ⟨c', ho, rfl, hplain⟩ | ⟨c', p, -, rfl, hp⟩ := nextChar_eq hs
        · cases ho
        · cases ho
          obtain ⟨hall, rfl⟩ | hshort | hlast := hrest
          · exact .inl ⟨by rw [List.all_cons, hplain, hall]; rfl, rfl⟩
          · exact .inr (.inl (by simpa using hshort))
          · exact .inr (.inr (hend hlast [c] rfl))
        · obtain ⟨hall, rfl⟩ | hshort | hlast := hrest
          · exact .inr (.inl (by simp only [List.length_cons, List.length_append]; omega))
          · exact .inr (.inl (by simp only [List.length_cons, List.length_append]; omega))
          · exact .inr (.inr (hend hlast p rfl))

/-- A raw text that reads as itself before `", "` has only plain characters. -/
theorem plain_of_string {s r u : Text}
    (h : string (s ++ '"' :: ',' :: ' ' :: '"' :: u) = some (s, r)) : s.all plain = true := by
  obtain ⟨hall, -⟩ | hshort | ⟨hslash, hblank⟩ := string_raw h
  · exact hall
  · omega
  · rw [hslash] at hblank
    cases hblank

end JsonText
