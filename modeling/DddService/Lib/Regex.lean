import Mathlib.Data.List.Infix

/- Regular expressions of anchors and single characters under alternation, as a
   program builds them around texts it has escaped. `parse` reads the written form
   with the usual precedence: `|` binds weakest, so an anchor belongs to the
   alternative it stands in. `escape` is `re.escape`; `parse_escape` says that an
   escaped text reads as exactly its characters. -/
namespace Regex

inductive Atom where
  /-- `^` -/
  | start
  /-- `$` -/
  | stop
  | char (c : Char)
  deriving DecidableEq, Repr

/-- The alternatives, each a sequence of atoms. -/
abbrev Alternatives := List (List Atom)

/-! ## The written form -/

/-- An atom before a regular expression: it joins the first alternative. -/
def prepend (a : Atom) : Alternatives → Alternatives
  | [] => [[a]]
  | b :: bs => (a :: b) :: bs

/-- The operators that are not read here. -/
def unread : List Char := ['.', '*', '+', '?', '(', ')', '[', ']', '{', '}']

/-- A character that no backslash precedes, before the expression `r`. -/
def readChar (c : Char) (r : Alternatives) : Option Alternatives :=
  if c = '|' then some ([] :: r)
  else if c = '^' then some (prepend .start r)
  else if c = '$' then some (prepend .stop r)
  else if c ∈ unread then none
  else some (prepend (.char c) r)

/-- Reads a regular expression; `none` if it uses anything else. `escaping` says that a
    backslash was read just before: a letter or digit would be an escape class. -/
def parse : (escaping : Bool) → List Char → Option Alternatives
  | false, [] => some [[]]
  | true, [] => none
  | true, c :: cs =>
    if c.isAlphanum then none else (parse false cs).map (prepend (.char c))
  | false, c :: cs => if c = '\\' then parse true cs else (parse false cs).bind (readChar c)

/-- The characters `re.escape` puts a backslash before. -/
def escaped : List Char :=
  ['(', ')', '[', ']', '{', '}', '?', '*', '+', '-', '|', '^', '$', '\\', '.', '&', '~', '#',
    ' ', '\t', '\n', '\r', '\x0b', '\x0c']

def escape (s : List Char) : List Char :=
  s.flatMap fun c => if c ∈ escaped then ['\\', c] else [c]

/-! ## Matching -/

/-- Whether a sequence matches at the head of `rest`; `first` says that nothing of the
    value stands before it. -/
def matchAt : List Atom → (first : Bool) → (rest : List Char) → Bool
  | [], _, _ => true
  | .start :: as, first, rest => first && matchAt as first rest
  | .stop :: as, first, rest => rest.isEmpty && matchAt as first rest
  | .char _ :: _, _, [] => false
  | .char c :: as, _, d :: rest => c == d && matchAt as false rest

/-- Whether a sequence matches at the head of `rest` or later. -/
def matchFrom (as : List Atom) (first : Bool) : List Char → Bool
  | [] => matchAt as first []
  | d :: rest => matchAt as first (d :: rest) || matchFrom as false rest

/-- Whether the regular expression matches somewhere in the value. -/
def search (r : Alternatives) (value : List Char) : Bool := r.any fun as => matchFrom as true value

/-- The atoms that match exactly `s`. -/
def literal (s : List Char) : List Atom := s.map .char

section
variable {s value rest : List Char} {as : List Atom} {first : Bool}

theorem matchFrom_iff : matchFrom as first value = true ↔
    ∃ before rest, value = before ++ rest ∧
      matchAt as (first && before.isEmpty) rest = true := by
  induction value generalizing first with
  | nil =>
    constructor
    · intro h
      exact ⟨[], [], rfl, by simpa [matchFrom] using h⟩
    · rintro ⟨before, rest, hv, h⟩
      obtain ⟨rfl, rfl⟩ := List.append_eq_nil_iff.mp hv.symm
      simpa [matchFrom] using h
  | cons d value ih =>
    rw [matchFrom, Bool.or_eq_true, ih]
    constructor
    · rintro (h | ⟨before, rest, rfl, h⟩)
      · exact ⟨[], d :: value, rfl, by simpa using h⟩
      · exact ⟨d :: before, rest, rfl, by simpa using h⟩
    · rintro ⟨before, rest, hv, h⟩
      cases before with
      | nil =>
        subst hv
        exact Or.inl (by simpa using h)
      | cons d' before =>
        obtain ⟨rfl, rfl⟩ := List.cons.inj hv
        exact Or.inr ⟨before, rest, rfl, by simpa using h⟩

/-- A literal consumes its characters; what comes after it is no longer at the start,
    unless it has none. -/
theorem matchAt_literal_append : matchAt (literal s ++ as) first value = true ↔
    ∃ rest, value = s ++ rest ∧ matchAt as (first && s.isEmpty) rest = true := by
  induction s generalizing first value with
  | nil => simp [literal]
  | cons c s ih =>
    cases value with
    | nil => simp [literal, matchAt]
    | cons d value =>
      change (c == d && matchAt (literal s ++ as) false value) = true ↔ _
      rw [Bool.and_eq_true, beq_iff_eq, ih]
      constructor
      · rintro ⟨rfl, rest, rfl, h⟩
        exact ⟨rest, rfl, by simpa using h⟩
      · rintro ⟨rest, hv, h⟩
        obtain ⟨rfl, rfl⟩ := List.cons.inj hv
        exact ⟨rfl, rest, rfl, by simpa using h⟩

theorem matchAt_literal : matchAt (literal s) first value = true ↔ s <+: value := by
  rw [← List.append_nil (literal s), matchAt_literal_append]
  constructor
  · rintro ⟨rest, rfl, _⟩
    exact List.prefix_append s rest
  · rintro ⟨rest, rfl⟩
    exact ⟨rest, rfl, rfl⟩

theorem matchAt_literal_stop :
    matchAt (literal s ++ [.stop]) first value = true ↔ value = s := by
  rw [matchAt_literal_append]
  constructor
  · rintro ⟨rest, rfl, h⟩
    have hrest : rest = [] := by simpa [matchAt] using h
    rw [hrest, List.append_nil]
  · rintro rfl
    exact ⟨[], (List.append_nil _).symm, rfl⟩

theorem search_literal : matchFrom (literal s) true value = true ↔ s <:+: value := by
  rw [matchFrom_iff]
  constructor
  · rintro ⟨before, rest, rfl, h⟩
    obtain ⟨after, rfl⟩ := matchAt_literal.mp h
    exact ⟨before, after, by rw [List.append_assoc]⟩
  · rintro ⟨before, after, rfl⟩
    exact ⟨before, s ++ after, by rw [List.append_assoc], matchAt_literal.mpr ⟨after, rfl⟩⟩

theorem matchFrom_start :
    matchFrom (.start :: as) true value = true ↔ matchAt as true value = true := by
  rw [matchFrom_iff]
  constructor
  · rintro ⟨before, rest, rfl, h⟩
    cases before with
    | nil => simpa [matchAt] using h
    | cons d before => simp [matchAt] at h
  · intro h
    exact ⟨[], value, rfl, by simpa [matchAt] using h⟩

theorem search_start_literal :
    matchFrom (.start :: literal s) true value = true ↔ s <+: value := by
  rw [matchFrom_start, matchAt_literal]

theorem search_literal_stop :
    matchFrom (literal s ++ [.stop]) true value = true ↔ s <:+ value := by
  rw [matchFrom_iff]
  constructor
  · rintro ⟨before, rest, rfl, h⟩
    rw [matchAt_literal_stop.mp h]
    exact List.suffix_append before s
  · rintro ⟨before, rfl⟩
    exact ⟨before, s, rfl, matchAt_literal_stop.mpr rfl⟩

theorem search_start_literal_stop :
    matchFrom (.start :: (literal s ++ [.stop])) true value = true ↔ value = s := by
  rw [matchFrom_start, matchAt_literal_stop]

end

/-! ## Reading what was written -/

/-- Several atoms before a regular expression. -/
def prependAll (as : List Atom) (r : Alternatives) : Alternatives := as.foldr prepend r

@[simp] theorem prependAll_nil (r : Alternatives) : prependAll [] r = r := rfl

theorem prependAll_singleton (a : Atom) (r : Alternatives) : prependAll [a] r = prepend a r := rfl

@[simp] theorem prependAll_cons (as b : List Atom) (bs : Alternatives) :
    prependAll as (b :: bs) = (as ++ b) :: bs := by
  induction as with
  | nil => rfl
  | cons a as ih =>
    change prepend a (prependAll as (b :: bs)) = _
    rw [ih]
    rfl

theorem escaped_not_alphanum {c : Char} (hc : c ∈ escaped) : c.isAlphanum = false := by
  have hall : escaped.all (fun c => !c.isAlphanum) = true := by decide
  simpa using List.all_eq_true.mp hall c hc

/-- Whatever is read as more than itself is escaped. -/
theorem escaped_of_unread {c : Char} (hc : c ∈ unread) : c ∈ escaped := by
  have hall : unread.all (escaped.contains ·) = true := by decide
  simpa using List.all_eq_true.mp hall c hc

theorem readChar_of_not_escaped {c : Char} (hc : c ∉ escaped) (r : Alternatives) :
    readChar c r = some (prepend (.char c) r) := by
  have hne : ∀ d ∈ escaped, c ≠ d := fun d hd h => hc (h ▸ hd)
  unfold readChar
  rw [if_neg (hne '|' (by decide)), if_neg (hne '^' (by decide)), if_neg (hne '$' (by decide)),
    if_neg (fun hu => hc (escaped_of_unread hu))]

theorem parse_escape (s cs : List Char) :
    parse false (escape s ++ cs) = (parse false cs).map (prependAll (literal s)) := by
  induction s with
  | nil =>
    change parse false cs = (parse false cs).map id
    rw [Option.map_id_fun, id]
  | cons c s ih =>
    have hstep : parse false (escape (c :: s) ++ cs) =
        (parse false (escape s ++ cs)).map (prepend (.char c)) := by
      rw [escape, List.flatMap_cons, List.append_assoc, ← escape]
      by_cases hc : c ∈ escaped
      · have halnum : ¬c.isAlphanum = true := by simp [escaped_not_alphanum hc]
        rw [if_pos hc]
        change (if c.isAlphanum = true then none else _) = _
        rw [if_neg halnum]
        rfl
      · have hslash : ¬c = '\\' := fun h => hc (h ▸ by decide)
        rw [if_neg hc]
        change (if c = '\\' then _ else (parse false (escape s ++ cs)).bind (readChar c)) = _
        rw [if_neg hslash, Option.map_eq_bind]
        exact Option.bind_congr fun r _ => readChar_of_not_escaped hc r
    rw [hstep, ih, Option.map_map]
    rfl

theorem parse_bar (cs : List Char) : parse false ('|' :: cs) = (parse false cs).map ([] :: ·) := by
  rw [Option.map_eq_bind]
  rfl

theorem parse_start (cs : List Char) :
    parse false ('^' :: cs) = (parse false cs).map (prepend .start) := by
  rw [Option.map_eq_bind]
  rfl

theorem parse_stop : parse false ['$'] = some [[.stop]] := rfl

/-- Escaped texts joined by `|`. What stands after them joins the last alternative. -/
theorem parse_join (ss : List (List Char)) (s : List Char) {after : List Char} {as : List Atom}
    (hafter : parse false after = some [as]) :
    parse false (['|'].intercalate ((ss ++ [s]).map escape) ++ after) =
      some (ss.map literal ++ [literal s ++ as]) := by
  induction ss with
  | nil =>
    rw [List.nil_append, List.map_singleton, List.intercalate_singleton, parse_escape, hafter]
    simp
  | cons s' ss ih =>
    have hne : (ss ++ [s]).map escape ≠ [] := by simp
    rw [List.cons_append, List.map_cons, List.intercalate_cons_of_ne_nil hne, List.append_assoc,
      List.append_assoc, parse_escape, List.singleton_append, parse_bar, ih]
    simp

end Regex
