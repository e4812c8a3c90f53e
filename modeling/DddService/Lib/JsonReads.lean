import Mathlib.Data.List.DropRight
import DddService.Lib.JsonText

/- Which texts are read as JSON values. `Reads t v`: the text `t` is read as `v` wherever it
   stands. There is a rule for each kind of value; for an object the members are given as they
   are written (`Member`), so that the rules serve texts that other code puts together, too.
   What `dumps` writes of a finite value is one case (`decode_dumps`), and only finite values
   are ever read (`decode_finite`). -/
namespace JsonText

/-! ## Values in a text -/

/-- A number ends before `r`. -/
def Ends (r : Text) : Prop := ∀ c ∈ r.head?, numberChar c = false

theorem ends_nil : Ends [] := by simp [Ends]

theorem ends_cons {c : Char} (h : numberChar c = false) (r : Text) : Ends (c :: r) := by
  simpa [Ends] using h

/-- `t` is read as `v` wherever it stands. -/
def Reads (t : Text) (v : Value) : Prop :=
  0 < t.length ∧ ∀ n r, t.length ≤ n → Ends r → value n (t ++ r) = some (v, r)

theorem skipBlanks_of_not_blank {c : Char} (h : blank c = false) (r : Text) :
    skipBlanks (c :: r) = c :: r := by
  simp [skipBlanks, h]

theorem skipBlanks_space (r : Text) : skipBlanks (' ' :: r) = skipBlanks r := by
  simp [skipBlanks, blank]

theorem skipBlanks_twice (s : Text) : skipBlanks (skipBlanks s) = skipBlanks s :=
  List.dropWhile_idempotent _ s

theorem value_congr {n : Nat} {s s' : Text} (h : skipBlanks s = skipBlanks s') :
    value n s = value n s' := by
  cases n with
  | zero => rfl
  | succ n => rw [value, value, h]

theorem items_congr {n : Nat} {s s' : Text} (h : skipBlanks s = skipBlanks s') :
    items n s = items n s' := by
  cases n with
  | zero => rfl
  | succ n => rw [items, items, value_congr h]

theorem members_congr {n : Nat} {s s' : Text} (h : skipBlanks s = skipBlanks s') :
    members n s = members n s' := by
  match n with
  | 0 => rfl
  | 1 => rfl
  | n + 2 => rw [members, members, member, member, h]

theorem not_close_of_value {n : Nat} {s r : Text} {v : Value} (h : value n s = some (v, r))
    (t : Text) : skipBlanks s ≠ ']' :: t := by
  intro hs
  cases n with
  | zero => cases h
  | succ n =>
    rw [value, hs] at h
    cases h

theorem Reads.string {t s : Text} (h : Spells t s) : Reads (quote t) (.str s) := by
  refine ⟨by simp [quote], fun n r hn _ => ?_⟩
  cases n with
  | zero => simp [quote] at hn
  | succ n =>
    have hq : quote t ++ r = '"' :: (t ++ '"' :: r) := by simp [quote]
    rw [value, hq, skipBlanks_of_not_blank rfl]
    simp only
    rw [h r]
    rfl

theorem Reads.null : Reads "null".toList .null := by
  refine ⟨by decide, fun n r hn _ => ?_⟩
  cases n with
  | zero => cases hn
  | succ n => rfl

theorem Reads.bool (b : Bool) :
    Reads (if b then "true".toList else "false".toList) (.bool b) := by
  cases b <;> refine ⟨by decide, fun n r hn _ => ?_⟩ <;> cases n
  · cases hn
  · rfl
  · cases hn
  · rfl

theorem isNumber_ne_nil {s : Text} (h : isNumber s = true) : s ≠ [] := by
  rintro rfl
  cases h

theorem numberChars {s : Text} (h : isNumber s = true) : ∀ c ∈ s, numberChar c = true := by
  rw [isNumber, Bool.and_eq_true, List.all_eq_true] at h
  exact h.1

/-- A character of a number begins no blank, container, string or constant. -/
theorem numberChar_ne {c : Char} (h : numberChar c = true) :
    blank c = false ∧ c ∉ ['"', '[', '\x7b', 'n', 't', 'f'] := by
  constructor
  · by_contra hb
    rw [Bool.not_eq_false] at hb
    simp only [blank, List.mem_cons, List.not_mem_nil, or_false, Bool.decide_or,
      Bool.or_eq_true, decide_eq_true_eq] at hb
    obtain rfl | rfl | rfl | rfl := hb <;> revert h <;> decide
  · intro hc
    simp only [List.mem_cons, List.not_mem_nil, or_false] at hc
    obtain rfl | rfl | rfl | rfl | rfl | rfl := hc <;> revert h <;> decide

theorem span_number {s r : Text} (h : ∀ c ∈ s, numberChar c = true) (hr : Ends r) :
    (s ++ r).takeWhile numberChar = s ∧ (s ++ r).dropWhile numberChar = r := by
  induction s with
  | nil =>
    cases r with
    | nil => simp
    | cons c r => simp [hr c (by simp)]
  | cons c s ih => simp [h c (by simp), ih fun d hd => h d (by simp [hd])]

theorem word_number {c : Char} {s r : Text} (h : isNumber (c :: s) = true) (hr : Ends r) :
    word (c :: s ++ r) = some (.num ⟨c :: s, h⟩, r) := by
  have hc := (numberChar_ne (numberChars h c (by simp))).2
  obtain ⟨htake, hdrop⟩ := span_number (numberChars h) hr
  rw [List.cons_append] at htake hdrop ⊢
  simp only [List.mem_cons, List.not_mem_nil, or_false, not_or] at hc
  unfold word
  split
  · rename_i heq
    exact absurd (List.cons.inj heq).1 hc.2.2.2.1
  · rename_i heq
    exact absurd (List.cons.inj heq).1 hc.2.2.2.2.1
  · rename_i heq
    exact absurd (List.cons.inj heq).1 hc.2.2.2.2.2
  · simp only [htake, hdrop]
    rw [dif_pos h]

theorem Reads.number (m : Number) : Reads m.text (.num m) := by
  obtain ⟨t, h⟩ := m
  cases t with
  | nil => exact absurd rfl (isNumber_ne_nil h)
  | cons c t =>
    refine ⟨by simp, fun n r hn hr => ?_⟩
    have hc := numberChar_ne (numberChars h c (by simp))
    cases n with
    | zero => cases hn
    | succ n =>
      rw [value, List.cons_append, skipBlanks_of_not_blank hc.1]
      have hne := hc.2
      simp only [List.mem_cons, List.not_mem_nil, or_false, not_or] at hne
      split
      · rename_i heq
        exact absurd (List.cons.inj heq).1 hne.1
      · rename_i heq
        exact absurd (List.cons.inj heq).1 hne.2.1
      · rename_i heq
        exact absurd (List.cons.inj heq).1 hne.2.2.1
      · exact word_number h hr

/-! ## Arrays -/

theorem items_step {t : Text} {v : Value} (h : Reads t v) {n : Nat} (hn : t.length ≤ n)
    (s : Text) : items (n + 1) (t ++ ',' :: s) = (items n s).map fun p => (v :: p.1, p.2) := by
  rw [items, h.2 n _ hn (ends_cons rfl s)]
  rfl

theorem items_last {t : Text} {v : Value} (h : Reads t v) {n : Nat} (hn : t.length ≤ n)
    (r : Text) : items (n + 1) (t ++ ']' :: r) = some ([v], r) := by
  rw [items, h.2 n _ hn (ends_cons rfl r)]
  rfl

theorem items_dumps {ensureAscii : Bool} {vs : List Value}
    (hvs : ∀ v ∈ vs, Reads (dumps ensureAscii v) v) {t : Text} {v : Value} (h : Reads t v)
    {n : Nat} (hn : (t ++ dumpsItems ensureAscii vs).length ≤ n) (r : Text) :
    items n (t ++ dumpsItems ensureAscii vs ++ r) = some (v :: vs, r) := by
  induction vs generalizing t v n with
  | nil =>
    rw [dumpsItems, List.length_append] at hn
    cases n with
    | zero => simp at hn
    | succ n =>
      rw [dumpsItems, List.append_assoc]
      exact items_last h (by simpa using hn) r
  | cons w vs ih =>
    rw [dumpsItems] at hn ⊢
    simp only [List.length_append] at hn
    cases n with
    | zero => simp at hn
    | succ n =>
      have htext : t ++ (", ".toList ++ dumps ensureAscii w ++ dumpsItems ensureAscii vs) ++ r =
          t ++ ',' :: ' ' :: (dumps ensureAscii w ++ dumpsItems ensureAscii vs ++ r) := by
        simp
      have hlength : ", ".toList.length = 2 := rfl
      rw [htext, items_step h (by omega), items_congr (skipBlanks_space _),
        ih (fun x hx => hvs x (by simp [hx])) (hvs w (by simp))
          (by rw [List.length_append]; omega)]
      rfl

theorem Reads.array {t : Text} {vs : List Value}
    (h : ∀ n r, t.length ≤ n → items n (t ++ r) = some (vs, r)) : Reads ('[' :: t) (.arr vs) := by
  refine ⟨by simp, fun n r hn _ => ?_⟩
  have hlength : 0 < t.length := by
    by_contra ht
    have hnone := h 0 [] (by omega)
    cases hnone
  match n with
  | 0 => cases hn
  | 1 => simp only [List.length_cons] at hn; omega
  | n + 2 =>
    have hitems := h (n + 1) r (by simpa using hn)
    have hopen : ∀ s, skipBlanks (t ++ r) ≠ ']' :: s := by
      rw [items] at hitems
      obtain ⟨⟨v, s⟩, hv, -⟩ := Option.bind_eq_some_iff.mp hitems
      exact not_close_of_value hv
    rw [value, List.cons_append, skipBlanks_of_not_blank rfl]
    simp only
    rw [items_congr (skipBlanks_twice _), hitems]
    rfl

/-! ## Objects -/

/-- A member as it is written. -/
structure Member where
  nameText : Text
  name : Text
  valueText : Text
  value : Value

def Member.text (m : Member) : Text := quote m.nameText ++ ": ".toList ++ m.valueText

def Member.pair (m : Member) : Text × Value := (m.name, m.value)

structure Member.Written (m : Member) : Prop where
  name : Spells m.nameText m.name
  value : Reads m.valueText m.value

/-- The members after the first. -/
def moreMembers (ms : List Member) : Text := ms.flatMap fun m => ", ".toList ++ m.text

theorem member_written {m : Member} (h : m.Written) {n : Nat} (hn : m.text.length ≤ n)
    {r : Text} (hr : Ends r) : member n (m.text ++ r) = some (m.pair, r) := by
  have hlength : m.text.length = m.nameText.length + 4 + m.valueText.length := by
    simp [Member.text, quote]
    omega
  match n with
  | 0 => omega
  | n + 1 =>
    have htext : m.text ++ r = '"' :: (m.nameText ++ '"' :: ':' :: ' ' :: (m.valueText ++ r)) := by
      simp [Member.text, quote]
    rw [member, htext, skipBlanks_of_not_blank rfl]
    simp only
    rw [h.name]
    simp only [Option.bind_eq_bind, Option.bind_some]
    rw [skipBlanks_of_not_blank rfl]
    simp only
    rw [value_congr (skipBlanks_space _), h.value.2 n r (by omega) hr]
    rfl

theorem members_step {m : Member} (h : m.Written) {n : Nat} (hn : m.text.length ≤ n) (s : Text) :
    members (n + 1) (m.text ++ ',' :: s) = (members n s).map fun p => (m.pair :: p.1, p.2) := by
  rw [members, member_written h hn (ends_cons rfl s)]
  rfl

theorem members_last {m : Member} (h : m.Written) {n : Nat} (hn : m.text.length ≤ n) (r : Text) :
    members (n + 1) (m.text ++ '}' :: r) = some ([m.pair], r) := by
  rw [members, member_written h hn (ends_cons rfl r)]
  rfl

theorem moreMembers_cons (m : Member) (ms : List Member) :
    moreMembers (m :: ms) = ',' :: ' ' :: (m.text ++ moreMembers ms) := rfl

/-- Members that are written well are read, whatever comes after them. -/
theorem members_before {m : Member} {ms : List Member} (h : ∀ x ∈ m :: ms, x.Written) {n : Nat}
    (hn : (m.text ++ moreMembers ms).length < n) (s : Text) :
    members n (m.text ++ moreMembers ms ++ ',' :: s) =
      (members (n - (ms.length + 1)) s).map fun p => ((m :: ms).map Member.pair ++ p.1, p.2) := by
  have hm := h m (by simp)
  induction ms generalizing m n with
  | nil =>
    cases n with
    | zero => cases hn
    | succ n =>
      rw [moreMembers, List.flatMap_nil, List.append_nil] at hn ⊢
      rw [members_step hm (by omega)]
      rfl
  | cons x ms ih =>
    cases n with
    | zero => cases hn
    | succ n =>
      rw [moreMembers_cons] at hn ⊢
      have hlength : (m.text ++ (',' :: ' ' :: (x.text ++ moreMembers ms))).length =
          m.text.length + ((x.text ++ moreMembers ms).length + 2) := by simp
      have htext : m.text ++ (',' :: ' ' :: (x.text ++ moreMembers ms)) ++ ',' :: s =
          m.text ++ ',' :: ' ' :: (x.text ++ moreMembers ms ++ ',' :: s) := by simp
      rw [htext, members_step hm (by omega), members_congr (skipBlanks_space _),
        ih (fun y hy => h y (by simp [List.mem_cons.mp hy])) (by omega) (h x (by simp)),
        Option.map_map]
      simp [Function.comp_def]

theorem members_written {m : Member} {ms : List Member} (h : ∀ x ∈ m :: ms, x.Written) {n : Nat}
    (hn : (m.text ++ moreMembers ms).length < n) (r : Text) :
    members n (m.text ++ moreMembers ms ++ '}' :: r) = some ((m :: ms).map Member.pair, r) := by
  have hm := h m (by simp)
  induction ms generalizing m n with
  | nil =>
    cases n with
    | zero => cases hn
    | succ n =>
      rw [moreMembers, List.flatMap_nil, List.append_nil] at hn ⊢
      rw [members_last hm (by omega)]
      rfl
  | cons x ms ih =>
    cases n with
    | zero => cases hn
    | succ n =>
      rw [moreMembers_cons] at hn ⊢
      have hlength : (m.text ++ (',' :: ' ' :: (x.text ++ moreMembers ms))).length =
          m.text.length + ((x.text ++ moreMembers ms).length + 2) := by simp
      have htext : m.text ++ (',' :: ' ' :: (x.text ++ moreMembers ms)) ++ '}' :: r =
          m.text ++ ',' :: ' ' :: (x.text ++ moreMembers ms ++ '}' :: r) := by simp
      rw [htext, members_step hm (by omega), members_congr (skipBlanks_space _),
        ih (fun y hy => h y (by simp [List.mem_cons.mp hy])) (by omega) (h x (by simp))]
      rfl

/-- The text of an object, from its first member on. -/
def objectText (m : Member) (ms : List Member) : Text :=
  '{' :: (m.text ++ moreMembers ms) ++ ['}']

theorem value_object (m : Member) (n : Nat) (s : Text) :
    value (n + 1) ('{' :: (m.text ++ s)) =
      (members n (m.text ++ s)).map fun p => (.obj p.1, p.2) := by
  have htext : m.text ++ s = '"' :: (m.nameText ++ '"' :: ':' :: ' ' :: (m.valueText ++ s)) := by
    simp [Member.text, quote]
  rw [htext, value, skipBlanks_of_not_blank rfl]
  simp only
  rw [skipBlanks_of_not_blank rfl]
  rfl

theorem Reads.object {m : Member} {ms : List Member} (h : ∀ x ∈ m :: ms, x.Written) :
    Reads (objectText m ms) (.obj ((m :: ms).map Member.pair)) := by
  refine ⟨by simp [objectText], fun n r hn _ => ?_⟩
  cases n with
  | zero => cases hn
  | succ n =>
    have htext : objectText m ms ++ r = '{' :: (m.text ++ (moreMembers ms ++ '}' :: r)) := by
      simp [objectText]
    have hlength : (objectText m ms).length = (m.text ++ moreMembers ms).length + 2 := by
      simp [objectText]
      omega
    rw [htext, value_object, ← List.append_assoc, members_written h (by omega)]
    rfl

/-! ## A raw text in an object -/

theorem value_of_quote {n : Nat} {s r : Text} {v : Value} (h : value n ('"' :: s) = some (v, r)) :
    ∃ t, string s = some (t, r) ∧ v = .str t := by
  cases n with
  | zero => cases h
  | succ n =>
    rw [value, skipBlanks_of_not_blank rfl] at h
    simp only at h
    obtain ⟨p, hp, h⟩ := Option.map_eq_some_iff.mp h
    cases h
    exact ⟨p.1, hp, rfl⟩

/-- A member whose value is a string, however that goes on. -/
theorem member_of_string {k t : Text} (hk : Spells t k) {n : Nat} {s r : Text} {m : Text × Value}
    (h : member n (quote t ++ ": ".toList ++ '"' :: s) = some (m, r)) :
    ∃ v, string s = some (v, r) ∧ m = (k, .str v) := by
  cases n with
  | zero => cases h
  | succ n =>
    have htext : quote t ++ ": ".toList ++ '"' :: s = '"' :: (t ++ '"' :: ':' :: ' ' :: '"' :: s) := by
      simp [quote]
    rw [member, htext, skipBlanks_of_not_blank rfl] at h
    simp only at h
    rw [hk] at h
    simp only [Option.bind_eq_bind, Option.bind_some] at h
    rw [skipBlanks_of_not_blank rfl] at h
    simp only at h
    obtain ⟨p, hp, h⟩ := Option.map_eq_some_iff.mp h
    cases h
    rw [value_congr (skipBlanks_space _)] at hp
    obtain ⟨v, hv, hstr⟩ := value_of_quote hp
    exact ⟨v, hv, by rw [hstr]⟩

/-- The members begin with the first one that is read. -/
theorem members_head {n : Nat} {s r : Text} {ms : List (Text × Value)}
    (h : members n s = some (ms, r)) :
    ∃ n' m r' rest, member n' s = some (m, r') ∧ ms = m :: rest := by
  cases n with
  | zero => cases h
  | succ n =>
    rw [members] at h
    obtain ⟨⟨m, r'⟩, hm, h⟩ := Option.bind_eq_some_iff.mp h
    refine ⟨n, m, r', ?_⟩
    dsimp only at h
    split at h
    · obtain ⟨p, -, h⟩ := Option.map_eq_some_iff.mp h
      cases h
      exact ⟨p.1, hm, rfl⟩
    · cases h
      exact ⟨[], hm, rfl⟩
    · cases h

/-- Where an object is read whose members are written well up to one with a string value, that
    member comes next, with what is read of its string. -/
theorem decode_raw {m : Member} {ms : List Member} (h : ∀ x ∈ m :: ms, x.Written) {k t : Text}
    (hk : Spells t k) {s : Text} {fields : List (Text × Value)}
    (hdecode : decode ('{' :: (m.text ++ moreMembers ms ++
      ", ".toList ++ quote t ++ ": ".toList ++ '"' :: s)) = some (.obj fields)) :
    ∃ v r rest, string s = some (v, r) ∧
      fields = (m :: ms).map Member.pair ++ (k, .str v) :: rest := by
  have htext : m.text ++ moreMembers ms ++ ", ".toList ++ quote t ++ ": ".toList ++ '"' :: s =
      m.text ++ moreMembers ms ++ ',' :: ' ' :: (quote t ++ ": ".toList ++ '"' :: s) := by
    simp
  have hlength : (m.text ++ moreMembers ms ++ ", ".toList ++ quote t ++ ": ".toList ++
      '"' :: s).length = (m.text ++ moreMembers ms).length + (t.length + s.length + 7) := by
    simp [quote]
    omega
  rw [decode, List.length_cons, hlength, htext, List.append_assoc, value_object,
    ← List.append_assoc, members_before h (by omega), members_congr (skipBlanks_space _)] at hdecode
  split at hdecode
  · rename_i v r heq
    obtain ⟨p, hp, heq⟩ := Option.map_eq_some_iff.mp heq
    obtain ⟨q, hq, rfl⟩ := Option.map_eq_some_iff.mp hp
    obtain ⟨n', m', r', rest, hm', hrest⟩ := members_head hq
    obtain ⟨v', hv', rfl⟩ := member_of_string hk hm'
    split at hdecode
    · cases heq
      cases hdecode
      exact ⟨v', r', rest, hv', by rw [hrest]⟩
    · cases hdecode
  · cases hdecode

/-! ## Round trip -/

/-- The member that `dumps` writes. -/
def dumpedMember (ensureAscii : Bool) (m : Text × Value) : Member :=
  ⟨encode ensureAscii m.1, m.1, dumps ensureAscii m.2, m.2⟩

theorem dumpsMembers_eq (ensureAscii : Bool) (ms : List (Text × Value)) :
    dumpsMembers ensureAscii ms = moreMembers (ms.map (dumpedMember ensureAscii)) ++ ['}'] := by
  induction ms with
  | nil => rw [dumpsMembers]; rfl
  | cons m ms ih =>
    rw [dumpsMembers, ih, List.map_cons, moreMembers_cons]
    simp [dumpedMember, Member.text]

/-- What is dumped of a finite value is read as the value, wherever it stands. -/
theorem reads_dumps (ensureAscii : Bool) {v : Value} (hfinite : v.finite = true) :
    Reads (dumps ensureAscii v) v := by
  induction v using Value.induct with
  | null => rw [dumps]; exact .null
  | bool b =>
    have h := Reads.bool b
    cases b <;> rw [dumps] <;> exact h
  | num n => rw [dumps]; exact .number n
  | nonfinite x => cases hfinite
  | str s => rw [dumps]; exact .string (spells_encode ensureAscii s)
  | arr items ih =>
    cases items with
    | nil =>
      rw [dumps]
      refine ⟨by decide, fun n r hn _ => ?_⟩
      cases n with
      | zero => cases hn
      | succ n => rfl
    | cons v items =>
      rw [dumps, List.cons_append]
      refine .array fun n r hn => ?_
      have hitems := fun w hw => ih w hw (finite_arr.mp hfinite w hw)
      exact items_dumps (fun w hw => hitems w (by simp [hw])) (hitems v (by simp)) hn r
  | obj members ih =>
    cases members with
    | nil =>
      rw [dumps]
      refine ⟨by decide, fun n r hn _ => ?_⟩
      cases n with
      | zero => cases hn
      | succ n => rfl
    | cons m members =>
      obtain ⟨k, v⟩ := m
      have hwritten : ∀ x ∈ ((k, v) :: members).map (dumpedMember ensureAscii), x.Written := by
        intro x hx
        obtain ⟨e, he, rfl⟩ := List.mem_map.mp hx
        exact ⟨spells_encode ensureAscii e.1, ih e he (finite_obj.mp hfinite e he)⟩
      -- the members as they are written are the members of the object
      have hpairs : (((k, v) :: members).map (dumpedMember ensureAscii)).map Member.pair =
          (k, v) :: members := by
        rw [List.map_map]
        exact List.map_id _
      have h := Reads.object hwritten
      rw [← List.map_cons (f := dumpedMember ensureAscii), hpairs] at h
      have htext : dumps ensureAscii (.obj ((k, v) :: members)) =
          objectText (dumpedMember ensureAscii (k, v))
            (members.map (dumpedMember ensureAscii)) := by
        rw [dumps, dumpsMembers_eq]
        simp [objectText, Member.text, dumpedMember]
      rw [htext]
      exact h

theorem decode_reads {t : Text} {v : Value} (h : Reads t v) : decode t = some v := by
  have hvalue := h.2 t.length [] (Nat.le_refl _) ends_nil
  rw [List.append_nil] at hvalue
  rw [decode, hvalue]
  rfl

/-- What `json.dumps` writes of a finite value is read back. -/
theorem decode_dumps (ensureAscii : Bool) {v : Value} (h : v.finite = true) :
    decode (dumps ensureAscii v) = some v :=
  decode_reads (reads_dumps ensureAscii h)

/-! ## What is read is finite -/

theorem word_finite {s r : Text} {v : Value} (h : word s = some (v, r)) : v.finite = true := by
  unfold word at h
  split at h
  · cases h; rfl
  · cases h; rfl
  · cases h; rfl
  · split at h
    · cases h; rfl
    · cases h

/-- By the number of calls that are left, for a value and for what it is made of. -/
theorem read_finite (n : Nat) :
    (∀ s v r, value n s = some (v, r) → v.finite = true) ∧
    (∀ s vs r, items n s = some (vs, r) → ∀ v ∈ vs, v.finite = true) ∧
    (∀ s ms r, members n s = some (ms, r) → ∀ m ∈ ms, m.2.finite = true) ∧
    ∀ s m r, member n s = some (m, r) → m.2.finite = true := by
  -- the four readers call one another with one call less
  induction n with
  | zero =>
    refine ⟨?_, ?_, ?_, ?_⟩ <;> intro s x r h <;> cases h
  | succ n ih =>
    obtain ⟨hvalue, hitems, hmembers, hmember⟩ := ih
    refine ⟨fun s v r h => ?_, fun s vs r h => ?_, fun s ms r h => ?_, fun s m r h => ?_⟩
    · rw [value] at h
      split at h
      · obtain ⟨p, -, h⟩ := Option.map_eq_some_iff.mp h
        cases h
        exact finite_str _
      · split at h
        · cases h
          exact finite_arr.mpr (by simp)
        · obtain ⟨p, hp, h⟩ := Option.map_eq_some_iff.mp h
          cases h
          exact finite_arr.mpr (hitems _ _ _ hp)
      · split at h
        · cases h
          exact finite_obj.mpr (by simp)
        · obtain ⟨p, hp, h⟩ := Option.map_eq_some_iff.mp h
          cases h
          exact finite_obj.mpr (hmembers _ _ _ hp)
      · exact word_finite h
    · rw [items] at h
      obtain ⟨⟨v, t⟩, hv, h⟩ := Option.bind_eq_some_iff.mp h
      have hfirst := hvalue _ _ _ hv
      dsimp only at h
      split at h
      · obtain ⟨p, hp, h⟩ := Option.map_eq_some_iff.mp h
        cases h
        exact List.forall_mem_cons.mpr ⟨hfirst, hitems _ _ _ hp⟩
      · cases h
        exact List.forall_mem_cons.mpr ⟨hfirst, by simp⟩
      · cases h
    · rw [members] at h
      obtain ⟨⟨⟨k, v⟩, t⟩, hm, h⟩ := Option.bind_eq_some_iff.mp h
      have hfirst := hmember _ _ _ hm
      dsimp only at h
      split at h
      · obtain ⟨p, hp, h⟩ := Option.map_eq_some_iff.mp h
        cases h
        exact List.forall_mem_cons.mpr ⟨hfirst, hmembers _ _ _ hp⟩
      · cases h
        exact List.forall_mem_cons.mpr ⟨hfirst, by simp⟩
      · cases h
    · rw [member] at h
      split at h
      · obtain ⟨⟨k, t⟩, -, h⟩ := Option.bind_eq_some_iff.mp h
        dsimp only at h
        split at h
        · obtain ⟨p, hp, h⟩ := Option.map_eq_some_iff.mp h
          cases h
          exact hvalue _ _ _ hp
        · cases h
      · cases h

theorem decode_finite {s : Text} {v : Value} (h : decode s = some v) : v.finite = true := by
  rw [decode] at h
  split at h
  · rename_i heq
    split at h
    · cases h
      exact (read_finite _).1 _ _ _ heq
    · cases h
  · cases h

/-! ## One line -/

theorem newline_not_mem_codeUnitEscape (n : Nat) : '\n' ∉ codeUnitEscape n := by
  have hdigit : ∀ d < 16, '\n' ≠ d.digitChar := by decide
  have hmod : ∀ m, '\n' ≠ (m % 16).digitChar := fun m => hdigit _ (Nat.mod_lt m (by decide))
  simp [codeUnitEscape, hex4, hmod]

theorem newline_not_mem_escape (ensureAscii : Bool) (c : Char) : '\n' ∉ escape ensureAscii c := by
  unfold escape
  by_cases hc : c = '\n'
  · subst hc
    decide +revert
  · have hne : '\n' ≠ c := Ne.symm hc
    split_ifs <;> simp [newline_not_mem_codeUnitEscape, hne]

theorem newline_not_mem_quote (ensureAscii : Bool) (s : Text) :
    '\n' ∉ quote (encode ensureAscii s) := by
  simp [quote, encode, newline_not_mem_escape]

theorem newline_not_mem_dumps (ensureAscii : Bool) (v : Value) : '\n' ∉ dumps ensureAscii v := by
  induction v using Value.induct with
  | null => simp [dumps]
  | bool b => cases b <;> simp [dumps]
  | num n =>
    rw [dumps]
    intro hmem
    have h := numberChars n.valid _ hmem
    revert h
    decide
  | nonfinite x => rw [dumps]; cases x <;> decide
  | str s => rw [dumps]; exact newline_not_mem_quote ensureAscii s
  | arr items ih =>
    have hitems : ∀ vs : List Value, (∀ v ∈ vs, '\n' ∉ dumps ensureAscii v) →
        '\n' ∉ dumpsItems ensureAscii vs := by
      intro vs h
      induction vs with
      | nil => simp [dumpsItems]
      | cons v vs ihvs =>
        have hv := h v (by simp)
        have hvs := ihvs fun w hw => h w (by simp [hw])
        simp [dumpsItems, hv, hvs]
    cases items with
    | nil => simp [dumps]
    | cons v items =>
      have hv := ih v (by simp)
      have hvs := hitems items fun w hw => ih w (by simp [hw])
      simp [dumps, hv, hvs]
  | obj members ih =>
    have hmembers : ∀ ms : List (Text × Value), (∀ m ∈ ms, '\n' ∉ dumps ensureAscii m.2) →
        '\n' ∉ dumpsMembers ensureAscii ms := by
      intro ms h
      induction ms with
      | nil => simp [dumpsMembers]
      | cons m ms ihms =>
        have hm := h m (by simp)
        have hms := ihms fun w hw => h w (by simp [hw])
        have hquote := newline_not_mem_quote ensureAscii m.1
        simp [dumpsMembers, hm, hms, hquote]
    cases members with
    | nil => simp [dumps]
    | cons m members =>
      have hm := ih m (by simp)
      have hms := hmembers members fun w hw => ih w (by simp [hw])
      have hquote := newline_not_mem_quote ensureAscii m.1
      simp [dumps, hm, hms, hquote]

end JsonText
