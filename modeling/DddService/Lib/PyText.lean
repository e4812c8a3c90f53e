import Mathlib.Data.List.DropRight

/- Texts of a Python program, as lists of characters, with the string methods that work on
   them. -/

/-- A `str`. -/
abbrev Text := List Char

namespace PyText

/-- `str.isspace` of one character. -/
def isSpace (c : Char) : Bool :=
  let n := c.toNat
  (0x09 ≤ n && n ≤ 0x0d) || (0x1c ≤ n && n ≤ 0x20) || n = 0x85 || n = 0xa0 || n = 0x1680 ||
    (0x2000 ≤ n && n ≤ 0x200a) || n = 0x2028 || n = 0x2029 || n = 0x202f || n = 0x205f || n = 0x3000

/-- `s.strip()` -/
def strip (s : Text) : Text := (s.dropWhile isSpace).rdropWhile isSpace

def titleFrom (inWord : Bool) : Text → Text
  | [] => []
  | c :: s => (if inWord then c.toLower else c.toUpper) :: titleFrom c.isAlpha s

/-- `s.title()` of an ASCII text: the first letter of every run of letters is made capital,
    the others small. -/
def title (s : Text) : Text := titleFrom false s

/-- The letters of ASCII, by their code points. -/
theorem isAlpha_eq_false_iff {c : Char} : c.isAlpha = false ↔
    ¬ (65 ≤ c.val.toNat ∧ c.val.toNat ≤ 90) ∧ ¬ (97 ≤ c.val.toNat ∧ c.val.toNat ≤ 122) := by
  have h : c.isAlpha = (decide ('A'.val ≤ c.val ∧ c.val ≤ 'Z'.val) ||
      decide ('a'.val ≤ c.val) && decide (c.val ≤ 'z'.val)) := rfl
  rw [h]
  simp [UInt32.le_iff_toNat_le]

theorem eq_of_toUpper {c x : Char} (hx : x.isAlpha = false) (h : c.toUpper = x) : c = x := by
  unfold Char.toUpper at h
  split at h
  · next hcase =>
    -- a small letter, 32 above its capital
    subst h
    have hshift : ('A'.val - 'a'.val).toNat = 2 ^ 32 - 32 := rfl
    rw [isAlpha_eq_false_iff, UInt32.toNat_add, hshift] at hx
    have hlow : 97 ≤ c.val.toNat := UInt32.le_iff_toNat_le.mp hcase.1
    have hhigh : c.val.toNat ≤ 122 := UInt32.le_iff_toNat_le.mp hcase.2
    omega
  · exact h

theorem eq_of_toLower {c x : Char} (hx : x.isAlpha = false) (h : c.toLower = x) : c = x := by
  unfold Char.toLower at h
  split at h
  · next hcase =>
    -- a capital, 32 below its small letter
    subst h
    have hshift : ('a'.val - 'A'.val).toNat = 32 := rfl
    rw [isAlpha_eq_false_iff, UInt32.toNat_add, hshift] at hx
    have hlow : 65 ≤ c.val.toNat := UInt32.le_iff_toNat_le.mp hcase.1
    have hhigh : c.val.toNat ≤ 90 := UInt32.le_iff_toNat_le.mp hcase.2
    omega
  · exact h

/-- What is not a letter is in the title as it was in the text. -/
theorem mem_of_mem_title {s : Text} {x : Char} (hx : x.isAlpha = false) (h : x ∈ title s) :
    x ∈ s := by
  suffices ∀ inWord, x ∈ titleFrom inWord s → x ∈ s from this false h
  intro inWord hmem
  clear h
  induction s generalizing inWord with
  | nil => simp [titleFrom] at hmem
  | cons c s ih =>
    rw [titleFrom, List.mem_cons] at hmem
    rcases hmem with hhead | htail
    · cases inWord with
      | false => exact List.mem_cons.mpr (Or.inl (eq_of_toUpper hx hhead.symm).symm)
      | true => exact List.mem_cons.mpr (Or.inl (eq_of_toLower hx hhead.symm).symm)
    · exact List.mem_cons_of_mem c (ih _ htail)

end PyText
