import Mathlib.Data.List.Forall2
import Mathlib.Data.List.Infix

/- Topic patterns. A routing key is a text of words with dots between them. A pattern is one,
   too, where `*` stands for any word and `#` for any number of words. `accepts` is the test,
   and `accepts_iff` what it means: the key falls into parts, one for each segment of the
   pattern.

   A pattern `#.w.#` accepts the keys that have the word `w` (`accepts_surrounded`). -/
namespace Topic

inductive Segment (W : Type) where
  | word (w : W)
  | star
  | hash
  deriving DecidableEq

namespace Segment
variable {W : Type}

/-- The words that a segment stands for. -/
def Covers : Segment W → List W → Prop
  | word w, ks => ks = [w]
  | star, ks => ks.length = 1
  | hash, _ => True

end Segment

section
variable {W : Type} [DecidableEq W]

def accepts : List (Segment W) → List W → Bool
  | [], ks => ks.isEmpty
  | .word w :: p, ks =>
    match ks with
    | [] => false
    | k :: ks => k = w && accepts p ks
  | .star :: p, ks =>
    match ks with
    | [] => false
    | _ :: ks => accepts p ks
  | .hash :: p, ks => ks.tails.any (accepts p)

section
variable {w k : W} {p : List (Segment W)} {ks : List W}

theorem accepts_nil : accepts ([] : List (Segment W)) ks = ks.isEmpty := rfl

theorem accepts_word : accepts (.word w :: p) (k :: ks) = (decide (k = w) && accepts p ks) := rfl

theorem accepts_star : accepts (.star :: p) (k :: ks) = accepts p ks := rfl

theorem accepts_hash : accepts (.hash :: p) ks = ks.tails.any (accepts p) := rfl

end

/-- The key falls into parts, one for each segment of the pattern. -/
theorem accepts_iff {p : List (Segment W)} {ks : List W} :
    accepts p ks = true ↔ ∃ parts, List.Forall₂ Segment.Covers p parts ∧ parts.flatten = ks := by
  induction p generalizing ks with
  | nil =>
    rw [accepts_nil, List.isEmpty_iff]
    constructor
    · intro h
      exact ⟨[], .nil, h.symm⟩
    · intro ⟨parts, hparts, hks⟩
      cases hparts
      exact hks.symm
  | cons s p ih =>
    -- the first part, and the rest of the key
    have hsplit : (∃ parts, List.Forall₂ Segment.Covers (s :: p) parts ∧ parts.flatten = ks) ↔
        ∃ first rest, s.Covers first ∧ accepts p rest = true ∧ first ++ rest = ks := by
      constructor
      · intro ⟨parts, hparts, hks⟩
        cases hparts with
        | cons hfirst hrest => exact ⟨_, _, hfirst, ih.mpr ⟨_, hrest, rfl⟩, hks⟩
      · intro ⟨first, rest, hfirst, hrest, hks⟩
        obtain ⟨parts, hparts, hflat⟩ := ih.mp hrest
        exact ⟨first :: parts, .cons hfirst hparts, by rw [List.flatten_cons, hflat, hks]⟩
    rw [hsplit]
    cases s with
    | word w =>
      cases ks with
      | nil =>
        refine ⟨fun h => (nomatch h), fun ⟨first, rest, hfirst, _, hks⟩ => ?_⟩
        rw [show first = [w] from hfirst] at hks
        cases hks
      | cons k ks =>
        rw [accepts_word, Bool.and_eq_true_iff, decide_eq_true_iff]
        constructor
        · intro ⟨hk, hrest⟩
          exact ⟨[k], ks, congrArg (fun w => [w]) hk, hrest, rfl⟩
        · intro ⟨first, rest, hfirst, hrest, hks⟩
          rw [show first = [w] from hfirst] at hks
          obtain ⟨rfl, rfl⟩ := List.cons.inj hks
          exact ⟨rfl, hrest⟩
    | star =>
      cases ks with
      | nil =>
        refine ⟨fun h => (nomatch h), fun ⟨first, rest, hfirst, _, hks⟩ => ?_⟩
        obtain ⟨k, rfl⟩ := List.length_eq_one_iff.mp hfirst
        cases hks
      | cons k ks =>
        rw [accepts_star]
        constructor
        · intro h
          exact ⟨[k], ks, rfl, h, rfl⟩
        · intro ⟨first, rest, hfirst, hrest, hks⟩
          obtain ⟨k', rfl⟩ := List.length_eq_one_iff.mp hfirst
          obtain ⟨rfl, rfl⟩ := List.cons.inj hks
          exact hrest
    | hash =>
      rw [accepts_hash, List.any_eq_true]
      constructor
      · intro ⟨rest, hmem, hrest⟩
        obtain ⟨first, hks⟩ := (List.mem_tails _ _).mp hmem
        exact ⟨first, rest, trivial, hrest, hks⟩
      · intro ⟨first, rest, _, hrest, hks⟩
        exact ⟨rest, (List.mem_tails _ _).mpr ⟨first, hks⟩, hrest⟩

theorem accepts_surrounded {w : W} {ks : List W} :
    accepts [.hash, .word w, .hash] ks = true ↔ w ∈ ks := by
  rw [accepts_iff]
  constructor
  · intro ⟨parts, hparts, hks⟩
    obtain ⟨_, _, -, h₁, rfl⟩ := List.forall₂_cons_left_iff.mp hparts
    obtain ⟨_, _, hw, -, rfl⟩ := List.forall₂_cons_left_iff.mp h₁
    rw [← hks, show _ = [w] from hw]
    simp
  · intro h
    obtain ⟨before, after, rfl⟩ := List.append_of_mem h
    exact ⟨[before, [w], after],
      .cons trivial (.cons rfl (.cons trivial .nil)), by simp⟩

end

/-! ## Texts -/

/-- The words of a key. -/
def words (key : List Char) : List (List Char) := key.splitOn '.'

def segment : List Char → Segment (List Char)
  | ['*'] => .star
  | ['#'] => .hash
  | w => .word w

/-- Whether the pattern, written as a text, accepts the key. -/
def binds (pattern key : List Char) : Bool := accepts ((words pattern).map segment) (words key)

/-- A word that is no wildcard. -/
structure IsPlain (w : List Char) : Prop where
  dot : '.' ∉ w
  star : w ≠ ['*']
  hash : w ≠ ['#']

/-- The pattern `#.w.#`. -/
def surrounded (w : List Char) : List Char := '#' :: '.' :: (w ++ ['.', '#'])

theorem words_surrounded {w : List Char} (hw : '.' ∉ w) :
    words (surrounded w) = [['#'], w, ['#']] := by
  have hjoin : surrounded w = ['.'].intercalate [['#'], w, ['#']] := by
    simp [surrounded, List.intercalate]
  unfold words
  rw [hjoin]
  refine List.splitOn_intercalate _ (fun l hl => ?_) (by simp)
  rcases List.mem_cons.mp hl with rfl | hl
  · decide
  · rcases List.mem_cons.mp hl with rfl | hl
    · exact hw
    · rw [List.mem_singleton.mp hl]
      decide

theorem segment_plain {w : List Char} (hw : IsPlain w) : segment w = .word w := by
  unfold segment
  split
  · exact absurd rfl hw.star
  · exact absurd rfl hw.hash
  · rfl

theorem binds_surrounded {w key : List Char} (hw : IsPlain w) :
    binds (surrounded w) key = true ↔ w ∈ words key := by
  unfold binds
  rw [words_surrounded hw.dot]
  show accepts [.hash, segment w, .hash] _ = true ↔ _
  rw [segment_plain hw]
  exact accepts_surrounded

/-- Read as a key, such a pattern is accepted by the patterns of its own word alone. -/
theorem binds_surrounded_self {w v : List Char} (hw : IsPlain w) (hv : IsPlain v) :
    binds (surrounded v) (surrounded w) = true ↔ v = w := by
  rw [binds_surrounded hv, words_surrounded hw.dot]
  simp [hv.hash]

end Topic
