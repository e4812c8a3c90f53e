import Mathlib.Data.List.Infix
import Mathlib.Data.List.Count
import Mathlib.Data.List.Find

/- Replacement of substrings, as the `replace` method of a string type does it: from left to
   right, and what has been put in is not looked at again. Splitting at a separator commutes
   with it when the separator is neither in what is replaced nor in what replaces it, which is
   what makes replacement in a text a replacement in each of its words. -/

namespace Replace

variable {α : Type*}

theorem prefix_sep_iff {m a b : List α} {x : α} (hx : x ∉ m) :
    m <+: a ++ x :: b ↔ m <+: a := by
  constructor
  · intro h
    rcases List.prefix_or_prefix_of_prefix h (List.prefix_append a (x :: b)) with hle | hge
    · exact hle
    · obtain ⟨rest, rfl⟩ := hge
      rw [List.prefix_append_right_inj] at h
      cases rest with
      | nil => simp
      | cons y rest =>
        obtain ⟨rfl, -⟩ := List.cons_prefix_cons.mp h
        exact absurd (by simp) hx
  · exact fun h => h.trans (List.prefix_append a (x :: b))

variable [DecidableEq α]

/-- Every one of `marks` replaced by `new`, where the first `k` elements still belong to an
    occurrence that has been replaced. -/
def replaceFrom (marks : List (List α)) (new : List α) : Nat → List α → List α
  | _, [] => []
  | k+1, _ :: s => replaceFrom marks new k s
  | 0, c :: s =>
    match marks.find? (·.isPrefixOf (c :: s)) with
    | some m => new ++ replaceFrom marks new (m.length - 1) s
    | none => c :: replaceFrom marks new 0 s

/-- All of `marks` replaced at once. -/
def replaceEach (marks : List (List α)) (new s : List α) : List α := replaceFrom marks new 0 s

/-- One mark replaced: `s.replace(old, new)`. -/
def replace (old new s : List α) : List α := replaceEach [old] new s

section Steps

variable {marks : List (List α)} {new : List α}

theorem replaceFrom_drop (k : Nat) (s : List α) :
    replaceFrom marks new k s = replaceEach marks new (s.drop k) := by
  induction k generalizing s with
  | zero => rfl
  | succ k ih =>
    cases s with
    | nil => simp [replaceEach, replaceFrom]
    | cons c s => simpa [replaceFrom] using ih s

@[simp] theorem replaceEach_nil : replaceEach marks new [] = [] := rfl

theorem replaceEach_hit {m s : List α} (hm : m ≠ [])
    (h : marks.find? (·.isPrefixOf (m ++ s)) = some m) :
    replaceEach marks new (m ++ s) = new ++ replaceEach marks new s := by
  obtain ⟨c, m', rfl⟩ := List.exists_cons_of_ne_nil hm
  rw [List.cons_append] at h ⊢
  rw [replaceEach, replaceFrom, h]
  simp [replaceFrom_drop]

theorem replaceEach_miss {c : α} {s : List α}
    (h : ∀ m ∈ marks, ¬ m <+: c :: s) :
    replaceEach marks new (c :: s) = c :: replaceEach marks new s := by
  have hnone : marks.find? (·.isPrefixOf (c :: s)) = none := by
    simpa [List.find?_eq_none] using h
  rw [replaceEach, replaceFrom, hnone]
  rfl

/-- Induction along the scan: over an occurrence that is replaced, or over one element at
    which none of the marks stands. -/
theorem scan_induction (marks : List (List α)) {P : List α → Prop}
    (hmarks : ∀ m ∈ marks, m ≠ []) (nil : P [])
    (hit : ∀ m ∈ marks, ∀ s, marks.find? (·.isPrefixOf (m ++ s)) = some m → P s → P (m ++ s))
    (miss : ∀ c s, (∀ m ∈ marks, ¬ m <+: c :: s) → P s → P (c :: s)) (s : List α) : P s := by
  induction hn : s.length using Nat.strong_induction_on generalizing s with
  | _ n ih =>
    subst hn
    cases s with
    | nil => exact nil
    | cons c s =>
      cases hfind : marks.find? (·.isPrefixOf (c :: s)) with
      | none =>
        have hno : ∀ m ∈ marks, ¬ m <+: c :: s := by simpa [List.find?_eq_none] using hfind
        exact miss c s hno (ih s.length (by simp) s rfl)
      | some m =>
        have hm : m ∈ marks := List.mem_of_find?_eq_some hfind
        have hpre : m <+: c :: s := by simpa using List.find?_some hfind
        obtain ⟨rest, hrest⟩ := hpre
        have hlt : rest.length < (c :: s).length := by
          have := List.length_pos_iff.mpr (hmarks m hm)
          simp only [← hrest, List.length_append]
          omega
        rw [← hrest] at hfind ⊢
        exact hit m hm rest hfind (ih rest.length hlt rest rfl)

theorem replaceEach_eq_self {s : List α} (h : ∀ m ∈ marks, ¬ m <:+: s) :
    replaceEach marks new s = s := by
  induction s with
  | nil => rfl
  | cons c s ih =>
    rw [replaceEach_miss fun m hm hpre => h m hm hpre.isInfix,
      ih fun m hm hin => h m hm (hin.trans (List.suffix_cons c s).isInfix)]

theorem mem_replaceEach {s : List α} {x : α} (h : x ∈ replaceEach marks new s)
    (hmarks : ∀ m ∈ marks, m ≠ []) : x ∈ s ∨ x ∈ new := by
  induction s using scan_induction marks hmarks with
  | nil => simp at h
  | hit m hm s hfind ih =>
    rw [replaceEach_hit (hmarks m hm) hfind, List.mem_append] at h
    rcases h with h | h
    · exact Or.inr h
    · exact (ih h).imp (List.mem_append_right m) id
  | miss c s hno ih =>
    rw [replaceEach_miss hno, List.mem_cons] at h
    rcases h with rfl | h
    · exact Or.inl (by simp)
    · exact (ih h).imp (List.mem_cons_of_mem c) id

/-- No occurrence runs over a separator that is in none of the marks. -/
theorem replaceEach_sep (hmarks : ∀ m ∈ marks, m ≠ []) {x : α} (hx : ∀ m ∈ marks, x ∉ m)
    (a b : List α) :
    replaceEach marks new (a ++ x :: b) =
      replaceEach marks new a ++ x :: replaceEach marks new b := by
  induction a using scan_induction marks hmarks with
  | nil =>
    have hno : ∀ m ∈ marks, ¬ m <+: x :: b := by
      intro m hm hpre
      have hnil := (prefix_sep_iff (a := []) (hx m hm)).mp hpre
      exact hmarks m hm (List.prefix_nil.mp hnil)
    simpa using replaceEach_miss hno
  | hit m hm a hfind ih =>
    have hagree : marks.find? (·.isPrefixOf (m ++ (a ++ x :: b))) = some m := by
      rw [← hfind]
      refine List.find?_congr fun m' hm' => ?_
      rw [Bool.eq_iff_iff, List.isPrefixOf_iff_prefix, List.isPrefixOf_iff_prefix,
        ← List.append_assoc]
      exact prefix_sep_iff (hx m' hm')
    rw [List.append_assoc, replaceEach_hit (hmarks m hm) hagree, ih,
      replaceEach_hit (hmarks m hm) hfind, List.append_assoc]
  | miss c a hno ih =>
    have hno' : ∀ m ∈ marks, ¬ m <+: c :: (a ++ x :: b) := by
      intro m hm hpre
      exact hno m hm ((prefix_sep_iff (a := c :: a) (hx m hm)).mp hpre)
    rw [List.cons_append, replaceEach_miss hno', ih, replaceEach_miss hno, List.cons_append]

theorem splitOn_replaceEach (hmarks : ∀ m ∈ marks, m ≠ []) {x : α} (hx : ∀ m ∈ marks, x ∉ m)
    (hnew : x ∉ new) (s : List α) :
    (replaceEach marks new s).splitOn x = (s.splitOn x).map (replaceEach marks new) := by
  induction hn : s.length using Nat.strong_induction_on generalizing s with
  | _ n ih =>
    subst hn
    by_cases hs : x ∈ s
    · obtain ⟨a, b, rfl, ha⟩ := List.eq_append_cons_of_mem hs
      have ha' : x ∉ replaceEach marks new a := by
        intro hmem
        exact (mem_replaceEach hmem hmarks).elim ha hnew
      rw [replaceEach_sep hmarks hx, List.splitOn_append_cons_self_of_not_mem ha',
        List.splitOn_append_cons_self_of_not_mem ha, List.map_cons,
        ih b.length (by simp; omega) b rfl]
    · have hs' : x ∉ replaceEach marks new s := by
        intro hmem
        exact (mem_replaceEach hmem hmarks).elim hs hnew
      rw [List.splitOn_eq_singleton hs', List.splitOn_eq_singleton hs, List.map_singleton]

end Steps

/-! One mark. -/

section Single

variable {old new : List α}

theorem replace_append (new : List α) (hold : old ≠ []) (s : List α) :
    replace old new (old ++ s) = new ++ replace old new s :=
  replaceEach_hit hold (by simp)

theorem replace_eq_self {s : List α} (h : ¬ old <:+: s) : replace old new s = s :=
  replaceEach_eq_self (by simpa using h)

theorem replace_same (hold : old ≠ []) (s : List α) : replace old old s = s := by
  induction s using scan_induction [old] (by simpa using hold) with
  | nil => rfl
  | hit m hm s hfind ih =>
    obtain rfl := List.mem_singleton.mp hm
    rw [replace_append _ hold, ih]
  | miss c s hno ih => rw [replace, replaceEach_miss hno, ← replace, ih]

theorem replace_first (new : List α) (hold : old ≠ []) {s : List α} (h : old <:+: s) :
    ∃ u v, s = u ++ old ++ v ∧ replace old new s = u ++ new ++ replace old new v := by
  induction s with
  | nil => exact absurd (List.infix_nil.mp h) hold
  | cons c s ih =>
    by_cases hpre : old <+: c :: s
    · obtain ⟨v, hv⟩ := hpre
      exact ⟨[], v, by simp [hv], by rw [← hv, replace_append _ hold]; rfl⟩
    · have hin : old <:+: s := (List.infix_cons_iff.mp h).resolve_left hpre
      obtain ⟨u, v, rfl, huv⟩ := ih hin
      refine ⟨c :: u, v, by simp, ?_⟩
      rw [replace, replaceEach_miss (by simpa using hpre), ← replace, huv]
      simp

/-- What a replacement does to the number of times an element occurs and to the length, by
    the number `k` of occurrences replaced. -/
theorem replace_counts (new : List α) (hold : old ≠ []) (s : List α) :
    ∃ k, (k = 0 → ¬ old <:+: s) ∧
      (∀ x, (replace old new s).count x + k * old.count x = s.count x + k * new.count x) ∧
      (replace old new s).length + k * old.length = s.length + k * new.length := by
  induction s using scan_induction [old] (by simpa using hold) with
  | nil => exact ⟨0, fun _ h => hold (List.infix_nil.mp h), by simp [replace], by simp [replace]⟩
  | hit m hm s hfind ih =>
    obtain rfl := List.mem_singleton.mp hm
    obtain ⟨k, -, hcount, hlen⟩ := ih
    refine ⟨k + 1, by simp, fun x => ?_, ?_⟩
    · have := hcount x
      simp only [replace_append _ hold, List.count_append, Nat.add_mul, Nat.one_mul]
      omega
    · simp only [replace_append _ hold, List.length_append, Nat.add_mul, Nat.one_mul]
      omega
  | miss c s hno ih =>
    obtain ⟨k, hk, hcount, hlen⟩ := ih
    have hstep : replace old new (c :: s) = c :: replace old new s := replaceEach_miss hno
    refine ⟨k, fun h0 hin => ?_, fun x => ?_, ?_⟩
    · exact (List.infix_cons_iff.mp hin).elim (by simpa using hno) (hk h0)
    · have := hcount x
      simp only [hstep, List.count_cons]
      omega
    · simp only [hstep, List.length_cons]
      omega

/-- A replacement leaves a text alone exactly when there is nothing to replace, or it puts
    back what it takes out. -/
theorem replace_eq_self_iff (hold : old ≠ []) {s : List α} :
    replace old new s = s ↔ ¬ old <:+: s ∨ old = new := by
  constructor
  · intro h
    by_cases hin : old <:+: s
    · right
      obtain ⟨u, v, hs, hr⟩ := replace_first new hold hin
      rw [h, hs, List.append_assoc, List.append_assoc] at hr
      have htail : old ++ v = new ++ replace old new v := List.append_cancel_left hr
      obtain ⟨k, -, -, hlen⟩ := replace_counts new hold v
      have hsum := congrArg List.length htail
      rw [List.length_append, List.length_append] at hsum
      have heq : (k + 1) * old.length = (k + 1) * new.length := by
        simp only [Nat.add_mul, Nat.one_mul]
        omega
      exact (List.append_inj htail (Nat.eq_of_mul_eq_mul_left (by omega) heq)).1
    · exact Or.inl hin
  · rintro (h | rfl)
    · exact replace_eq_self h
    · exact replace_same hold s

theorem new_infix_replace (hold : old ≠ []) {s : List α} (h : old <:+: s) :
    new <:+: replace old new s := by
  obtain ⟨u, v, -, hr⟩ := replace_first new hold h
  exact ⟨u, replace old new v, hr.symm⟩

/-- One element replaced by a text: what does not have the element stays. -/
theorem replace_append_left {c : α} {u : List α} (h : c ∉ u) (v : List α) :
    replace [c] new (u ++ v) = u ++ replace [c] new v := by
  induction u with
  | nil => rfl
  | cons d u ih =>
    have hne : ¬ [c] <+: d :: (u ++ v) := by
      intro hpre
      exact h (List.mem_cons.mpr (Or.inl (List.cons_prefix_cons.mp hpre).1))
    rw [List.cons_append, List.cons_append, ← ih fun hmem => h (List.mem_cons_of_mem d hmem)]
    exact replaceEach_miss (by simpa using hne)

theorem replace_eq_iff (hold : old ≠ []) {s t : List α} (hnew : ¬ new <:+: t)
    (hmark : ¬ old <:+: t) : replace old new s = t ↔ s = t := by
  constructor
  · intro h
    by_cases hin : old <:+: s
    · exact absurd (h ▸ new_infix_replace hold hin) hnew
    · rw [← h, replace_eq_self hin]
  · rintro rfl
    exact replace_eq_self hmark

end Single

end Replace
