import Mathlib.Data.List.Nodup
import Mathlib.Data.List.Induction

/- Insertion-ordered dictionaries: a list of pairs that names each key once, and
   carries that fact, so that a lookup determines the entry. Setting a key that
   is there replaces its value in place; setting a new key adds it at the end. -/

/-- A dictionary: pairs in the order their keys were first set. -/
structure Dict (κ ν : Type) where
  entries : List (κ × ν)
  nodup : (entries.map Prod.fst).Nodup
  deriving DecidableEq

namespace Dict
variable {κ ν : Type}

def empty : Dict κ ν := ⟨[], List.nodup_nil⟩

def isEmpty (d : Dict κ ν) : Bool := d.entries.isEmpty

variable [DecidableEq κ]

def get? (d : Dict κ ν) (k : κ) : Option ν := d.entries.lookup k

/-- The pairs after setting `k`. -/
def setEntries (k : κ) (v : ν) : List (κ × ν) → List (κ × ν)
  | [] => [(k, v)]
  | (l, u) :: rest => if l = k then (k, v) :: rest else (l, u) :: setEntries k v rest

theorem keys_setEntries (k : κ) (v : ν) : ∀ es : List (κ × ν),
    (setEntries k v es).map Prod.fst =
      if k ∈ es.map Prod.fst then es.map Prod.fst else es.map Prod.fst ++ [k]
  | [] => by simp [setEntries]
  | (l, u) :: rest => by
    have ih := keys_setEntries k v rest
    by_cases hl : l = k
    · simp [setEntries, hl]
    · have hkl : ¬ k = l := fun h => hl h.symm
      simp only [setEntries, hl, if_false, List.map_cons, ih, List.mem_cons, hkl, false_or]
      split <;> simp

/-- `d[k] = v` -/
def set (d : Dict κ ν) (k : κ) (v : ν) : Dict κ ν where
  entries := setEntries k v d.entries
  nodup := by
    rw [keys_setEntries]
    split
    · exact d.nodup
    · rename_i h
      exact List.nodup_append.mpr ⟨d.nodup, List.nodup_singleton k,
        fun a ha b hb e => h (by rw [← List.mem_singleton.mp hb, ← e]; exact ha)⟩

/-- `d.pop(k)` -/
def pop (d : Dict κ ν) (k : κ) : Dict κ ν where
  entries := d.entries.filter (fun e => e.1 ≠ k)
  nodup := d.nodup.sublist (List.filter_sublist.map Prod.fst)

theorem lookup_cons_eq (k l : κ) (u : ν) (es : List (κ × ν)) :
    ((l, u) :: es).lookup k = if k = l then some u else es.lookup k := by
  by_cases h : k = l
  · simp [h]
  · have hb : (k == l) = false := by simpa using h
    simp [List.lookup_cons, hb, h]

@[simp] theorem get?_empty (k : κ) : (empty : Dict κ ν).get? k = none := rfl

theorem lookup_setEntries (k : κ) (v : ν) (k' : κ) : ∀ es : List (κ × ν),
    (setEntries k v es).lookup k' = if k' = k then some v else es.lookup k'
  | [] => by simp only [setEntries, lookup_cons_eq]
  | (l, u) :: rest => by
    have ih := lookup_setEntries k v k' rest
    by_cases hl : l = k
    · subst hl
      by_cases hk : k' = l <;> simp [setEntries, lookup_cons_eq, hk]
    · by_cases hk : k' = k
      · have hkl : ¬ k = l := fun h => hl h.symm
        simp [setEntries, hl, lookup_cons_eq, hk, hkl, lookup_setEntries k v k rest]
      · simp only [setEntries, hl, if_false, lookup_cons_eq, ih, hk]

theorem setEntries_setEntries (k : κ) (u v : ν) : ∀ es : List (κ × ν),
    setEntries k v (setEntries k u es) = setEntries k v es
  | [] => by simp [setEntries]
  | (l, x) :: rest => by
    by_cases hl : l = k
    · simp [setEntries, hl]
    · simp [setEntries, hl, setEntries_setEntries k u v rest]

/-- Of two writes to one key the second stays. -/
theorem set_set (d : Dict κ ν) (k : κ) (u v : ν) : (d.set k u).set k v = d.set k v := by
  simp only [set, setEntries_setEntries]

@[simp] theorem get?_set (d : Dict κ ν) (k : κ) (v : ν) (k' : κ) :
    (d.set k v).get? k' = if k' = k then some v else d.get? k' :=
  lookup_setEntries k v k' d.entries

/-- `{k: v for k, v in pairs}` -/
def ofPairs (pairs : List (κ × ν)) : Dict κ ν := pairs.foldl (fun d e => d.set e.1 e.2) empty

@[simp] theorem get?_pop (d : Dict κ ν) (k k' : κ) :
    (d.pop k).get? k' = if k' = k then none else d.get? k' := by
  simp only [get?, pop]
  induction d.entries with
  | nil => simp
  | cons e rest ih =>
    obtain ⟨l, u⟩ := e
    by_cases hl : l = k
    · rw [List.filter_cons_of_neg (by simpa using hl), ih, lookup_cons_eq, hl]
      split <;> rfl
    · rw [List.filter_cons_of_pos (by simpa using hl), lookup_cons_eq, lookup_cons_eq, ih]
      by_cases hk : k' = k
      · have hkl : ¬ k = l := fun h => hl h.symm
        simp [hk, hkl]
      · simp [hk]

/-- A dictionary's entries are its lookups. -/
theorem mem_entries_iff {d : Dict κ ν} {k : κ} {v : ν} :
    (k, v) ∈ d.entries ↔ d.get? k = some v := by
  obtain ⟨es, hn⟩ := d
  simp only [get?]
  induction es with
  | nil => simp
  | cons e rest ih =>
    obtain ⟨l, u⟩ := e
    rw [List.map_cons, List.nodup_cons] at hn
    by_cases hk : k = l
    · subst hk
      simp only [List.mem_cons, Prod.mk.injEq, true_and, List.lookup_cons_self, Option.some.injEq]
      constructor
      · rintro (h | h)
        · exact h.symm
        · exact absurd (List.mem_map_of_mem h) hn.1
      · exact fun h => Or.inl h.symm
    · rw [lookup_cons_eq, if_neg hk]
      simp [hk, ih hn.2]

theorem setEntries_new {k : κ} (v : ν) : ∀ {es : List (κ × ν)}, es.lookup k = none →
    setEntries k v es = es ++ [(k, v)]
  | [], _ => rfl
  | (l, u) :: rest, h => by
    rw [lookup_cons_eq] at h
    by_cases hk : k = l
    · simp [hk] at h
    · have hl : ¬l = k := fun e => hk e.symm
      rw [if_neg hk] at h
      simp [setEntries, hl, setEntries_new v h]

theorem setEntries_old {k : κ} {u : ν} (v : ν) : ∀ {es : List (κ × ν)}, es.lookup k = some u →
    ∃ l r, es = l ++ (k, u) :: r ∧ setEntries k v es = l ++ (k, v) :: r
  | [], h => by cases h
  | (l, x) :: rest, h => by
    rw [lookup_cons_eq] at h
    by_cases hk : k = l
    · subst hk
      rw [if_pos rfl, Option.some.injEq] at h
      exact ⟨[], rest, by simp [h], by simp [setEntries]⟩
    · have hl : ¬l = k := fun e => hk e.symm
      rw [if_neg hk] at h
      obtain ⟨a, b, hes, hset⟩ := setEntries_old v h
      exact ⟨(l, x) :: a, b, by simp [hes], by simp [setEntries, hl, hset]⟩

/-- A new key goes to the end. -/
theorem entries_set_new {d : Dict κ ν} {k : κ} (h : d.get? k = none) (v : ν) :
    (d.set k v).entries = d.entries ++ [(k, v)] :=
  setEntries_new v h

/-- Pairs of different keys are the entries. -/
theorem entries_ofPairs {pairs : List (κ × ν)} (h : (pairs.map Prod.fst).Nodup) :
    (ofPairs pairs).entries = pairs := by
  induction pairs using List.reverseRecOn with
  | nil => rfl
  | append_singleton pairs e ih =>
    rw [List.map_append, List.nodup_append] at h
    obtain ⟨hpairs, _, hnew⟩ := h
    have hentries := ih hpairs
    have hnone : (ofPairs pairs).get? e.1 = none := by
      rw [Option.eq_none_iff_forall_ne_some]
      intro v hv
      have hmem := mem_entries_iff.mpr hv
      rw [hentries] at hmem
      exact hnew e.1 (List.mem_map.mpr ⟨_, hmem, rfl⟩) e.1 (by simp) rfl
    have hset := entries_set_new hnone e.2
    rw [hentries] at hset
    unfold ofPairs
    rw [List.foldl_append]
    exact hset

theorem get?_ofPairs {pairs : List (κ × ν)} (h : (pairs.map Prod.fst).Nodup) {k : κ} {v : ν} :
    (ofPairs pairs).get? k = some v ↔ (k, v) ∈ pairs := by
  rw [← mem_entries_iff, entries_ofPairs h]

/-- A key that is there keeps its place. -/
theorem entries_set_old {d : Dict κ ν} {k : κ} {u : ν} (h : d.get? k = some u) (v : ν) :
    ∃ l r, d.entries = l ++ (k, u) :: r ∧ (d.set k v).entries = l ++ (k, v) :: r :=
  setEntries_old v h

/-- `{k: f(v) for k, v in d.items()}` -/
def map {ν' : Type} (f : ν → ν') (d : Dict κ ν) : Dict κ ν' where
  entries := d.entries.map fun e => (e.1, f e.2)
  nodup := by
    rw [List.map_map]
    exact d.nodup

theorem lookup_map {ν' : Type} (f : ν → ν') (k : κ) : ∀ es : List (κ × ν),
    (es.map fun e => (e.1, f e.2)).lookup k = (es.lookup k).map f
  | [] => rfl
  | (l, u) :: rest => by
    rw [List.map_cons, lookup_cons_eq, lookup_cons_eq, lookup_map f k rest]
    split <;> rfl

@[simp] theorem get?_map {ν' : Type} (f : ν → ν') (d : Dict κ ν) (k : κ) :
    (d.map f).get? k = (d.get? k).map f :=
  lookup_map f k d.entries

theorem map_setEntries {ν' : Type} {f g : ν → ν'} {k : κ} (v : ν) : ∀ {es : List (κ × ν)},
    (es.map Prod.fst).Nodup → (∀ e ∈ es, e.1 ≠ k → g e.2 = f e.2) →
    (setEntries k v es).map (fun e => (e.1, g e.2)) =
      setEntries k (g v) (es.map fun e => (e.1, f e.2))
  | [], _, _ => rfl
  | (l, u) :: rest, hn, h => by
    rw [List.map_cons, List.nodup_cons] at hn
    by_cases hl : l = k
    · subst hl
      have hrest : ∀ e ∈ rest, (e.1, g e.2) = (e.1, f e.2) := by
        intro e he
        have hne : e.1 ≠ l := fun heq => hn.1 (List.mem_map.mpr ⟨e, he, heq⟩)
        rw [h e (List.mem_cons_of_mem _ he) hne]
      simp [setEntries, List.map_congr_left hrest]
    · have hu : g u = f u := h (l, u) List.mem_cons_self hl
      have ih := map_setEntries v hn.2 fun e he => h e (List.mem_cons_of_mem _ he)
      simp [setEntries, hl, hu, ih]

/-- Setting a key and mapping, where all other values are mapped as before. -/
theorem map_set {ν' : Type} {f g : ν → ν'} {d : Dict κ ν} {k : κ} (v : ν)
    (h : ∀ k' u, d.get? k' = some u → k' ≠ k → g u = f u) :
    (d.set k v).map g = (d.map f).set k (g v) := by
  have hset := map_setEntries (f := f) v d.nodup fun e he => h e.1 e.2 (mem_entries_iff.mp he)
  simp only [map, set, hset]

/-- Two functions that agree on the values. -/
theorem map_congr {ν' : Type} {f g : ν → ν'} {d : Dict κ ν}
    (h : ∀ k u, d.get? k = some u → g u = f u) : d.map g = d.map f := by
  have hentries : ∀ e ∈ d.entries, (e.1, g e.2) = (e.1, f e.2) := fun e he => by
    rw [h e.1 e.2 (mem_entries_iff.mp he)]
  simp only [map, List.map_congr_left hentries]

end Dict
