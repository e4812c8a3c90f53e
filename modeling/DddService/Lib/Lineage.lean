import Mathlib.Data.List.Induction
import Mathlib.Data.List.Nodup

/- Logs that only grow, where each entry answers to the entries before it: `Grown R l`
   says that every entry of `l` stands in `R` to what stood before it. A log is such
   if it grew by such entries (`Grown.snoc`), and what such entries preserve holds of
   it (`Grown.induction`).

   A lineage is the case in which entries have keys, and an entry is a root or names
   an earlier one as its parent: no two entries have the same key, and every entry
   descends from a root. -/
namespace Lineage
variable {N K : Type} {R R' : List N → N → Prop} {l : List N}

/-- Every entry of `l` stands in `R` to the entries before it. -/
def Grown (R : List N → N → Prop) (l : List N) : Prop :=
  ∀ pre x post, l = pre ++ x :: post → R pre x

namespace Grown

theorem nil : Grown R [] := fun pre _ _ h => absurd h.symm (by simp)

theorem snoc (h : Grown R l) {x : N} (hx : R l x) : Grown R (l ++ [x]) := by
  intro pre y post heq
  rcases List.eq_nil_or_concat post with rfl | ⟨post', z, rfl⟩
  · obtain ⟨hl, hy⟩ := List.append_inj' heq rfl
    rw [← hl, ← List.singleton_inj.mp hy]
    exact hx
  · have heq' : l ++ [x] = (pre ++ y :: post') ++ [z] := by simpa using heq
    exact h pre y post' (List.append_inj' heq' rfl).1

theorem of_snoc {x : N} (h : Grown R (l ++ [x])) : Grown R l ∧ R l x := by
  refine ⟨fun pre y post heq => h pre y (post ++ [x]) ?_, h l x [] rfl⟩
  rw [heq, List.append_assoc, List.cons_append]

theorem mono (h : Grown R l) (himp : ∀ pre x, R pre x → R' pre x) : Grown R' l :=
  fun pre x post heq => himp pre x (h pre x post heq)

/-- What every entry that stands in `R` preserves. -/
theorem induction {I : List N → Prop} (hnil : I [])
    (hsnoc : ∀ l x, Grown R l → R l x → I l → I (l ++ [x])) (h : Grown R l) : I l := by
  induction l using List.reverseRecOn with
  | nil => exact hnil
  | append_singleton l x ih =>
    obtain ⟨hl, hx⟩ := h.of_snoc
    exact hsnoc l x hl hx (ih hl)

end Grown

/-! ## Lineages -/

section
variable (key : N → K) (parent : N → Option K)

/-- A new key, and the key of an earlier entry as the parent, if there is one. -/
structure Born (pre : List N) (x : N) : Prop where
  fresh : key x ∉ pre.map key
  parent : ∀ p, parent x = some p → p ∈ pre.map key

/-- `x` is a root of `l`, or its parent descends from one. -/
inductive Descends (l : List N) : N → Prop
  | root {x : N} (h : parent x = none) : Descends l x
  | child {x y : N} (hy : y ∈ l) (h : parent x = some (key y)) (hd : Descends l y) : Descends l x

variable {key parent}

theorem Descends.more {x y : N} (h : Descends key parent l x) : Descends key parent (l ++ [y]) x := by
  induction h with
  | root h => exact Descends.root h
  | child hy h _ ih => exact Descends.child (List.mem_append_left _ hy) h ih

theorem Grown.nodup (h : Grown (Born key parent) l) : (l.map key).Nodup := by
  refine h.induction (I := fun l => (l.map key).Nodup) List.nodup_nil fun l x _ hx ih => ?_
  rw [List.map_append, List.map_singleton]
  refine List.Nodup.append ih (List.nodup_singleton _) fun k hk hk' => ?_
  rw [List.mem_singleton.mp hk'] at hk
  exact hx.fresh hk

/-- Every entry of a lineage descends from a root. -/
theorem Grown.descends (h : Grown (Born key parent) l) : ∀ x ∈ l, Descends key parent l x := by
  refine h.induction (I := fun l => ∀ x ∈ l, Descends key parent l x) (by simp)
    fun l x _ hx ih => ?_
  intro y hy
  rcases List.mem_append.mp hy with hy | hy
  · exact (ih y hy).more
  · rw [List.mem_singleton.mp hy]
    cases hp : parent x with
    | none => exact Descends.root hp
    | some p =>
      obtain ⟨z, hz, rfl⟩ := List.mem_map.mp (hx.parent p hp)
      exact Descends.child (List.mem_append_left _ hz) hp (ih z hz).more

end

end Lineage
