import DddService.CopyTool

/- Where `copy_tool.py add` puts the template files. A path is renamed as a whole, so that the
   target directory and what the template root's text hits below the root are renamed with it:
   the file lands at its place below the target directory exactly when neither of them
   changes. -/
namespace DddService.CopyTool
open Replace

/-! ## Names -/

section Names
variable {name : Text}

theorem snake_chars (hname : isSnake name = true) {c : Char} (hc : c ∈ name) :
    c.isLower = true ∨ c.isDigit = true ∨ c = '_' := by
  cases name with
  | nil => simp at hc
  | cons d s =>
    simp only [isSnake, Bool.and_eq_true, List.all_eq_true, Bool.or_eq_true,
      decide_eq_true_eq] at hname
    rcases List.mem_cons.mp hc with rfl | hmem
    · exact Or.inl hname.1
    · exact or_assoc.mp (hname.2 c hmem)

theorem not_mem_snake (hname : isSnake name = true) {c : Char}
    (hc : (c.isLower || c.isDigit || c = '_') = false) : c ∉ name := by
  intro hmem
  have := snake_chars hname hmem
  simp only [Bool.or_eq_false_iff, decide_eq_false_iff_not] at hc
  grind

theorem snake_ne_nil (hname : isSnake name = true) : name ≠ [] := by
  rintro rfl
  exact absurd hname (by decide)

theorem not_snake_infix (hname : isSnake name = true) {t : Text}
    (ht : t.all (fun c => !(c.isLower || c.isDigit || c = '_')) = true) : ¬ name <:+: t := by
  intro hin
  obtain ⟨c, hc⟩ := List.exists_mem_of_ne_nil name (snake_ne_nil hname)
  have := List.all_eq_true.mp ht c (hin.subset hc)
  simp only [Bool.not_eq_true'] at this
  exact not_mem_snake hname this hc

end Names

/-! ## Parts of a path -/

/-- A part after the two replacements in a path. -/
def renamePart (name part : Text) : Text :=
  replace yourAggregate name (replace yourBoundedContext name part)

/-- A part of a template path with its placeholder replaced by the name. -/
def filled (name part : Text) : Text := replaceEach [yourBoundedContext, yourAggregate] name part

/-- What follows the placeholder with which a part of a template path begins. -/
def rest (part : Text) : Option Text :=
  if part = yourBoundedContext then some []
  else if yourAggregate.isPrefixOf part then some (part.drop yourAggregate.length)
  else none

/-- There is a placeholder in the part at most at its beginning. -/
def isTame (part : Text) : Bool :=
  part = yourBoundedContext ||
    (!decide (yourBoundedContext <:+: part) &&
      !decide (yourAggregate <:+: (rest part).getD part))

theorem snake_context : isSnake yourBoundedContext = true := by
  unfold yourBoundedContext
  simp [isSnake]

theorem snake_aggregate : isSnake yourAggregate = true := by
  unfold yourAggregate
  simp [isSnake]

theorem context_ne_nil : yourBoundedContext ≠ [] := snake_ne_nil snake_context

theorem aggregate_ne_nil : yourAggregate ≠ [] := snake_ne_nil snake_aggregate

theorem aggregate_not_infix_context : ¬ yourAggregate <:+: yourBoundedContext := by
  unfold yourBoundedContext yourAggregate
  simp only [String.reduceToList]
  decide

theorem count_context : yourBoundedContext.count 'b' = 1 := by
  unfold yourBoundedContext
  simp

theorem count_aggregate : yourAggregate.count 'b' = 0 := by
  unfold yourAggregate
  simp

theorem length_context : yourBoundedContext.length = 20 := by
  unfold yourBoundedContext
  simp

theorem length_aggregate : yourAggregate.length = 14 := by
  unfold yourAggregate
  simp

theorem filled_short {name part : Text} (h : part.length < yourAggregate.length) :
    filled name part = part := by
  refine replaceEach_eq_self fun mark hmark hin => ?_
  have hle := hin.length_le
  rw [length_aggregate] at h
  rcases List.mem_pair.mp hmark with rfl | rfl
  · rw [length_context] at hle
    omega
  · rw [length_aggregate] at hle
    omega

/-- Replacing the second placeholder leaves the name alone. -/
def Unhit (name : Text) : Prop := ¬ yourAggregate <:+: name ∨ yourAggregate = name

theorem replace_aggregate_name {name : Text} :
    replace yourAggregate name name = name ↔ Unhit name :=
  replace_eq_self_iff aggregate_ne_nil

theorem tame_cases {part : Text} (ht : isTame part = true) :
    (rest part = none ∧ ¬ yourBoundedContext <:+: part ∧ ¬ yourAggregate <:+: part) ∨
      (rest part = some [] ∧ part = yourBoundedContext) ∨
      ∃ s, rest part = some s ∧ part = yourAggregate ++ s ∧
        ¬ yourBoundedContext <:+: part ∧ ¬ yourAggregate <:+: s := by
  by_cases hcontext : part = yourBoundedContext
  · exact Or.inr (Or.inl ⟨by simp [rest, hcontext], hcontext⟩)
  · simp only [isTame, hcontext, decide_false, Bool.false_or, Bool.and_eq_true,
      Bool.not_eq_true', decide_eq_false_iff_not] at ht
    by_cases hpre : yourAggregate <+: part
    · obtain ⟨s, rfl⟩ := hpre
      have hrest : rest (yourAggregate ++ s) = some s := by simp [rest, hcontext]
      rw [hrest] at ht
      exact Or.inr (Or.inr ⟨s, hrest, rfl, ht.1, ht.2⟩)
    · have hrest : rest part = none := by simp [rest, hcontext, hpre]
      rw [hrest] at ht
      exact Or.inl ⟨hrest, ht.1, ht.2⟩

theorem filled_eq {part : Text} (name : Text) (ht : isTame part = true) :
    filled name part = ((rest part).map (name ++ ·)).getD part := by
  unfold filled
  rcases tame_cases ht with ⟨hrest, hno⟩ | ⟨hrest, rfl⟩ | ⟨s, hrest, rfl, hcontext, hs⟩
  · rw [hrest, replaceEach_eq_self (by simpa using hno)]
    rfl
  · have hit : replaceEach [yourBoundedContext, yourAggregate] name (yourBoundedContext ++ []) =
        name ++ [] := replaceEach_hit context_ne_nil (by simp)
    simpa [hrest] using hit
  · have hno : ¬ yourBoundedContext <+: yourAggregate ++ s := fun hpre => hcontext hpre.isInfix
    have hs' : ¬ yourBoundedContext <:+: s := fun hin =>
      hcontext (hin.trans (List.suffix_append yourAggregate s).isInfix)
    rw [replaceEach_hit aggregate_ne_nil (by simp [hno]), replaceEach_eq_self (by simp [hs, hs']),
      hrest]
    rfl

/-- Where the name is not hit itself, the two replacements fill a tame part. -/
theorem renamePart_eq_filled {name part : Text} (hname : Unhit name)
    (ht : isTame part = true) : renamePart name part = filled name part := by
  rw [filled_eq name ht]
  unfold renamePart
  rcases tame_cases ht with ⟨hrest, hno⟩ | ⟨hrest, rfl⟩ | ⟨s, hrest, rfl, hcontext, hs⟩
  · rw [hrest, replace_eq_self hno.1, replace_eq_self hno.2]
    rfl
  · have hfirst := replace_append name context_ne_nil []
    rw [List.append_nil] at hfirst
    rw [hrest, hfirst]
    simpa [replace] using replace_aggregate_name.mpr hname
  · rw [hrest, replace_eq_self hcontext, replace_append name aggregate_ne_nil, replace_eq_self hs]
    rfl

/-! ## Paths and their texts -/

theorem isPart_spec {part : Text} (h : isPart part = true) :
    part ≠ [] ∧ part ≠ ['.'] ∧ '/' ∉ part := by
  simp only [isPart, Bool.and_eq_true, bne_iff_ne, Bool.not_eq_true',
    List.contains_eq_mem, decide_eq_false_iff_not] at h
  exact ⟨h.1.1.1, h.1.1.2, h.2⟩

@[simp] theorem pathOf_slash (s : Text) : pathOf ('/' :: s) = pathOf s := by
  have hsplit := List.splitOn_append_cons_self (a := '/') [] s
  simp only [List.nil_append, List.splitOn_nil] at hsplit
  simp [pathOf, hsplit]

theorem pathOf_append_slash (a b : Text) : pathOf (a ++ '/' :: b) = pathOf a ++ pathOf b := by
  simp [pathOf, List.splitOn_append_cons_self]

theorem pathOf_part {part : Text} (h : isPart part = true) : pathOf part = [part] := by
  obtain ⟨hne, hdot, hslash⟩ := isPart_spec h
  simp [pathOf, List.splitOn_eq_singleton hslash, hne, hdot]

theorem pathOf_flatMap {path : List Text} (h : path.all isPart = true) :
    pathOf (path.flatMap ('/' :: ·)) = path := by
  induction path using List.reverseRecOn with
  | nil => decide
  | append_singleton path part ih =>
    simp only [List.all_append, List.all_cons, List.all_nil, Bool.and_true,
      Bool.and_eq_true] at h
    rw [List.flatMap_append, List.flatMap_singleton, pathOf_append_slash, ih h.1,
      pathOf_part h.2]

theorem pathOf_pathStr {path : List Text} (h : path.all isPart = true) :
    pathOf (pathStr path) = path := by
  unfold pathStr
  split
  · next hnil =>
    rw [hnil]
    decide
  · exact pathOf_flatMap h

theorem pathStr_append {a b : List Text} (ha : a ≠ []) (hb : b ≠ []) :
    pathStr (a ++ b) = pathStr a ++ pathStr b := by
  simp [pathStr, ha, hb]

theorem pathStr_slash (path : List Text) : ∃ s, pathStr path = '/' :: s := by
  cases path with
  | nil => exact ⟨[], rfl⟩
  | cons part path => exact ⟨part ++ path.flatMap ('/' :: ·), by simp [pathStr]⟩

section Renaming
variable {name : Text}

theorem renamePart_eq_iff (hname : isSnake name = true) {s t : Text}
    (ht : t.all (fun c => !(c.isLower || c.isDigit || c = '_')) = true) :
    renamePart name s = t ↔ s = t := by
  have hnew := not_snake_infix hname ht
  have hcontext : ¬ yourBoundedContext <:+: t := not_snake_infix snake_context ht
  have haggregate : ¬ yourAggregate <:+: t := not_snake_infix snake_aggregate ht
  unfold renamePart
  rw [replace_eq_iff aggregate_ne_nil hnew haggregate,
    replace_eq_iff context_ne_nil hnew hcontext]

theorem pathOf_renamePart (hname : isSnake name = true) (s : Text) :
    pathOf (renamePart name s) = (pathOf s).map (renamePart name) := by
  have hslash : ('/'.isLower || '/'.isDigit || '/' = '_') = false := by decide
  have hno := not_mem_snake hname hslash
  have hsplit : (renamePart name s).splitOn '/' = (s.splitOn '/').map (renamePart name) := by
    unfold renamePart replace
    rw [splitOn_replaceEach (by simp [aggregate_ne_nil])
        (by simpa using not_mem_snake snake_aggregate hslash) hno,
      splitOn_replaceEach (by simp [context_ne_nil])
        (by simpa using not_mem_snake snake_context hslash) hno, List.map_map]
    rfl
  have hkeep : ∀ part, (renamePart name part != [] && renamePart name part != ['.']) =
      (part != [] && part != ['.']) := by
    intro part
    have hnil := renamePart_eq_iff (s := part) (t := []) hname (by decide)
    have hdot := renamePart_eq_iff (s := part) (t := ['.']) hname (by decide)
    rw [Bool.eq_iff_iff]
    simp [hnil, hdot]
  unfold pathOf
  rw [hsplit, List.filter_map]
  congr 1
  exact List.filter_congr fun part _ => hkeep part

end Renaming

/-- The placeholders in a part are the name itself. -/
def Kept (name part : Text) : Prop :=
  ∀ mark ∈ [yourBoundedContext, yourAggregate], mark <:+: part → mark = name

/-- A part survives the renaming exactly when it has no placeholder but the name itself. The
    letter b, which only the first placeholder has, shows that the second replacement does
    not undo the first. -/
theorem renamePart_eq_self_iff {name part : Text} :
    renamePart name part = part ↔ Kept name part := by
  have hkept : Kept name part ↔
      (¬ yourBoundedContext <:+: part ∨ yourBoundedContext = name) ∧
        (¬ yourAggregate <:+: part ∨ yourAggregate = name) := by
    rw [Kept, List.forall_mem_cons, List.forall_mem_singleton, imp_iff_not_or, imp_iff_not_or]
  rw [hkept]
  constructor
  · intro h
    obtain ⟨k, hk, hcountk, -⟩ := replace_counts name context_ne_nil part
    obtain ⟨m, hm, hcountm, -⟩ :=
      replace_counts name aggregate_ne_nil (replace yourBoundedContext name part)
    have hb := hcountk 'b'
    have hb' := hcountm 'b'
    rw [show replace yourAggregate name (replace yourBoundedContext name part) = part from h,
      count_aggregate] at hb'
    rw [count_context] at hb
    -- were both found, the letters b put in would be more than those taken out
    have hzero : k = 0 ∨ m = 0 := by
      generalize name.count 'b' = n at hb hb'
      cases n with
      | zero => left; omega
      | succ n =>
        right
        simp only [Nat.mul_succ] at hb hb'
        omega
    rcases hzero with h0 | h0
    · have hfirst := hk h0
      refine ⟨Or.inl hfirst, (replace_eq_self_iff aggregate_ne_nil).mp ?_⟩
      rwa [renamePart, replace_eq_self hfirst] at h
    · have hsecond := hm h0
      rw [renamePart, replace_eq_self hsecond] at h
      exact ⟨(replace_eq_self_iff context_ne_nil).mp h, Or.inl (h ▸ hsecond)⟩
  · rintro ⟨hcontext, haggregate⟩
    rw [renamePart, (replace_eq_self_iff context_ne_nil).mpr hcontext,
      (replace_eq_self_iff aggregate_ne_nil).mpr haggregate]

/-! ## Destinations -/

def destination (root cwd : Directory) (name : Text) (path : List Text) : List Text :=
  replacePathByName root cwd name (root.parts ++ path)

/-- What putting `cwd` for `root` makes of a path below the root. -/
def moved (root cwd : Directory) (path : List Text) : List Text :=
  pathOf (replace (pathStr root.parts) (pathStr cwd.parts) (pathStr path))

theorem pathStr_ne_nil (path : List Text) : pathStr path ≠ [] := by
  obtain ⟨s, hs⟩ := pathStr_slash path
  simp [hs]

theorem replace_slash {old new s : Text} (hold : old ≠ []) (hnew : ∃ t, new = '/' :: t) :
    ∃ t, replace old new ('/' :: s) = '/' :: t := by
  by_cases hpre : old <+: '/' :: s
  · obtain ⟨rest, hrest⟩ := hpre
    obtain ⟨t, rfl⟩ := hnew
    exact ⟨t ++ replace old ('/' :: t) rest, by rw [← hrest, replace_append _ hold]; rfl⟩
  · exact ⟨replace old new s, replaceEach_miss (by simpa using hpre)⟩

section Destinations
variable {root cwd : Directory} {name : Text} {path : List Text}

theorem moved_same (hsame : root.parts = cwd.parts) (hpath : path.all isPart = true) :
    moved root cwd path = path := by
  rw [moved, hsame, replace_same (pathStr_ne_nil _), pathOf_pathStr hpath]

theorem destination_split (hname : isSnake name = true) (hne : path ≠ [])
    (hpath : path.all isPart = true) (hroot : root.parts ≠ [] ∨ root.parts = cwd.parts) :
    destination root cwd name path =
      cwd.parts.map (renamePart name) ++ (moved root cwd path).map (renamePart name) := by
  have hdst : destination root cwd name path = (pathOf (replace (pathStr root.parts)
      (pathStr cwd.parts) (pathStr (root.parts ++ path)))).map (renamePart name) :=
    pathOf_renamePart hname _
  rw [hdst, ← List.map_append]
  congr 1
  by_cases hsame : root.parts = cwd.parts
  · rw [moved_same hsame hpath, ← hsame, replace_same (pathStr_ne_nil _)]
    exact pathOf_pathStr (by simp [root.resolved, hpath])
  · obtain ⟨s, hs⟩ := pathStr_slash path
    obtain ⟨t, ht⟩ := replace_slash (s := s) (pathStr_ne_nil root.parts) (pathStr_slash cwd.parts)
    rw [pathStr_append (hroot.resolve_right hsame) hne, replace_append _ (pathStr_ne_nil _), moved,
      hs, ht, pathOf_append_slash, pathOf_pathStr cwd.resolved, pathOf_slash]

/-- A file lands at its place exactly when renaming leaves the target directory alone and
    makes the right thing of what is below the root. -/
theorem destination_eq_iff (hname : isSnake name = true) (hne : path ≠ [])
    (hpath : path.all isPart = true) (hroot : root.parts ≠ [] ∨ root.parts = cwd.parts) :
    destination root cwd name path = cwd.parts ++ path.map (filled name) ↔
      (∀ part ∈ cwd.parts, Kept name part) ∧
        (moved root cwd path).map (renamePart name) = path.map (filled name) := by
  have hcwd : cwd.parts.map (renamePart name) = cwd.parts ↔ ∀ part ∈ cwd.parts, Kept name part := by
    nth_rewrite 2 [← List.map_id cwd.parts]
    rw [List.map_inj_left]
    exact forall₂_congr fun part _ => renamePart_eq_self_iff
  rw [destination_split hname hne hpath hroot, ← hcwd]
  constructor
  · intro h
    exact List.append_inj h (by simp)
  · rintro ⟨hkept, hrest⟩
    rw [hkept, hrest]

/-! A template root that is the root directory: its text is in every separator. -/

theorem pathOf_append {a b : Text} (hb : b = [] ∨ ∃ s, b = '/' :: s) :
    pathOf (a ++ b) = pathOf a ++ pathOf b := by
  rcases hb with rfl | ⟨s, rfl⟩
  · simp [pathOf]
  · rw [pathOf_append_slash, pathOf_slash]

theorem replace_separators (new : Text) (hpath : path.all isPart = true) :
    replace ['/'] new (path.flatMap ('/' :: ·)) = path.flatMap (new ++ ·) := by
  induction path with
  | nil => rfl
  | cons part path ih =>
    rw [List.all_cons, Bool.and_eq_true] at hpath
    have hslash : '/' ∉ part := (isPart_spec hpath.1).2.2
    have hone : replace ['/'] new ('/' :: (part ++ path.flatMap ('/' :: ·))) =
        new ++ replace ['/'] new (part ++ path.flatMap ('/' :: ·)) :=
      replace_append new (by simp) (part ++ path.flatMap ('/' :: ·))
    rw [List.flatMap_cons, List.flatMap_cons, ← ih hpath.2, List.append_assoc,
      ← replace_append_left hslash, ← hone]
    rfl

theorem length_pathOf_joined {part : Text} (hcwd : cwd.parts ≠ []) (hpart : isPart part = true) :
    (pathOf (pathStr cwd.parts ++ part)).length = cwd.parts.length := by
  have hall := cwd.resolved
  obtain ⟨parts, last, hparts⟩ := List.eq_nil_or_concat cwd.parts |>.resolve_left hcwd
  rw [hparts] at hall ⊢
  simp only [List.concat_eq_append, List.all_append, List.all_cons, List.all_nil, Bool.and_true,
    Bool.and_eq_true] at hall ⊢
  obtain ⟨hne, hdot, hslash⟩ := isPart_spec hall.2
  obtain ⟨hne', -, hslash'⟩ := isPart_spec hpart
  have hboth : pathOf (last ++ part) = [last ++ part] := by
    have hno : '/' ∉ last ++ part := by simp [hslash, hslash']
    have hdot' : last ++ part ≠ ['.'] := by
      intro h
      rcases List.append_eq_singleton_iff.mp h with ⟨h, -⟩ | ⟨-, h⟩
      · exact hne h
      · exact hne' h
    simp [pathOf, List.splitOn_eq_singleton hno, hne, hdot']
  have hstr : pathStr (parts ++ [last]) ++ part =
      parts.flatMap ('/' :: ·) ++ '/' :: (last ++ part) := by
    simp [pathStr]
  rw [hstr, pathOf_append_slash, pathOf_flatMap hall.1, hboth]
  simp

theorem length_pathOf_flatMap (hcwd : cwd.parts ≠ []) (hpath : path.all isPart = true) :
    (pathOf (path.flatMap (pathStr cwd.parts ++ ·))).length = path.length * cwd.parts.length := by
  induction path with
  | nil => simp [pathOf]
  | cons part path ih =>
    rw [List.all_cons, Bool.and_eq_true] at hpath
    have hnext : path.flatMap (pathStr cwd.parts ++ ·) = [] ∨
        ∃ s, path.flatMap (pathStr cwd.parts ++ ·) = '/' :: s := by
      cases path with
      | nil => exact Or.inl rfl
      | cons part' path =>
        obtain ⟨s, hs⟩ := pathStr_slash cwd.parts
        exact Or.inr ⟨s ++ part' ++ path.flatMap (pathStr cwd.parts ++ ·), by simp [hs]⟩
    rw [List.flatMap_cons, pathOf_append hnext, List.length_append, ih hpath.2,
      length_pathOf_joined hcwd hpath.1, List.length_cons, Nat.succ_mul, Nat.add_comm]

/-- From the root directory every part takes the whole target directory in front of it. -/
theorem length_destination (hname : isSnake name = true) (hroot : root.parts = [])
    (hcwd : cwd.parts ≠ []) (hne : path ≠ []) (hpath : path.all isPart = true) :
    (destination root cwd name path).length = path.length * cwd.parts.length := by
  have hdst : destination root cwd name path = (pathOf (replace (pathStr root.parts)
      (pathStr cwd.parts) (pathStr (root.parts ++ path)))).map (renamePart name) :=
    pathOf_renamePart hname _
  have hpathStr : pathStr path = path.flatMap ('/' :: ·) := by simp [pathStr, hne]
  rw [hdst, hroot, List.nil_append, hpathStr, List.length_map, ← length_pathOf_flatMap hcwd hpath,
    ← replace_separators _ hpath]
  rfl

end Destinations

/-! ## The template paths -/

/-- Whether filling in some name can make `target` of the part. -/
def fits (part target : Text) : Bool :=
  match rest part with
  | none => part == target
  | some s => s.isSuffixOf target && isSnake (target.take (target.length - s.length))

/-- Whether filling in some name can make the same of two parts. -/
def meets (a b : Text) : Bool :=
  match rest a, rest b with
  | some s, some t => s == t
  | some _, none => fits a b
  | none, _ => fits b a

/-- The parts of the two paths agree, one by one. -/
def agree (r : Text → Text → Bool) (a b : List Text) : Bool :=
  a.length == b.length && (a.zip b).all fun p => r p.1 p.2

theorem fits_of_filled {name part target : Text} (hname : isSnake name = true)
    (ht : isTame part = true) (h : filled name part = target) : fits part target = true := by
  rw [filled_eq name ht] at h
  unfold fits
  cases hr : rest part with
  | none => simpa [hr] using h
  | some s =>
    rw [hr, Option.map_some, Option.getD_some] at h
    subst h
    simp [hname]

theorem meets_of_filled {name a b : Text} (hname : isSnake name = true) (ha : isTame a = true)
    (hb : isTame b = true) (h : filled name a = filled name b) : meets a b = true := by
  unfold meets
  cases hra : rest a with
  | none =>
    have hfix : filled name a = a := by simp [filled_eq name ha, hra]
    exact fits_of_filled hname hb (h.symm.trans hfix)
  | some s =>
    cases hrb : rest b with
    | none =>
      have hfix : filled name b = b := by simp [filled_eq name hb, hrb]
      exact fits_of_filled hname ha (h.trans hfix)
    | some t =>
      rw [filled_eq name ha, filled_eq name hb, hra, hrb] at h
      simpa using h

theorem agree_of_forall {r : Text → Text → Bool} {f g : Text → Text} {a b : List Text}
    (hr : ∀ x ∈ a, ∀ y ∈ b, f x = g y → r x y = true) (h : a.map f = b.map g) :
    agree r a b = true := by
  induction a generalizing b with
  | nil =>
    have : b = [] := by simpa using h.symm
    simp [agree, this]
  | cons x a ih =>
    cases b with
    | nil => simp at h
    | cons y b =>
      simp only [List.map_cons, List.cons.injEq] at h
      have htail := ih (fun x hx y hy => hr x (by simp [hx]) y (by simp [hy])) h.2
      have hhead := hr x (by simp) y (by simp) h.1
      simp only [agree, Bool.and_eq_true, beq_iff_eq] at htail ⊢
      simp [htail.1, hhead, htail.2]

def templatePaths : List (List Text) := templateFiles.map (·.path)

/-- Every template path goes through one of these below `app`. -/
def layers : List Text := parts ["adapter", "core", "port"]

/-- How a template or a template path begins, and that it has a placeholder. -/
def isTemplatePath (path : List Text) : Bool :=
  path.head? == some "app".toList && (path[1]?).all layers.contains && (path[1]?).isSome &&
    !path.tail.contains "app".toList && path.any fun part => (rest part).isSome

/-- What the template paths are like: `fits` and `meets` compare them for every name. -/
@[mk_iff]
structure PathFacts : Prop where
  shape : ∀ path ∈ templatePaths,
    isTemplatePath path = true ∧ path.all isPart = true ∧ path.all isTame = true
  templates_shape : ∀ template ∈ templates,
    isTemplatePath template = true ∧ template.all isTame = true
  /-- Below its first part no template path can be made to look like one. -/
  app_only_first : ∀ path ∈ templatePaths, ∀ below ∈ path.tail.tails, ∀ layer ∈ layers,
    agree fits (below.take 2) ["app".toList, layer] = false
  fits_path : ∀ path ∈ templatePaths, ∀ target ∈ templatePaths,
    agree fits path target = true → path = target
  meets_path : ∀ path ∈ templatePaths, ∀ path' ∈ templatePaths,
    agree meets path path' = true → path = path'
  fits_template : ∀ template ∈ templates, ∀ path ∈ templatePaths,
    agree fits (path.take template.length) template = true →
      path.take template.length = template
  /-- Filling in a name never makes the path of an `__init__.py` to which lines are appended. -/
  fits_init : ∀ path ∈ templatePaths, ∀ lines ∈ appended [],
    agree fits path (lines.package ++ ["__init__.py".toList]) = false
  sources_perm : (templates.flatMap sources).Perm templatePaths
  nodup : templatePaths.Nodup
  /-- The third part of a template path is the first placeholder or a short word. -/
  third_part : ∀ path ∈ templatePaths, ∀ part ∈ path[2]?,
    part = yourBoundedContext ∨ part.length < yourAggregate.length
  sources_ne_nil : ∀ template ∈ templates, sources template ≠ []
  /-- Named like the first placeholder, the template repository's own context is scanned while
      its copies are added to it. -/
  context_scanned : ∃ template ∈ templates, isDir template = true ∧
    ∃ path ∈ sources template, template <+: path.map (filled yourBoundedContext) ∧
      path.map (filled yourBoundedContext) ≠ path

theorem pathFacts : PathFacts := by
  rw [pathFacts_iff]
  decide +kernel

section Filled
variable {name : Text} {path target : List Text}

theorem tame_of_mem (hpath : path ∈ templatePaths) {part : Text} (hpart : part ∈ path) :
    isTame part = true :=
  List.all_eq_true.mp (pathFacts.shape path hpath).2.2 part hpart

theorem agree_fits (hname : isSnake name = true) (htame : path.all isTame = true)
    (h : path.map (filled name) = target) : agree fits path target = true := by
  refine agree_of_forall (f := filled name) (g := id) (fun part hpart goal _ heq => ?_) (by simpa)
  exact fits_of_filled hname (List.all_eq_true.mp htame part hpart) heq

theorem filled_injective (hname : isSnake name = true) {path' : List Text}
    (hpath : path ∈ templatePaths) (hpath' : path' ∈ templatePaths)
    (h : path.map (filled name) = path'.map (filled name)) : path = path' := by
  refine pathFacts.meets_path path hpath path' hpath' (agree_of_forall (fun a ha b hb => ?_) h)
  exact meets_of_filled hname (tame_of_mem hpath ha) (tame_of_mem hpath' hb)

/-- A part that its name fills with the placeholder it has. -/
theorem placeholder_of_filled {part : Text} (ht : isTame part = true)
    (hrest : (rest part).isSome = true) (h : filled name part = part) :
    name = yourBoundedContext ∨ name = yourAggregate := by
  rw [filled_eq name ht] at h
  rcases tame_cases ht with ⟨hr, -⟩ | ⟨hr, rfl⟩ | ⟨s, hr, rfl, -⟩
  · simp [hr] at hrest
  · left
    simpa [hr] using h
  · right
    simpa [hr] using h

theorem placeholder_of_map (htame : path.all isTame = true)
    (hrest : path.any (fun part => (rest part).isSome) = true)
    (h : path.map (filled name) = path) : name = yourBoundedContext ∨ name = yourAggregate := by
  obtain ⟨part, hpart, hsome⟩ := List.any_eq_true.mp hrest
  nth_rewrite 2 [← List.map_id path] at h
  rw [List.map_inj_left] at h
  exact placeholder_of_filled (List.all_eq_true.mp htame part hpart) hsome (h part hpart)

theorem isTemplatePath_spec (h : isTemplatePath path = true) :
    ∃ layer ∈ layers, ∃ below, path = "app".toList :: layer :: below ∧
      "app".toList ∉ layer :: below ∧ path.any (fun part => (rest part).isSome) = true := by
  simp only [isTemplatePath, Bool.and_eq_true, beq_iff_eq, Bool.not_eq_true'] at h
  obtain ⟨⟨⟨⟨hhead, hlayer⟩, hsome⟩, happ⟩, hrest⟩ := h
  match path with
  | [] => simp at hhead
  | [_] => simp at hsome
  | first :: layer :: below =>
    simp only [List.head?_cons, Option.some.injEq] at hhead
    subst hhead
    refine ⟨layer, by simpa using hlayer, below, rfl, ?_, hrest⟩
    simpa using happ

theorem filled_app : filled name "app".toList = "app".toList := by
  refine filled_short ?_
  rw [length_aggregate]
  decide

/-- What `app` and a layer begin in a filled path, they begin at its first part. -/
theorem filled_below (hname : isSnake name = true) (hpath : path ∈ templatePaths)
    {layer : Text} (hlayer : layer ∈ layers) {d below : List Text} (hd : d ≠ []) :
    ¬ d ++ "app".toList :: layer :: below <+: path.map (filled name) := by
  rintro ⟨w, hw⟩
  have htake : ((path.drop d.length).take 2).map (filled name) = ["app".toList, layer] := by
    rw [List.map_take, List.map_drop, ← hw, List.append_assoc, List.drop_left]
    rfl
  have htame : ((path.drop d.length).take 2).all isTame = true := by
    rw [List.all_eq_true]
    exact fun part hpart =>
      tame_of_mem hpath (List.mem_of_mem_drop (List.mem_of_mem_take hpart))
  have hbelow : path.drop d.length ∈ path.tail.tails := by
    rw [List.mem_tails, ← List.drop_one]
    have hlen : 1 ≤ d.length := List.length_pos_iff.mpr hd
    obtain ⟨k, hk⟩ := Nat.exists_eq_add_of_le hlen
    rw [hk, ← List.drop_drop]
    exact List.drop_suffix k (path.drop 1)
  have hfalse := pathFacts.app_only_first path hpath _ hbelow layer hlayer
  rw [agree_fits hname htame htake] at hfalse
  exact Bool.noConfusion hfalse

/-- A template path, put below one directory, that begins a filled template path below
    another: the directories are one, or it ends above the second. -/
theorem below_cases (hname : isSnake name = true) {u v : List Text}
    (hpath : path ∈ templatePaths) (htarget : isTemplatePath target = true)
    (h : u ++ target <+: v ++ path.map (filled name)) :
    (u = v ∧ target <+: path.map (filled name)) ∨ u ++ target <+: v := by
  obtain ⟨layer, hlayer, below, htgt, happ, -⟩ := isTemplatePath_spec htarget
  obtain ⟨_, -, below', hpth, -, -⟩ := isTemplatePath_spec (pathFacts.shape path hpath).1
  have hu : u <+: v ++ path.map (filled name) := (List.prefix_append u target).trans h
  rcases List.prefix_or_prefix_of_prefix hu (List.prefix_append v _) with ⟨d, rfl⟩ | ⟨d, rfl⟩
  · -- the first directory is the higher one
    rw [List.append_assoc, List.prefix_append_right_inj] at h
    cases d with
    | nil => exact Or.inl ⟨by simp, by simpa using h⟩
    | cons y d =>
      right
      rcases List.prefix_or_prefix_of_prefix h (List.prefix_append (y :: d) _) with
        hle | ⟨e, he⟩
      · simpa using hle
      · rw [← he, List.prefix_append_right_inj, hpth, List.map_cons, filled_app] at h
        cases e with
        | nil => simp [← he]
        | cons x e =>
          -- the filled path would begin in the target, below its first part
          have hx : x = "app".toList := (List.cons_prefix_cons.mp h).1
          rw [htgt, List.cons_append, List.cons.injEq] at he
          exact absurd (by simp [← he.2, hx]) happ
  · -- the second directory is the higher one
    rw [List.append_assoc, List.prefix_append_right_inj] at h
    cases d with
    | nil => exact Or.inl ⟨by simp, by simpa using h⟩
    | cons y d => exact absurd (htgt ▸ h) (filled_below hname hpath hlayer (by simp))

end Filled

end DddService.CopyTool
