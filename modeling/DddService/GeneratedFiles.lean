import Mathlib.Data.List.Nodup
import DddService.GeneratedPaths

/- What is in the generated files after `copy_tool.py add`: the renamed content of the template
   file, when every file lands at its place. A copy changes one file only, no two copies share a
   file, and a copy changes a template file only where it is copied onto itself. -/
namespace DddService.CopyTool
open Replace

section Copies
variable {root cwd : Directory} {name : Text}

/-- What a copy of the file reads: nothing, when it is copied onto itself. -/
def readBy (root cwd : Directory) (name : Text) (files : Files) (path : List Text) : Text :=
  if destination root cwd name path = root.parts ++ path then []
  else (files (root.parts ++ path)).getD []

theorem copyOne_self (files : Files) (path : List Text) :
    copyOne root cwd name files path (destination root cwd name path) =
      some (renameContent name (readBy root cwd name files path)) := by
  unfold copyOne readBy destination
  rw [Function.update_self]
  split
  · next hself => rw [Function.update_apply, if_pos hself.symm, Option.getD_some]
  · next hne => rw [Function.update_of_ne (Ne.symm hne)]

theorem copyOne_of_ne (files : Files) {path file : List Text}
    (h : file ≠ destination root cwd name path) :
    copyOne root cwd name files path file = files file := by
  unfold copyOne
  exact (Function.update_of_ne h _ _).trans (Function.update_of_ne h _ _)

/-- No copy of one of the files disturbs another of them. -/
def Undisturbed (root cwd : Directory) (name : Text) (paths : List (List Text)) : Prop :=
  ∀ path ∈ paths, ∀ other ∈ paths, path ≠ other →
    destination root cwd name path ≠ destination root cwd name other ∧
      destination root cwd name path ≠ root.parts ++ other

theorem copies_of_ne {paths : List (List Text)} {file : List Text} (files : Files)
    (h : ∀ path ∈ paths, file ≠ destination root cwd name path) :
    paths.foldl (copyOne root cwd name) files file = files file := by
  induction paths generalizing files with
  | nil => rfl
  | cons path paths ih =>
    rw [List.foldl_cons, ih _ fun path' hpath' => h path' (List.mem_cons_of_mem path hpath'),
      copyOne_of_ne files (h path (by simp))]

theorem copies_self {paths : List (List Text)} (hnodup : paths.Nodup)
    (hapart : Undisturbed root cwd name paths) (files : Files) {path : List Text}
    (hpath : path ∈ paths) :
    paths.foldl (copyOne root cwd name) files (destination root cwd name path) =
      some (renameContent name (readBy root cwd name files path)) := by
  induction paths generalizing files with
  | nil => simp at hpath
  | cons first paths ih =>
    obtain ⟨hfirst, hnodup'⟩ := List.nodup_cons.mp hnodup
    rw [List.foldl_cons]
    rcases List.mem_cons.mp hpath with rfl | hmem
    · rw [copies_of_ne, copyOne_self]
      intro other hother
      have hne : path ≠ other := fun h => hfirst (h ▸ hother)
      exact (hapart path (by simp) other (by simp [hother]) hne).1
    · have hne : first ≠ path := fun h => hfirst (h ▸ hmem)
      have hsource := (hapart first (by simp) path hpath hne).2
      have hrest : Undisturbed root cwd name paths := fun p hp q hq =>
        hapart p (by simp [hp]) q (by simp [hq])
      rw [ih hnodup' hrest _ hmem, readBy, readBy, copyOne_of_ne files (Ne.symm hsource)]

end Copies

/-! ## The whole call -/

section Add
variable {root cwd : Directory} {name : Text} {files after : Files}

theorem foldlM_copyFile (paths : List (List Text)) (files : Files) :
    paths.foldlM (copyFile root cwd name) files =
      if paths.any (scansItself root cwd name) then none
      else some ((paths.flatMap sources).foldl (copyOne root cwd name) files) := by
  induction paths generalizing files with
  | nil => rfl
  | cons path paths ih =>
    rw [List.foldlM_cons, List.any_cons, List.flatMap_cons, List.foldl_append]
    unfold copyFile at ih ⊢
    cases hscan : scansItself root cwd name path with
    | true => rfl
    | false => simpa using ih _

/-- The call comes to an end exactly when no scan meets a file that its own copies add. -/
theorem add_eq_some_iff : add root cwd name files = some after ↔
    (∀ template ∈ templates, scansItself root cwd name template = false) ∧
      after = (appended name).foldl (appendTo cwd)
        ((templates.flatMap sources).foldl (copyOne root cwd name) files) := by
  unfold add
  rw [foldlM_copyFile]
  by_cases hany : templates.any (scansItself root cwd name) = true
  · rw [if_pos hany]
    simp only [Option.map_none, reduceCtorEq, false_iff, not_and]
    intro hno
    obtain ⟨template, hmem, hscan⟩ := List.any_eq_true.mp hany
    exact absurd (hno template hmem) (by simp [hscan])
  · rw [if_neg hany, Option.map_some, Option.some.injEq, eq_comm]
    have hno : ∀ template ∈ templates, scansItself root cwd name template = false := by
      simpa using hany
    exact (and_iff_right hno).symm

theorem appendTo_of_ne (lines : List Appended) {file : List Text} (files : Files)
    (h : ∀ l ∈ lines, file ≠ cwd.parts ++ l.package ++ ["__init__.py".toList]) :
    lines.foldl (appendTo cwd) files file = files file := by
  induction lines generalizing files with
  | nil => rfl
  | cons l lines ih =>
    rw [List.foldl_cons, ih _ fun l' hl' => h l' (List.mem_cons_of_mem l hl')]
    exact Function.update_of_ne (h l (by simp)) _ _

theorem installed_template {file : TemplateFile} (hfile : file ∈ templateFiles) :
    installed root files (root.parts ++ file.path) = some file.content := by
  have hfind : templateFiles.find? (fun other => root.parts ++ other.path =
      root.parts ++ file.path) = some file := by
    cases hfind : templateFiles.find? (fun other => root.parts ++ other.path =
        root.parts ++ file.path) with
    | none =>
      have hno := List.find?_eq_none.mp hfind file hfile
      simp at hno
    | some other =>
      have hpath : other.path = file.path := by simpa using List.find?_some hfind
      exact congrArg some (List.inj_on_of_nodup_map pathFacts.nodup
        (List.mem_of_find?_eq_some hfind) hfile hpath)
  simp only [installed, hfind]

/-- Every template file lands at its place. -/
def InPlace (root cwd : Directory) (name : Text) : Prop :=
  ∀ path ∈ templatePaths, destination root cwd name path = cwd.parts ++ path.map (filled name)

theorem destination_source (hname : isSnake name = true) (hplace : InPlace root cwd name)
    {path other : List Text} (hpath : path ∈ templatePaths) (hother : other ∈ templatePaths)
    (h : destination root cwd name path = root.parts ++ other) :
    path = other ∧ root.parts = cwd.parts ∧ path.map (filled name) = path := by
  rw [hplace path hpath] at h
  have hshape := pathFacts.shape path hpath
  have hlen := congrArg List.length h
  simp only [List.length_append, List.length_map] at hlen
  have hpre : root.parts ++ other <+: cwd.parts ++ path.map (filled name) := by rw [h]
  rcases below_cases hname hpath (pathFacts.shape other hother).1 hpre with
    ⟨hroot, -⟩ | hpre
  · have heq : path.map (filled name) = other := by
      rw [hroot] at h
      exact List.append_cancel_left h
    have hsame := pathFacts.fits_path path hpath other hother (agree_fits hname hshape.2.2 heq)
    exact ⟨hsame, hroot, heq.trans hsame.symm⟩
  · have hle := hpre.length_le
    have hpos : 0 < path.length := by
      obtain ⟨_, -, below, hp, -⟩ := isTemplatePath_spec hshape.1
      simp [hp]
    rw [List.length_append] at hle
    omega

theorem undisturbed (hname : isSnake name = true) (hplace : InPlace root cwd name) :
    Undisturbed root cwd name templatePaths := by
  intro path hpath other hother hne
  constructor
  · intro h
    rw [hplace path hpath, hplace other hother] at h
    exact hne (filled_injective hname hpath hother (List.append_cancel_left h))
  · intro h
    exact hne (destination_source hname hplace hpath hother h).1

/-- What is in a generated file when the call is over. -/
theorem generated (hname : isSnake name = true) (hplace : InPlace root cwd name)
    (hadd : add root cwd name (installed root files) = some after) {file : TemplateFile}
    (hfile : file ∈ templateFiles) :
    after (destination root cwd name file.path) = some (renameContent name
      (if destination root cwd name file.path = root.parts ++ file.path then []
       else file.content)) := by
  have hpath : file.path ∈ templatePaths := List.mem_map_of_mem hfile
  have hsources : ∀ path, path ∈ templates.flatMap sources ↔ path ∈ templatePaths := fun path =>
    pathFacts.sources_perm.mem_iff
  have hapart : Undisturbed root cwd name (templates.flatMap sources) := fun p hp q hq =>
    undisturbed hname hplace p ((hsources p).mp hp) q ((hsources q).mp hq)
  have hnodup : (templates.flatMap sources).Nodup := pathFacts.sources_perm.nodup_iff.mpr pathFacts.nodup
  have hinit : ∀ l ∈ appended name, destination root cwd name file.path ≠
      cwd.parts ++ l.package ++ ["__init__.py".toList] := by
    intro l hl h
    have hpackages : (appended name).map Appended.package =
        (appended []).map Appended.package := rfl
    have hmem : l.package ∈ (appended []).map Appended.package :=
      hpackages ▸ List.mem_map_of_mem hl
    obtain ⟨l', hl', hpackage⟩ := List.mem_map.mp hmem
    rw [hplace _ hpath, List.append_assoc, List.append_cancel_left_eq] at h
    have hfits := agree_fits hname (pathFacts.shape _ hpath).2.2 h
    rw [← hpackage, pathFacts.fits_init _ hpath l' hl'] at hfits
    exact Bool.noConfusion hfits
  obtain ⟨-, rfl⟩ := add_eq_some_iff.mp hadd
  rw [appendTo_of_ne _ _ hinit, copies_self hnodup hapart _ ((hsources _).mpr hpath), readBy,
    installed_template hfile]
  rfl

end Add

end DddService.CopyTool
