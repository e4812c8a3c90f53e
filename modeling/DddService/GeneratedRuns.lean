import DddService.GeneratedNames
import DddService.Lib.Lists

/- Runs of `copy_tool.py add`. Each call copies the template once more and appends its lines to
   three `__init__.py` files. Two names never share a file, and no call changes the template, so
   that after any run every context is what its own call has made of the template, the lines
   stand in the order of the calls, and nothing else was touched (`adds_closed`). -/
namespace DddService.CopyTool
open Replace

/-! ## Different names -/

/-- Whether two names that differ can make the same of two parts. -/
def crosses (a b : Text) : Bool :=
  match rest a, rest b with
  | some s, some t => s != t
  | some _, none => fits a b
  | none, some _ => fits b a
  | none, none => a == b

section Apart
variable {root cwd : Directory} {name name' : Text}

theorem crosses_of_filled (hname : isSnake name = true) (hname' : isSnake name' = true)
    (hne : name ≠ name') {a b : Text} (ha : isTame a = true) (hb : isTame b = true)
    (h : filled name a = filled name' b) : crosses a b = true := by
  unfold crosses
  cases hra : rest a with
  | none =>
    have hfix : filled name a = a := by simp [filled_eq name ha, hra]
    cases hrb : rest b with
    | none =>
      have hfix' : filled name' b = b := by simp [filled_eq name' hb, hrb]
      simpa [hfix, hfix'] using h
    | some t => exact fits_of_filled hname' hb (h.symm.trans hfix)
  | some s =>
    cases hrb : rest b with
    | none =>
      have hfix' : filled name' b = b := by simp [filled_eq name' hb, hrb]
      exact fits_of_filled hname ha (h.trans hfix')
    | some t =>
      -- after the same rest the names would be the same
      rw [filled_eq name ha, filled_eq name' hb, hra, hrb] at h
      have h : name ++ s = name' ++ t := h
      rw [bne_iff_ne]
      rintro rfl
      exact hne (List.append_cancel_right h)

/-- No two template paths can be made one by two names: where the first of them has its
    placeholder, so has the other, with the same rest. -/
theorem paths_cross_nowhere : ∀ path ∈ templatePaths, ∀ path' ∈ templatePaths,
    agree crosses path path' = false := by
  decide +kernel

theorem filled_apart (hname : isSnake name = true) (hname' : isSnake name' = true)
    (hne : name ≠ name') {path path' : List Text} (hpath : path ∈ templatePaths)
    (hpath' : path' ∈ templatePaths) : path.map (filled name) ≠ path'.map (filled name') := by
  intro h
  have hcross := agree_of_forall (r := crosses) (fun a ha b hb => crosses_of_filled hname hname'
    hne (tame_of_mem hpath ha) (tame_of_mem hpath' hb)) h
  rw [paths_cross_nowhere path hpath path' hpath'] at hcross
  cases hcross

/-- A file that two calls write is written twice by one name, from one template file. -/
theorem destination_cases (hname : isSnake name = true) (hname' : isSnake name' = true)
    (hplace : InPlace root cwd name) (hplace' : InPlace root cwd name') {path path' : List Text}
    (hpath : path ∈ templatePaths) (hpath' : path' ∈ templatePaths)
    (h : destination root cwd name path = destination root cwd name' path') :
    name = name' ∧ path = path' := by
  rw [hplace path hpath, hplace' path' hpath', List.append_cancel_left_eq] at h
  by_cases hne : name = name'
  · subst hne
    exact ⟨rfl, filled_injective hname hpath hpath' h⟩
  · exact absurd h (filled_apart hname hname' hne hpath hpath')

end Apart

/-! ## One more call -/

/-- The file that `add` appends lines to in a package. -/
def initPath (cwd : Directory) (package : List Text) : List Text :=
  cwd.parts ++ package ++ ["__init__.py".toList]

/-- What `add` appends in a package. -/
def linesFor (name : Text) (package : List Text) : Text :=
  ((appended name).filter (·.package = package)).flatMap (·.text)

/-- The packages that `add` appends to. -/
def packages : List (List Text) := (appended []).map (·.package)

theorem packages_eq (name : Text) : (appended name).map (·.package) = packages := rfl

/-- An `__init__.py` has no placeholder in its path, and begins at `app`. -/
theorem packages_shape : ∀ package ∈ packages, ∃ below,
    package ++ ["__init__.py".toList] = "app".toList :: below ∧ "app".toList ∉ below ∧
      ∀ part ∈ package ++ ["__init__.py".toList], rest part = none := by
  have hshape : packages.all (fun package =>
      (package ++ ["__init__.py".toList]).head? == some "app".toList &&
        !(package ++ ["__init__.py".toList]).tail.contains "app".toList &&
        (package ++ ["__init__.py".toList]).all fun part => rest part == none) = true := by
    decide
  intro package hpackage
  have hall := List.all_eq_true.mp hshape package hpackage
  simp only [Bool.and_eq_true, beq_iff_eq, Bool.not_eq_true', List.contains_eq_mem,
    decide_eq_false_iff_not, List.all_eq_true] at hall
  obtain ⟨⟨hhead, happ⟩, hrest⟩ := hall
  obtain ⟨below, hbelow⟩ := List.head?_eq_some_iff.mp hhead
  rw [hbelow] at happ
  exact ⟨below, hbelow, happ, hrest⟩

/-- The template repository is as it was. -/
def Intact (root : Directory) (files : Files) : Prop :=
  ∀ file ∈ templateFiles, files (root.parts ++ file.path) = some file.content

section Add
variable {root cwd : Directory} {name : Text} {files after : Files}

theorem Intact.installed (h : Intact root files) : installed root files = files := by
  funext path
  unfold CopyTool.installed
  cases hfind : templateFiles.find? fun file => root.parts ++ file.path = path with
  | none => rfl
  | some file =>
    have hpath : root.parts ++ file.path = path := by simpa using List.find?_some hfind
    rw [← hpath]
    exact (h file (List.mem_of_find?_eq_some hfind)).symm

theorem intact_installed (root : Directory) (files : Files) :
    Intact root (CopyTool.installed root files) := fun _ hfile => installed_template hfile

theorem initPath_ne_template {package path : List Text} (hpackage : package ∈ packages)
    (hpath : path ∈ templatePaths) : initPath cwd package ≠ root.parts ++ path := by
  intro h
  obtain ⟨below, hinit, happ, hrest⟩ := packages_shape package hpackage
  obtain ⟨layer, -, below', hshape, happ', hsome⟩ :=
    isTemplatePath_spec (pathFacts.shape path hpath).1
  unfold initPath at h
  rw [List.append_assoc, hinit, hshape] at h
  have hsame : package ++ ["__init__.py".toList] = path := by
    rw [hinit, hshape, Lists.append_cons_inj happ happ' h]
  obtain ⟨part, hpart, hplaceholder⟩ := List.any_eq_true.mp hsome
  rw [hrest part (hsame ▸ hpart)] at hplaceholder
  cases hplaceholder

theorem initPath_ne_destination (hname : isSnake name = true) (hplace : InPlace root cwd name)
    {package path : List Text} (hpackage : package ∈ packages) (hpath : path ∈ templatePaths) :
    initPath cwd package ≠ destination root cwd name path := by
  intro h
  obtain ⟨l, hl, rfl⟩ := List.mem_map.mp hpackage
  rw [hplace path hpath, initPath, List.append_assoc, List.append_cancel_left_eq] at h
  have hfits := agree_fits hname (pathFacts.shape path hpath).2.2 h.symm
  rw [pathFacts.fits_init path hpath l hl] at hfits
  cases hfits

theorem mem_sources_iff {path : List Text} :
    path ∈ templates.flatMap sources ↔ path ∈ templatePaths :=
  pathFacts.sources_perm.mem_iff

theorem add_frame (hadd : add root cwd name files = some after) {path : List Text}
    (hcopy : ∀ source ∈ templatePaths, path ≠ destination root cwd name source)
    (hinit : ∀ package ∈ packages, path ≠ initPath cwd package) : after path = files path := by
  obtain ⟨-, rfl⟩ := add_eq_some_iff.mp hadd
  rw [appendTo_of_ne, copies_of_ne]
  · exact fun source hsource => hcopy source (mem_sources_iff.mp hsource)
  · exact fun l hl => hinit l.package (packages_eq name ▸ List.mem_map_of_mem hl)

theorem initPath_inj {package package' : List Text} :
    initPath cwd package = initPath cwd package' ↔ package = package' := by
  simp [initPath]

theorem appendTo_lines (lines : List Appended) (files : Files) (package : List Text) :
    (lines.foldl (appendTo cwd) files (initPath cwd package)).getD [] =
      (files (initPath cwd package)).getD [] ++
        (lines.filter (·.package = package)).flatMap (·.text) := by
  induction lines generalizing files with
  | nil => simp
  | cons l lines ih =>
    have hstep : (appendTo cwd files l (initPath cwd package)).getD [] =
        (files (initPath cwd package)).getD [] ++ if l.package = package then l.text else [] := by
      have hupdate : appendTo cwd files l = Function.update files (initPath cwd l.package)
          (some ((files (initPath cwd l.package)).getD [] ++ l.text)) := rfl
      rw [hupdate, Function.update_apply]
      by_cases hl : l.package = package
      · rw [if_pos hl, hl, if_pos rfl, Option.getD_some]
      · rw [if_neg hl, if_neg fun h => hl (initPath_inj.mp h).symm, List.append_nil]
    rw [List.foldl_cons, ih, hstep]
    by_cases hl : l.package = package
    · simp [hl]
    · simp [hl]

theorem add_lines (hname : isSnake name = true) (hplace : InPlace root cwd name)
    (hadd : add root cwd name files = some after) {package : List Text}
    (hpackage : package ∈ packages) : (after (initPath cwd package)).getD [] =
      (files (initPath cwd package)).getD [] ++ linesFor name package := by
  obtain ⟨-, rfl⟩ := add_eq_some_iff.mp hadd
  rw [appendTo_lines, copies_of_ne]
  · rfl
  · exact fun source hsource =>
      initPath_ne_destination hname hplace hpackage (mem_sources_iff.mp hsource)

theorem add_intact (hname : isSnake name = true) (h : NamesApart root cwd name)
    (hadd : add root cwd name files = some after) (hfiles : Intact root files) :
    Intact root after := by
  intro file hfile
  have hpath : file.path ∈ templatePaths := List.mem_map_of_mem hfile
  rw [add_frame hadd _ fun package hpackage heq => initPath_ne_template hpackage hpath heq.symm]
  · exact hfiles file hfile
  · intro source hsource heq
    obtain ⟨-, hsame, hfilled⟩ :=
      destination_source hname (h.inPlace hname) hsource hpath heq.symm
    obtain ⟨hshape, -, htame⟩ := pathFacts.shape source hsource
    obtain ⟨_, -, _, -, -, hrest⟩ := isTemplatePath_spec hshape
    exact (h.elsewhere (placeholder_of_map htame hrest hfilled)).1 hsame

end Add

/-! ## Runs -/

/-- `add` for one name after the other. -/
def addAll (root cwd : Directory) (names : List SnakeName) (files : Files) : Option Files :=
  names.foldlM (fun files name => add root cwd name.text files) files

/-- What a run of `add` has made of the files: the context of every name, the lines of the
    calls in their order, and all else as it was, the template with it. -/
structure Added (root cwd : Directory) (files : Files) (names : List SnakeName) (after : Files) :
    Prop where
  intact : Intact root after
  contents : ∀ name ∈ names, ∀ file ∈ templateFiles,
    after (destination root cwd name.text file.path) = some (renameContent name.text file.content)
  lines : ∀ package ∈ packages, (after (initPath cwd package)).getD [] =
    (files (initPath cwd package)).getD [] ++ names.flatMap fun name => linesFor name.text package
  frame : ∀ path, (∀ name ∈ names, ∀ source ∈ templatePaths,
      path ≠ destination root cwd name.text source) →
    (∀ package ∈ packages, path ≠ initPath cwd package) → after path = files path

section Runs
variable {root cwd : Directory} {names : List SnakeName} {name : SnakeName}
  {files before after : Files}

theorem Added.step (h : Added root cwd files names before)
    (hnames : ∀ other ∈ names, NamesApart root cwd other.text)
    (hname : NamesApart root cwd name.text) (hadd : add root cwd name.text before = some after) :
    Added root cwd files (names ++ [name]) after where
  intact := add_intact name.snake hname hadd h.intact
  contents other hother file hfile := by
    have hpath : file.path ∈ templatePaths := List.mem_map_of_mem hfile
    have hplace := hname.inPlace name.snake
    have hself : after (destination root cwd name.text file.path) =
        some (renameContent name.text file.content) := by
      rw [← h.intact.installed] at hadd
      exact generated_content name.snake hplace (fun hp => (hname.elsewhere hp).1) hadd hfile
    rcases List.mem_append.mp hother with hold | hnew
    · by_cases hsame : other.text = name.text
      · rw [hsame]
        exact hself
      · -- no copy of this call lands there
        have hother := (hnames other hold).inPlace other.snake
        rw [add_frame hadd (fun source hsource heq => hsame (destination_cases other.snake
            name.snake hother hplace hpath hsource heq).1)
          fun package hpackage heq =>
            initPath_ne_destination other.snake hother hpackage hpath heq.symm]
        exact h.contents other hold file hfile
    · rw [List.mem_singleton.mp hnew]
      exact hself
  lines package hpackage := by
    rw [add_lines name.snake (hname.inPlace name.snake) hadd hpackage, h.lines package hpackage,
      List.flatMap_append, List.flatMap_singleton, List.append_assoc]
  frame path hcopy hinit := by
    have hlast := hcopy name (List.mem_append_right _ (List.mem_singleton_self _))
    rw [add_frame hadd hlast hinit]
    exact h.frame path (fun other hother => hcopy other (List.mem_append_left _ hother)) hinit

theorem addAll_added (h : ∀ name ∈ names, NamesApart root cwd name.text) :
    ∃ after, addAll root cwd names (installed root files) = some after ∧
      Added root cwd (installed root files) names after := by
  induction names using List.reverseRecOn with
  | nil =>
    refine ⟨_, rfl, intact_installed root files, fun _ hname => (nomatch hname), ?_,
      fun _ _ _ => rfl⟩
    exact fun _ _ => (List.append_nil _).symm
  | append_singleton names name ih =>
    have hnames : ∀ other ∈ names, NamesApart root cwd other.text := fun other hother =>
      h other (List.mem_append_left _ hother)
    have hname := h name (List.mem_append_right _ (List.mem_singleton_self _))
    obtain ⟨before, hrun, hbefore⟩ := ih hnames
    obtain ⟨after, hadd⟩ := hname.add_some name.snake before
    refine ⟨after, ?_, hbefore.step hnames hname hadd⟩
    unfold addAll at hrun ⊢
    rw [List.foldlM_append, hrun]
    simpa using hadd

end Runs

/-- For every list of names, the same or different ones, none of which hits anything but the
    placeholders: all the calls come to an end; at the end every context is closed under its own
    names; the `__init__.py` files have got the lines of all the calls, in their order; and
    nothing else has changed, the template included. -/
theorem adds_closed (root cwd : Directory) (names : List SnakeName) (files : Files)
    (h : ∀ name ∈ names, NamesApart root cwd name.text) :
    ∃ after, addAll root cwd names (installed root files) = some after ∧
      (∀ name ∈ names, Closed root cwd name.text after) ∧
      Added root cwd (installed root files) names after := by
  obtain ⟨after, hrun, hadded⟩ : ∃ after,
      addAll root cwd names (installed root files) = some after ∧
      Added root cwd (installed root files) names after := addAll_added h
  refine ⟨after, hrun, fun name hname => ?_, hadded⟩
  have hapart := h name hname
  exact closed_of_contents name.snake hapart.unhit (hapart.inPlace name.snake)
    (hadded.contents name hname)

/-- No placeholder is in the name or in the target directory, and the text of the template root
    in no template path. -/
theorem NamesApart.of_clear {root cwd : Directory} {name : Text} (hroot : root.parts ≠ [])
    (hclear : ∀ path ∈ templatePaths, ¬ pathStr root.parts <:+: pathStr path)
    (hno : ∀ mark ∈ [yourBoundedContext, yourAggregate], ∀ part ∈ name :: cwd.parts,
      ¬ mark <:+: part) : NamesApart root cwd name where
  unhit := Or.inl (hno _ (by simp) _ (by simp))
  target part hpart mark hmark hin := absurd hin (hno mark hmark part (by simp [hpart]))
  below := Or.inr ⟨hroot, fun path hpath =>
    congrArg _ (moved_of_clear hpath (hclear path hpath))⟩
  elsewhere := by
    rintro (h | h)
    · exact absurd (h ▸ List.infix_refl _) (hno yourBoundedContext (by simp) name (by simp))
    · exact absurd (h ▸ List.infix_refl _) (hno yourAggregate (by simp) name (by simp))

def templatesDirectory : Directory := ⟨parts ["templates"], by simp [parts, isPart]⟩

def item : SnakeName := ⟨"item".toList, by simp [isSnake]⟩

/-- Two contexts, the first of them added again. -/
theorem adds_closed_again :
    ∃ after, addAll templatesDirectory shopDirectory [order, item, order]
        (installed templatesDirectory fun _ => none) = some after ∧
      (∀ name ∈ [order, item, order],
        Closed templatesDirectory shopDirectory name.text after) ∧
      Added templatesDirectory shopDirectory (installed templatesDirectory fun _ => none)
        [order, item, order] after := by
  have hclear : ∀ path ∈ templatePaths,
      ¬ pathStr templatesDirectory.parts <:+: pathStr path := by
    decide +kernel
  have hlong : ∀ mark ∈ [yourBoundedContext, yourAggregate], 5 < mark.length := by
    simp [length_context, length_aggregate]
  have hshort : ∀ name ∈ [order, item, order], ∀ part ∈ name.text :: shopDirectory.parts,
      part.length ≤ 5 := by
    simp [order, item, shopDirectory, parts]
  refine adds_closed _ _ _ _ fun name hname => .of_clear (by simp [templatesDirectory, parts])
    hclear fun mark hmark part hpart hin => ?_
  have := hin.length_le
  have := hlong mark hmark
  have := hshort name hname part hpart
  omega

end DddService.CopyTool
