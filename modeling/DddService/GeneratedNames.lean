import DddService.GeneratedFiles
import DddService.GeneratedImports

/- What `copy_tool.py add` generates and when its names agree: every template file at its place
   below the target directory, and every import of a generated or appended line naming a
   generated file and what that file defines. Paths, contents and appended lines are renamed by
   chains of their own, so this comes down to what a replacement can hit besides the
   placeholder it is meant for (`generates_iff`). -/
namespace DddService.CopyTool
open Replace

/-! ## The property -/

/-- The module is that of a generated file, and the file defines the names. -/
def Resolves (root cwd : Directory) (name : Text) (after : Files) (i : Import) : Prop :=
  ∃ file ∈ templateFiles, ∃ content,
    cwd.parts ++ fileOf i.1 = destination root cwd name file.path ∧
      after (destination root cwd name file.path) = some content ∧
      ∀ n ∈ i.2, n ∈ definitions content

/-- What the call leaves behind is closed under its own names. -/
structure Closed (root cwd : Directory) (name : Text) (after : Files) : Prop where
  paths : ∀ file ∈ templateFiles,
    destination root cwd name file.path = cwd.parts ++ file.path.map (filled name)
  contents : ∀ file ∈ templateFiles, ∃ content,
    after (destination root cwd name file.path) = some content ∧
      ∀ i ∈ imports content, Resolves root cwd name after i
  appended : ∀ lines ∈ appended name, ∀ i ∈ imports lines.text,
    Resolves root cwd name after (absolute lines.package i.1, i.2)

/-- The call comes to an end and leaves a closed bounded context behind. -/
def Generates (root cwd : Directory) (name : Text) (files : Files) : Prop :=
  ∃ after, add root cwd name (installed root files) = some after ∧ Closed root cwd name after

/-- No replacement hits anything but the placeholders of the template: neither the name that
    has been put in, nor the target directory, nor, with the text of the root, what is below
    the root. A name that is itself a placeholder is not given in the template repository. -/
structure NamesApart (root cwd : Directory) (name : Text) : Prop where
  unhit : Unhit name
  target : ∀ part ∈ cwd.parts, Kept name part
  below : root.parts = cwd.parts ∨ root.parts ≠ [] ∧ ∀ path ∈ templatePaths,
    (moved root cwd path).map (renamePart name) = path.map (renamePart name)
  elsewhere : name = yourBoundedContext ∨ name = yourAggregate → root.parts ≠ cwd.parts ∧
    ∀ template ∈ templates, isDir template = true → ¬ root.parts ++ template <+: cwd.parts

section Places
variable {root cwd : Directory} {name : Text}

theorem map_filled_eq (hunhit : Unhit name) {path : List Text} (hpath : path ∈ templatePaths) :
    path.map (renamePart name) = path.map (filled name) :=
  List.map_congr_left fun _ hpart => renamePart_eq_filled hunhit (tame_of_mem hpath hpart)

theorem templatePath_ne_nil {path : List Text} (hpath : path ∈ templatePaths) : path ≠ [] := by
  obtain ⟨_, -, below, h, -⟩ := isTemplatePath_spec (pathFacts.shape path hpath).1
  simp [h]

theorem repository_mem : repositoryFile.path ∈ templatePaths :=
  List.mem_map_of_mem (by simp [templateFiles])

theorem eventHandler_mem : eventHandlerFile.path ∈ templatePaths :=
  List.mem_map_of_mem (by simp [templateFiles])

theorem root_of_inPlace (hname : isSnake name = true) (hplace : InPlace root cwd name) :
    root.parts ≠ [] ∨ root.parts = cwd.parts := by
  by_cases hroot : root.parts = []
  · right
    by_contra hcwd
    rw [hroot] at hcwd
    have hmem := repository_mem
    have hlen : repositoryFile.path.length = 4 := rfl
    have hcount := length_destination hname hroot (Ne.symm hcwd) (templatePath_ne_nil hmem)
      (pathFacts.shape _ hmem).2.1
    rw [hplace _ hmem, List.length_append, List.length_map, hlen] at hcount
    omega
  · exact Or.inl hroot

theorem inPlace_iff (hname : isSnake name = true) : InPlace root cwd name ↔
    (root.parts ≠ [] ∨ root.parts = cwd.parts) ∧ (∀ part ∈ cwd.parts, Kept name part) ∧
      ∀ path ∈ templatePaths,
        (moved root cwd path).map (renamePart name) = path.map (filled name) := by
  have hiff : ∀ path ∈ templatePaths, root.parts ≠ [] ∨ root.parts = cwd.parts →
      (destination root cwd name path = cwd.parts ++ path.map (filled name) ↔
        (∀ part ∈ cwd.parts, Kept name part) ∧
          (moved root cwd path).map (renamePart name) = path.map (filled name)) :=
    fun path hpath hroot => destination_eq_iff hname (templatePath_ne_nil hpath)
      (pathFacts.shape path hpath).2.1 hroot
  constructor
  · intro hplace
    have hroot := root_of_inPlace hname hplace
    have hmem := repository_mem
    exact ⟨hroot, ((hiff _ hmem hroot).mp (hplace _ hmem)).1, fun path hpath =>
      ((hiff path hpath hroot).mp (hplace path hpath)).2⟩
  · rintro ⟨hroot, hkept, hbelow⟩ path hpath
    exact (hiff path hpath hroot).mpr ⟨hkept, hbelow path hpath⟩

theorem NamesApart.inPlace (hname : isSnake name = true) (h : NamesApart root cwd name) :
    InPlace root cwd name := by
  rw [inPlace_iff hname]
  rcases h.below with hsame | ⟨hroot, hbelow⟩
  · refine ⟨Or.inr hsame, h.target, fun path hpath => ?_⟩
    rw [moved_same hsame (pathFacts.shape path hpath).2.1, map_filled_eq h.unhit hpath]
  · refine ⟨Or.inl hroot, h.target, fun path hpath => ?_⟩
    rw [hbelow path hpath, map_filled_eq h.unhit hpath]

/-- A root whose text is in no template path is put nowhere else by the replacement. -/
theorem moved_of_clear {path : List Text} (hpath : path ∈ templatePaths)
    (h : ¬ pathStr root.parts <:+: pathStr path) : moved root cwd path = path := by
  rw [moved, replace_eq_self h, pathOf_pathStr (pathFacts.shape path hpath).2.1]

theorem placeholder_of_template (hname : isSnake name = true) (hplace : InPlace root cwd name)
    (htarget : ∀ part ∈ cwd.parts, Kept name part) {template path : List Text}
    (htemplate : template ∈ templates) (hpath : path ∈ templatePaths)
    (h : root.parts ++ template <+: destination root cwd name path) :
    (name = yourBoundedContext ∨ name = yourAggregate) ∧
      (root.parts = cwd.parts ∨ root.parts ++ template <+: cwd.parts) := by
  obtain ⟨hshape, htame⟩ := pathFacts.templates_shape template htemplate
  obtain ⟨_, -, _, -, -, hrest⟩ := isTemplatePath_spec hshape
  rw [hplace path hpath] at h
  rcases below_cases hname hpath hshape h with ⟨hsame, hpre⟩ | hpre
  · have htake : (path.take template.length).map (filled name) = template := by
      rw [List.map_take]
      exact (List.prefix_iff_eq_take.mp hpre).symm
    have hpart : (path.take template.length).all isTame = true :=
      List.all_eq_true.mpr fun part hmem => tame_of_mem hpath (List.mem_of_mem_take hmem)
    have heq := pathFacts.fits_template template htemplate path hpath (agree_fits hname hpart htake)
    rw [heq] at htake
    exact ⟨placeholder_of_map htame hrest htake, Or.inl hsame⟩
  · obtain ⟨part, hmem, hsome⟩ := List.any_eq_true.mp hrest
    have hkept := htarget part (hpre.subset (List.mem_append_right _ hmem))
    refine ⟨?_, Or.inr hpre⟩
    rcases tame_cases (List.all_eq_true.mp htame part hmem) with ⟨hr, -⟩ | ⟨-, rfl⟩ | ⟨s, -, rfl, -⟩
    · simp [hr] at hsome
    · exact Or.inl (hkept yourBoundedContext (by simp) (List.infix_refl _)).symm
    · exact Or.inr (hkept yourAggregate (by simp) (List.prefix_append _ _).isInfix).symm

end Places

section Generated
variable {root cwd : Directory} {name : Text} {files after : Files}

theorem generated_content (hname : isSnake name = true) (hplace : InPlace root cwd name)
    (helse : name = yourBoundedContext ∨ name = yourAggregate → root.parts ≠ cwd.parts)
    (hadd : add root cwd name (installed root files) = some after) {file : TemplateFile}
    (hfile : file ∈ templateFiles) :
    after (destination root cwd name file.path) = some (renameContent name file.content) := by
  have hpath : file.path ∈ templatePaths := List.mem_map_of_mem hfile
  have hself : destination root cwd name file.path ≠ root.parts ++ file.path := by
    intro h
    obtain ⟨-, hsame, hfilled⟩ := destination_source hname hplace hpath hpath h
    obtain ⟨hshape, -, htame⟩ := pathFacts.shape _ hpath
    obtain ⟨_, -, _, -, -, hrest⟩ := isTemplatePath_spec hshape
    exact helse (placeholder_of_map htame hrest hfilled) hsame
  rw [generated hname hplace hadd hfile, if_neg hself]

/-- The renamed import of a template module names the file that this module becomes. -/
theorem resolves_renamed (hname : isSnake name = true) (hunhit : Unhit name)
    (hplace : InPlace root cwd name)
    (hcontent : ∀ file ∈ templateFiles, after (destination root cwd name file.path) =
      some (renameContent name file.content)) {i : Import} (hi : namesTemplate i = true) :
    Resolves root cwd name after (renameImport name i) := by
  obtain ⟨hparts, file, hfile, hpath, hnames⟩ := namesTemplate_spec hi
  refine ⟨file, hfile, _, ?_, hcontent file hfile, ?_⟩
  · have hmodule : i.1.map (renameContent name) = i.1.map (filled name) :=
      List.map_congr_left fun part hpart =>
        renameContent_modulePart hname hunhit (hparts part hpart)
    rw [hplace _ (List.mem_map_of_mem hfile), hpath, fileOf_filled]
    exact congrArg (fun m => cwd.parts ++ fileOf m) hmodule
  · intro n hn
    obtain ⟨n', hn', rfl⟩ := List.mem_map.mp hn
    rw [definitions_renameContent hname (importFacts.plain file hfile)]
    exact List.mem_map_of_mem (hnames n' hn')

theorem closed_of_contents (hname : isSnake name = true) (hunhit : Unhit name)
    (hplace : InPlace root cwd name)
    (hcontent : ∀ file ∈ templateFiles, after (destination root cwd name file.path) =
      some (renameContent name file.content)) : Closed root cwd name after where
  paths file hfile := hplace _ (List.mem_map_of_mem hfile)
  contents file hfile := by
    refine ⟨_, hcontent file hfile, fun i hi => ?_⟩
    have hclosed := importFacts.closed file hfile
    rw [imports_renameContent hname (importFacts.plain file hfile)] at hi
    obtain ⟨j, hj, rfl⟩ := List.mem_map.mp hi
    exact resolves_renamed hname hunhit hplace hcontent (List.all_eq_true.mp hclosed j hj)
  appended lines hlines i hi := by
    have hmem : ((imports lines.text).map fun i => (absolute lines.package i.1, i.2)) ∈
        appendedImports.map fun i => [renameImport name i] := by
      rw [← appended_imports hname hunhit]
      exact List.mem_map_of_mem hlines
    obtain ⟨j, hj, hlist⟩ := List.mem_map.mp hmem
    have hi' := List.mem_map_of_mem (f := fun i : Import => (absolute lines.package i.1, i.2)) hi
    rw [← hlist, List.mem_singleton] at hi'
    rw [hi']
    exact resolves_renamed hname hunhit hplace hcontent
      (List.all_eq_true.mp importFacts.appended j hj)

theorem NamesApart.add_some (hname : isSnake name = true) (h : NamesApart root cwd name)
    (files : Files) : ∃ after, add root cwd name files = some after := by
  refine ⟨_, add_eq_some_iff.mpr ⟨fun template htemplate => ?_, rfl⟩⟩
  by_contra hscan
  simp only [scansItself, Bool.not_eq_false, Bool.and_eq_true, List.any_eq_true,
    List.isPrefixOf_iff_prefix] at hscan
  obtain ⟨hdir, path, hpath, hpre, -⟩ := hscan
  have hmem : path ∈ templatePaths :=
    pathFacts.sources_perm.mem_iff.mp (List.mem_flatMap.mpr ⟨template, htemplate, hpath⟩)
  obtain ⟨hplaceholder, hwhere⟩ :=
    placeholder_of_template hname (h.inPlace hname) h.target htemplate hmem hpre
  obtain ⟨hne, hout⟩ := h.elsewhere hplaceholder
  exact hwhere.elim hne (hout template htemplate hdir)

theorem NamesApart.generates (hname : isSnake name = true) (h : NamesApart root cwd name)
    (files : Files) : Generates root cwd name files := by
  obtain ⟨after, hadd⟩ := h.add_some hname (installed root files)
  have hplace := h.inPlace hname
  refine ⟨after, hadd, closed_of_contents hname h.unhit hplace fun file hfile => ?_⟩
  exact generated_content hname hplace (fun hp => (h.elsewhere hp).1) hadd hfile

/-! What a closed bounded context says about the names. -/

theorem Closed.inPlace (h : Closed root cwd name after) : InPlace root cwd name := by
  intro path hpath
  obtain ⟨file, hfile, rfl⟩ := List.mem_map.mp hpath
  exact h.paths file hfile

theorem unhit_of_placeholder (h : name = yourBoundedContext ∨ name = yourAggregate) :
    Unhit name := by
  rcases h with rfl | rfl
  · exact Or.inl aggregate_not_infix_context
  · exact Or.inr rfl

/-- A module below a context whose name is hit itself is not where the path is. -/
theorem Closed.unhit (hname : isSnake name = true)
    (hadd : add root cwd name (installed root files) = some after)
    (h : Closed root cwd name after) : Unhit name := by
  by_contra hhit
  have hplace := h.inPlace
  have hcontent : ∀ file ∈ templateFiles, after (destination root cwd name file.path) =
      some (renameContent name file.content) := fun file hfile =>
    generated_content hname hplace (fun hp => absurd (unhit_of_placeholder hp) hhit) hadd hfile
  -- the import of the interfaces leads to a module three directories deep
  obtain ⟨file, hfile, i, hi, hmodule⟩ := importFacts.interfaces
  obtain ⟨content, hafter, hresolves⟩ := h.contents file hfile
  rw [hcontent file hfile, Option.some.injEq] at hafter
  obtain ⟨other, hother, -, hpath, -, -⟩ := hresolves (renameImport name i) (by
    rw [← hafter, imports_renameContent hname (importFacts.plain file hfile)]
    exact List.mem_map_of_mem hi)
  have hmem : other.path ∈ templatePaths := List.mem_map_of_mem hother
  rw [hplace _ hmem, List.append_cancel_left_eq, renameImport, hmodule] at hpath
  -- so a template path is filled with the renamed context, which no part of one can be
  have hthird : (other.path[2]?).map (filled name) = some (renameContent name yourBoundedContext) := by
    rw [← List.getElem?_map, ← hpath]
    rfl
  have hhead : renameContent name yourBoundedContext = replace yourAggregate name name := by
    have hfirst := replace_append name context_ne_nil []
    rw [List.append_nil] at hfirst
    rw [renameContent_part hname (not_mem_snake snake_context (by decide))
      (not_mem_snake snake_context (by decide)), renamePart, hfirst]
    exact congrArg (replace yourAggregate name) (List.append_nil name)
  obtain ⟨part, hpart, hfilled⟩ := Option.map_eq_some_iff.mp hthird
  have htame := tame_of_mem hmem (List.mem_of_getElem? hpart)
  rw [hhead] at hfilled
  rcases pathFacts.third_part _ hmem part hpart with rfl | hshort
  · have hrest : rest yourBoundedContext = some [] := if_pos rfl
    rw [filled_eq name htame, hrest] at hfilled
    exact hhit (replace_aggregate_name.mp (by simpa using hfilled.symm))
  · rw [filled_short hshort] at hfilled
    have hin : yourAggregate <:+: name := by
      by_contra hno
      exact hhit (Or.inl hno)
    have hlong : name <:+: replace yourAggregate name name := new_infix_replace aggregate_ne_nil hin
    have hle := hlong.length_le
    have hle' := hin.length_le
    rw [← hfilled] at hle
    omega

theorem eventHandler_module : fileOf (absolute (parts ["app", "adapter", "event_handler"])
    [[], yourAggregate ++ "_event_handler".toList]) = eventHandlerFile.path := by
  unfold eventHandlerFile yourAggregate
  simp [fileOf, absolute, file, parts]

/-- Named like the second placeholder, the template's event handler is emptied. -/
theorem Closed.not_onto_itself (hname : isSnake name = true) (hroot : root.parts = cwd.parts)
    (hadd : add root cwd name (installed root files) = some after)
    (h : Closed root cwd name after) : name ≠ yourAggregate := by
  rintro rfl
  have hplace := h.inPlace
  obtain ⟨file, hfile, content, hpath, hafter, hdefined⟩ :=
    h.appended ⟨parts ["app", "adapter", "event_handler"], eventHandlerLines yourAggregate⟩
      (List.mem_cons_of_mem _ List.mem_cons_self) ([[], yourAggregate ++ "_event_handler".toList], _)
      (by rw [imports_eventHandlerLines hname]; exact List.mem_singleton_self _)
  have hmem : file.path ∈ templatePaths := List.mem_map_of_mem hfile
  have hfilled : file.path.map (filled yourAggregate) = eventHandlerFile.path := by
    rw [hplace _ hmem, List.append_cancel_left_eq, eventHandler_module] at hpath
    exact hpath.symm
  have hsame : file.path = eventHandlerFile.path :=
    pathFacts.fits_path _ hmem _ eventHandler_mem
      (agree_fits hname (pathFacts.shape _ hmem).2.2 hfilled)
  have hself : destination root cwd yourAggregate file.path = root.parts ++ file.path := by
    rw [hplace _ hmem, hfilled, hsame, hroot]
  rw [generated hname hplace hadd hfile, if_pos hself, Option.some.injEq] at hafter
  have hnone := hdefined (snakeToPascalCase yourAggregate ++ "EventHandler".toList) (by simp)
  rw [← hafter] at hnone
  have hempty : definitions (renameContent yourAggregate []) = [] := rfl
  rw [hempty] at hnone
  exact absurd hnone List.not_mem_nil

theorem Closed.elsewhere (hname : isSnake name = true)
    (hadd : add root cwd name (installed root files) = some after)
    (h : Closed root cwd name after)
    (hp : name = yourBoundedContext ∨ name = yourAggregate) : root.parts ≠ cwd.parts ∧
      ∀ template ∈ templates, isDir template = true → ¬ root.parts ++ template <+: cwd.parts := by
  have hplace := h.inPlace
  have hscan := (add_eq_some_iff.mp hadd).1
  -- a scan that met a copy would not end, so what it meets are template files
  have hno : ∀ template ∈ templates, isDir template = true → ∀ path ∈ sources template,
      root.parts ++ template <+: destination root cwd name path →
        destination root cwd name path = root.parts ++ path := by
    intro template htemplate hdir path hpath hpre
    have hfalse := hscan template htemplate
    simp only [scansItself, hdir, Bool.true_and, List.any_eq_false, Bool.and_eq_true,
      List.isPrefixOf_iff_prefix, bne_iff_ne, not_and, not_not] at hfalse
    exact hfalse path hpath hpre
  have hsource : ∀ template ∈ templates, ∀ path ∈ sources template, path ∈ templatePaths :=
    fun template htemplate path hpath =>
      pathFacts.sources_perm.mem_iff.mp (List.mem_flatMap.mpr ⟨template, htemplate, hpath⟩)
  constructor
  · intro hroot
    rcases hp with rfl | rfl
    · obtain ⟨template, htemplate, hdir, path, hpath, hpre, hne⟩ := pathFacts.context_scanned
      have hmem := hsource template htemplate path hpath
      have hself := hno template htemplate hdir path hpath (by
        rw [hplace path hmem, hroot, List.prefix_append_right_inj]
        exact hpre)
      exact hne (destination_source hname hplace hmem hmem hself).2.2
    · exact h.not_onto_itself hname hroot hadd rfl
  · intro template htemplate hdir hin
    -- the first file of such a template would be put onto itself, too deep for the root
    obtain ⟨path, hpath⟩ := List.exists_mem_of_ne_nil _ (pathFacts.sources_ne_nil template htemplate)
    have hmem := hsource template htemplate path hpath
    have hself := hno template htemplate hdir path hpath (by
      rw [hplace path hmem]
      exact hin.trans (List.prefix_append _ _))
    have hroot := (destination_source hname hplace hmem hmem hself).2.1
    have hlen := hin.length_le
    obtain ⟨_, -, _, hshape, -⟩ := isTemplatePath_spec (pathFacts.templates_shape template htemplate).1
    rw [hroot, List.length_append, hshape, List.length_cons, List.length_cons] at hlen
    omega

/-- The generated bounded context is closed under its own names exactly when no replacement
    hits anything but the placeholders of the template. -/
theorem generates_iff (root cwd : Directory) (name : SnakeName) (files : Files) :
    Generates root cwd name.text files ↔ NamesApart root cwd name.text := by
  constructor
  · rintro ⟨after, hadd, hclosed⟩
    have hname := name.snake
    have hunhit := hclosed.unhit hname hadd
    obtain ⟨hroot, htarget, hbelow⟩ := (inPlace_iff hname).mp hclosed.inPlace
    refine ⟨hunhit, htarget, ?_, hclosed.elsewhere hname hadd⟩
    rcases hroot with hroot | hsame
    · refine Or.inr ⟨hroot, fun path hpath => ?_⟩
      rw [hbelow path hpath, map_filled_eq hunhit hpath]
    · exact Or.inl hsame
  · exact fun h => h.generates name.snake files

end Generated

/-! ## A root that is named again below -/

def appDirectory : Directory := ⟨parts ["app"], by simp [parts, isPart]⟩

def shopDirectory : Directory := ⟨parts ["srv", "shop"], by simp [parts, isPart]⟩

def order : SnakeName := ⟨"order".toList, by simp [isSnake]⟩

/-- With the template repository at `/app`, the `app` of every template path is taken for the
    template root too: `/app/app/core/…` becomes `/srv/shop/srv/shop/core/…`. -/
theorem root_taken_twice : ¬ Generates appDirectory shopDirectory order.text fun _ => none := by
  rintro ⟨after, -, hclosed⟩
  have hpath := hclosed.paths repositoryFile (by simp [templateFiles])
  revert hpath
  decide +kernel

/-- The same call from a template repository at `/templates`. -/
example : Generates ⟨parts ["templates"], by simp [parts, isPart]⟩ shopDirectory order.text
    fun _ => none := by
  have hclear : ∀ path ∈ templatePaths, ¬ pathStr (parts ["templates"]) <:+: pathStr path := by
    decide +kernel
  have hlong : ∀ mark ∈ [yourBoundedContext, yourAggregate], 5 < mark.length := by
    simp [length_context, length_aggregate]
  have hshort : ∀ part ∈ order.text :: shopDirectory.parts, part.length ≤ 5 := by
    simp [order, shopDirectory, parts]
  have hno : ∀ mark ∈ [yourBoundedContext, yourAggregate],
      ∀ part ∈ order.text :: shopDirectory.parts, ¬ mark <:+: part := by
    intro mark hmark part hpart hin
    have := hin.length_le
    have := hlong mark hmark
    have := hshort part hpart
    omega
  refine NamesApart.generates order.snake ⟨?_, ?_, Or.inr ⟨by simp [parts], ?_⟩, ?_⟩ _
  · exact Or.inl (hno _ (by simp) _ (by simp))
  · exact fun part hpart mark hmark hin => absurd hin (hno mark hmark part (by simp [hpart]))
  · exact fun path hpath => congrArg _ (moved_of_clear hpath (hclear path hpath))
  · rintro (h | h)
    · exact absurd (h ▸ List.infix_refl _) (hno yourBoundedContext (by simp) order.text (by simp))
    · exact absurd (h ▸ List.infix_refl _) (hno yourAggregate (by simp) order.text (by simp))

end DddService.CopyTool
