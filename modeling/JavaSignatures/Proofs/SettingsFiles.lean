import JavaSignatures.Files.Tree
import JavaSignatures.Settings

set_option autoImplicit false

/-!
# File systems apart from their settings files

Two file systems are the same apart from settings files if every place shows the same in both, where
a settings file counts as nothing (`FileSystem.SameApartFromSettings`).  A path never leads through
a settings file, since that is no directory.  So a path that leads to anything else leads to the
same place in both, and what is read there is the same (`SameApartFromSettings.toOption_read`).
-/

namespace JavaSignatures

/-- What can be seen at the end of a list of names. -/
inductive Sight where
  | nothing
  | directory
  | file (content : ByteArray)

/-- What is seen of the result of a walk. -/
def Sight.of : Except FileError FileTree → Sight
  | .error _ => nothing
  | .ok (.directory _) => directory
  | .ok (.file content) => file content

namespace FileTree

theorem at?_concat (tree : FileTree) (names : List String) (name : String) :
    tree.at? (names ++ [name]) = tree.at? names >>= child? name := by
  induction names generalizing tree with
  | nil => cases h : tree.child? name <;> simp [at?, h, bind, Except.bind]
  | cons first rest ih =>
    cases h : tree.child? first with
    | error error => simp [at?, h, bind, Except.bind]
    | ok child => simp [at?, h, ih]

theorem sight_cons (entries : List (String × FileTree)) (name : String) (names : List String) :
    Sight.of ((directory entries).at? (name :: names)) =
      if 255 < name.utf8ByteSize then .nothing
      else
        match Entries.get? name entries with
        | some child => Sight.of (child.at? names)
        | none => .nothing := by
  rw [at?, child?]
  by_cases hlong : 255 < name.utf8ByteSize
  · simp [hlong, Sight.of]
  · cases Entries.get? name entries <;> simp [hlong, Sight.of]

/-- Behind a file nothing is seen. -/
theorem sight_file_cons (content : ByteArray) (name : String) (names : List String) :
    Sight.of ((file content).at? (name :: names)) = .nothing := rfl

/-- Putting a file into a directory changes what is seen in its place and nothing else. -/
theorem sight_put {tree : FileTree} {names : List String} {name : String}
    (hdirectory : Sight.of (tree.at? names) = .directory)
    (hfree : Sight.of (tree.at? (names ++ [name])) ≠ .directory) (hname : name.utf8ByteSize ≤ 255)
    (content : ByteArray) (other : List String) :
    Sight.of ((tree.put content (names ++ [name])).at? other) =
      if other = names ++ [name] then .file content else Sight.of (tree.at? other) := by
  induction names generalizing tree other with
  | nil =>
    cases tree with
    | file old => exact absurd hdirectory (by simp [at?, Sight.of])
    | directory entries =>
      rw [List.nil_append] at hfree ⊢
      rw [put]
      cases other with
      | nil => rfl
      | cons first rest =>
        rw [sight_cons, sight_cons, Entries.get?_upsert]
        by_cases hfirst : first = name
        · subst hfirst
          have hshort : ¬255 < first.utf8ByteSize := by omega
          rw [sight_cons, if_neg hshort] at hfree
          simp only [if_neg hshort, if_pos]
          cases rest with
          | nil =>
            rw [if_pos rfl]
            rfl
          | cons next rest =>
            -- nothing was seen behind the place, since no directory stood there
            cases hchild : Entries.get? first entries with
            | none => simp [put, sight_file_cons]
            | some child =>
              cases child with
              | file old => simp [put, sight_file_cons]
              | directory inner => simp [hchild, at?, Sight.of] at hfree
        · simp [hfirst]
  | cons first names ih =>
    cases tree with
    | file old => exact absurd hdirectory (by simp [sight_file_cons])
    | directory entries =>
      rw [List.cons_append, sight_cons] at hfree
      rw [sight_cons] at hdirectory
      rw [List.cons_append, put]
      split at hdirectory
      · exact absurd hdirectory (by simp)
      · next hlong =>
        rw [if_neg hlong] at hfree
        cases hchild : Entries.get? first entries with
        | none => simp [hchild] at hdirectory
        | some child =>
          rw [hchild] at hdirectory hfree
          cases other with
          | nil => rfl
          | cons other rest =>
            rw [sight_cons, sight_cons, Entries.get?_upsert]
            by_cases hother : other = first
            · subst hother
              rw [if_neg hlong, if_neg hlong, if_pos rfl, hchild]
              simpa using ih hdirectory hfree rest
            · simp [hother]

end FileTree

namespace FileSystem

/-- A settings file stands at the place. -/
def HasSettingsAt (system : FileSystem) (place : Place) : Prop :=
  place.getLast? = some Settings.fileName ∧
    ∃ content, system.top.at? place = .ok (.file content)

/-- The path leads to a settings file. -/
def LeadsToSettings (system : FileSystem) (path : String) : Prop :=
  ∃ place, system.locate path = .ok place ∧ system.HasSettingsAt place

/-- What is seen at a place when settings files are left out. -/
def sight (system : FileSystem) (place : Place) : Sight :=
  match Sight.of (system.top.at? place) with
  | .file content =>
    if place.getLast? = some Settings.fileName then .nothing else .file content
  | other => other

/-- The file systems differ at most in which settings files there are and what these say. -/
structure SameApartFromSettings (first second : FileSystem) : Prop where
  workingDirectory : first.workingDirectory = second.workingDirectory
  sight : ∀ place, first.sight place = second.sight place

section Sight

variable {system : FileSystem} {place : Place}

theorem sight_eq_directory_iff :
    system.sight place = .directory ↔
      ∃ entries, system.top.at? place = .ok (.directory entries) := by
  unfold sight
  cases system.top.at? place with
  | error error => simp [Sight.of]
  | ok tree =>
    cases tree with
    | directory entries => simp [Sight.of]
    | file content => simp only [Sight.of]; split <;> simp

theorem sight_eq_file_iff {content : ByteArray} :
    system.sight place = .file content ↔
      system.top.at? place = .ok (.file content) ∧ place.getLast? ≠ some Settings.fileName := by
  unfold sight
  cases system.top.at? place with
  | error error => simp [Sight.of]
  | ok tree =>
    cases tree with
    | directory entries => simp [Sight.of]
    | file found => simp only [Sight.of]; split <;> simp_all

/-- Whatever stands at a place is seen there, settings files apart. -/
theorem sight_eq_nothing_iff (hplace : ¬system.HasSettingsAt place) :
    system.sight place = .nothing ↔ ∀ tree, system.top.at? place ≠ .ok tree := by
  unfold sight
  cases htree : system.top.at? place with
  | error error => simp [Sight.of]
  | ok tree =>
    cases tree with
    | directory entries => simp [Sight.of]
    | file content =>
      have hname : place.getLast? ≠ some Settings.fileName := fun h => hplace ⟨h, content, htree⟩
      simp [Sight.of, hname]

theorem step_of_hasSettingsAt (h : system.HasSettingsAt place) (part : String) :
    system.step place part = .error .notDirectory := by
  obtain ⟨-, content, htree⟩ := h
  simp [step, htree]

/-- One step of a walk: it starts from a directory, and ends there, one directory up or at something
in it. -/
theorem step_eq_ok_iff {part : String} {next : Place} :
    system.step place part = .ok next ↔
      system.sight place = .directory ∧
        if Path.isIdle part then next = place
        else if part = ".." then next = place.dropLast
        else next = place ++ [part] ∧ ∃ tree, system.top.at? next = .ok tree := by
  rw [sight_eq_directory_iff]
  unfold step
  cases htree : system.top.at? place with
  | error error => simp
  | ok tree =>
    cases tree with
    | file content => simp
    | directory entries =>
      simp only [Except.ok.injEq, FileTree.directory.injEq, exists_eq', true_and, beq_iff_eq]
      split
      · simp [eq_comm]
      · split
        · simp [eq_comm]
        · have hnext := FileTree.at?_concat system.top place part
          rw [htree] at hnext
          cases hchild : (FileTree.directory entries).child? part with
          | error error =>
            have hgone : system.top.at? (place ++ [part]) = .error error := hnext.trans hchild
            simp only [Except.map, reduceCtorEq, false_iff]
            rintro ⟨rfl, tree, hfound⟩
            exact absurd (hgone.symm.trans hfound) (by simp)
          | ok child =>
            have hfound : system.top.at? (place ++ [part]) = .ok child := hnext.trans hchild
            simp only [Except.map, Except.ok.injEq]
            exact ⟨fun h => ⟨h.symm, child, h ▸ hfound⟩, fun h => h.1.symm⟩

/-- Where a usable path leads is where the walk along its parts ends. -/
theorem locate_eq_ok_iff {path : String} :
    system.locate path = .ok place ↔
      (path.toList.contains '\x00' = false ∧ path.isEmpty = false ∧ path.utf8ByteSize < 4096) ∧
        (Path.parts path).foldlM system.step
          (if Path.isAbsolute path then [] else system.workingDirectory) = .ok place := by
  unfold locate
  split
  · next hnul => simp only [hnul, reduceCtorEq, false_and]
  · next hnul =>
    split
    · next hempty => simp only [hempty, reduceCtorEq, false_and, and_false]
    · next hempty =>
      split
      · next hlong => simp only [Nat.not_lt.mpr hlong, reduceCtorEq, and_false, false_and]
      · next hlong => simp only [hnul, hempty, Nat.not_le.mp hlong, and_self, true_and]

theorem read_eq_ok_iff {path : String} {content : ByteArray} :
    system.files.read path = .ok content ↔
      ∃ place, system.locate path = .ok place ∧ system.top.at? place = .ok (.file content) := by
  have hread : system.files.read path =
      (system.locate path >>= fun place => system.top.at? place) >>= FileTree.content? := rfl
  rw [hread]
  cases system.locate path with
  | error error => simp [bind, Except.bind]
  | ok place =>
    cases htree : system.top.at? place with
    | error error => simp [bind, Except.bind, htree]
    | ok tree => cases tree <;> simp [bind, Except.bind, htree, FileTree.content?]

theorem not_leadsToSettings_of_locate {path : String} (hlocate : system.locate path = .ok place)
    (hname : place.getLast? ≠ some Settings.fileName) : ¬system.LeadsToSettings path := by
  rintro ⟨found, hfound, hsettings⟩
  obtain rfl := Except.ok.inj (hlocate.symm.trans hfound)
  exact hname hsettings.1

end Sight

/-! ## Walks -/

/-- A file system stays the same apart from settings files if a settings file is put into one of its
directories. -/
theorem sameApartFromSettings_put {system : FileSystem} {directory : Place}
    (hdirectory : Sight.of (system.top.at? directory) = .directory)
    (hfree : Sight.of (system.top.at? (directory ++ [Settings.fileName])) ≠ .directory)
    (content : ByteArray) :
    SameApartFromSettings system (system.put (directory ++ [Settings.fileName]) content) := by
  refine ⟨rfl, fun place => ?_⟩
  have hname : Settings.fileName.utf8ByteSize ≤ 255 := by decide
  unfold sight put
  dsimp only
  rw [FileTree.sight_put hdirectory hfree hname]
  by_cases hplace : place = directory ++ [Settings.fileName]
  · subst hplace
    rw [if_pos rfl, List.getLast?_concat]
    cases hsight : Sight.of (system.top.at? (directory ++ [Settings.fileName])) with
    | nothing => rfl
    | directory => exact absurd hsight hfree
    | file old => rfl
  · rw [if_neg hplace]

namespace SameApartFromSettings

variable {first second : FileSystem}

theorem symm (h : SameApartFromSettings first second) : SameApartFromSettings second first :=
  ⟨h.workingDirectory.symm, fun place => (h.sight place).symm⟩

/-- What stands at a place in one file system and is no settings file has a counterpart in the other
one. -/
theorem exists_at? (h : SameApartFromSettings first second) {place : Place}
    (hplace : ¬first.HasSettingsAt place) {tree : FileTree}
    (htree : first.top.at? place = .ok tree) : ∃ tree, second.top.at? place = .ok tree := by
  have hfirst : first.sight place ≠ .nothing :=
    fun h => (sight_eq_nothing_iff hplace).mp h tree htree
  rw [h.sight] at hfirst
  cases hsecond : second.top.at? place with
  | error error => exact absurd (by simp [FileSystem.sight, Sight.of, hsecond]) hfirst
  | ok tree => exact ⟨tree, rfl⟩

/-- One step that does not end at a settings file can be made in both. -/
theorem step (h : SameApartFromSettings first second) {place next : Place} {part : String}
    (hstep : first.step place part = .ok next) (hnext : ¬first.HasSettingsAt next) :
    second.step place part = .ok next := by
  rw [step_eq_ok_iff] at hstep ⊢
  obtain ⟨hplace, hstep⟩ := hstep
  refine ⟨(h.sight place).symm.trans hplace, ?_⟩
  split at hstep
  · next hidle => rwa [if_pos hidle]
  · next hidle =>
    rw [if_neg hidle]
    split at hstep
    · next hup => rwa [if_pos hup]
    · next hup =>
      obtain ⟨hname, tree, htree⟩ := hstep
      rw [if_neg hup]
      exact ⟨hname, h.exists_at? hnext htree⟩

/-- A walk that does not end at a settings file does not pass through one either, so that it can be
made in both. -/
theorem foldlM_step (h : SameApartFromSettings first second) {parts : List String}
    {start place : Place} (hwalk : parts.foldlM first.step start = .ok place)
    (hplace : ¬first.HasSettingsAt place) : parts.foldlM second.step start = .ok place := by
  induction parts generalizing start with
  | nil => exact hwalk
  | cons part rest ih =>
    rw [List.foldlM_cons] at hwalk ⊢
    cases hstep : first.step start part with
    | error error => simp [hstep, bind, Except.bind] at hwalk
    | ok next =>
      rw [hstep] at hwalk
      have hnext : ¬first.HasSettingsAt next := by
        intro hnext
        cases rest with
        | nil =>
          obtain rfl : next = place := by simpa [pure, Except.pure, bind, Except.bind] using hwalk
          exact hplace hnext
        | cons other rest =>
          have hstuck := step_of_hasSettingsAt hnext other
          simp [hstuck, bind, Except.bind] at hwalk
      rw [h.step hstep hnext]
      exact ih hwalk

theorem locate (h : SameApartFromSettings first second) {path : String} {place : Place}
    (hlocate : first.locate path = .ok place) (hplace : ¬first.HasSettingsAt place) :
    second.locate path = .ok place := by
  rw [locate_eq_ok_iff] at hlocate ⊢
  obtain ⟨husable, hwalk⟩ := hlocate
  rw [← h.workingDirectory]
  exact ⟨husable, h.foldlM_step hwalk hplace⟩

/-! ## Reading -/

theorem read (h : SameApartFromSettings first second) {path : String} {content : ByteArray}
    (hread : first.files.read path = .ok content) (hpath : ¬first.LeadsToSettings path) :
    second.files.read path = .ok content := by
  obtain ⟨place, hlocate, htree⟩ := read_eq_ok_iff.mp hread
  have hplace : ¬first.HasSettingsAt place := fun hplace => hpath ⟨place, hlocate, hplace⟩
  have hfile : first.sight place = .file content :=
    sight_eq_file_iff.mpr ⟨htree, fun hname => hplace ⟨hname, content, htree⟩⟩
  rw [h.sight] at hfile
  exact read_eq_ok_iff.mpr ⟨place, h.locate hlocate hplace, (sight_eq_file_iff.mp hfile).1⟩

/-- A path that leads to no settings file gives the same content in both, or none in either. -/
theorem toOption_read (h : SameApartFromSettings first second) {path : String}
    (hfirst : ¬first.LeadsToSettings path) (hsecond : ¬second.LeadsToSettings path) :
    (first.files.read path).toOption = (second.files.read path).toOption := by
  cases hread : first.files.read path with
  | ok content => rw [h.read hread hfirst]
  | error error =>
    cases hother : second.files.read path with
    | ok content => exact absurd (hread.symm.trans (h.symm.read hother hsecond)) (by simp)
    | error other => rfl

end SameApartFromSettings

end FileSystem

end JavaSignatures
