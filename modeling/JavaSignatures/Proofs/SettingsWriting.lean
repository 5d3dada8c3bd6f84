import JavaSignatures.Program
import JavaSignatures.Proofs.SettingsIsolation
import Mathlib.Data.List.Induction

set_option autoImplicit false

/-!
# Writing settings changes no outcome

The settings file that `WriteSettings` puts into a directory says what holds without it.  A walk
that does not end at a new file can be made without that file just as well
(`FileSystem.locate_put_iff`), so the file can matter to a command only as the settings next to a
source file; and there it decides on the same rendering and the same format as no file at all
(`Program.run_writeSettings`).
-/

namespace JavaSignatures

theorem Except.bind_eq_ok_iff {ε α β : Type} {result : Except ε α} {next : α → Except ε β}
    {value : β} :
    (result >>= next) = .ok value ↔ ∃ first, result = .ok first ∧ next first = .ok value := by
  cases result <;> simp [bind, Except.bind]

theorem Except.toOption_eq_some_iff {ε α : Type} {result : Except ε α} {value : α} :
    result.toOption = some value ↔ result = .ok value := by
  cases result <;> simp [Except.toOption]

namespace Path

/-- The name at the end of a path. -/
def lastName? (path : String) : Option String := (names path).getLast?

end Path

namespace Sight

variable {found : Except FileError FileTree}

theorem of_eq_nothing_iff : Sight.of found = .nothing ↔ ∀ tree, found ≠ .ok tree := by
  cases found with
  | error error => simp [Sight.of]
  | ok tree => cases tree <;> simp [Sight.of]

theorem of_eq_directory_iff :
    Sight.of found = .directory ↔ ∃ entries, found = .ok (.directory entries) := by
  cases found with
  | error error => simp [Sight.of]
  | ok tree => cases tree <;> simp [Sight.of]

theorem of_eq_file_iff {content : ByteArray} :
    Sight.of found = .file content ↔ found = .ok (.file content) := by
  cases found with
  | error error => simp [Sight.of]
  | ok tree => cases tree <;> simp [Sight.of]

end Sight

namespace FileSystem

/-! ## The name at the end of a path -/

section Walk

variable {system : FileSystem} {place : Place}

/-- One step of a walk in terms of what is seen. -/
theorem step_eq_ok_iff_sight {part : String} {next : Place} :
    system.step place part = .ok next ↔
      Sight.of (system.top.at? place) = .directory ∧
        if Path.isIdle part then next = place
        else if part = ".." then next = place.dropLast
        else next = place ++ [part] ∧ Sight.of (system.top.at? next) ≠ .nothing := by
  rw [step_eq_ok_iff, sight_eq_directory_iff, Sight.of_eq_directory_iff, ne_eq,
    Sight.of_eq_nothing_iff]
  simp only [ne_eq, not_forall, not_not]

/-- What lies above a directory is a directory. -/
theorem sight_dropLast (h : Sight.of (system.top.at? place) = .directory) :
    Sight.of (system.top.at? place.dropLast) = .directory := by
  cases place using List.reverseRecOn with
  | nil => exact h
  | append_singleton names name =>
    rw [List.dropLast_concat]
    obtain ⟨entries, hplace⟩ := Sight.of_eq_directory_iff.mp h
    rw [FileTree.at?_concat, Except.bind_eq_ok_iff] at hplace
    obtain ⟨above, habove, hchild⟩ := hplace
    cases above with
    | file content => exact absurd hchild (by simp [FileTree.child?])
    | directory entries => rw [habove, Sight.of]

/-- A path that leads to a file ends with the name of the file. -/
theorem lastName?_of_locate {path : String} {content : ByteArray}
    (hlocate : system.locate path = .ok place)
    (hfile : system.top.at? place = .ok (.file content)) :
    Path.lastName? path = place.getLast? := by
  obtain ⟨-, hwalk⟩ := locate_eq_ok_iff.mp hlocate
  have hsight : Sight.of (system.top.at? place) ≠ .directory := by simp [hfile, Sight.of]
  rcases List.eq_nil_or_concat (Path.parts path) with hparts | ⟨start, part, hparts⟩
  · have hne := List.splitOn_ne_nil '/' path.toList
    exact absurd (List.map_eq_nil_iff.mp hparts) hne
  · rw [List.concat_eq_append] at hparts
    rw [hparts, List.foldlM_append, Except.bind_eq_ok_iff] at hwalk
    obtain ⟨above, -, hlast⟩ := hwalk
    have hstep : system.step above part = .ok place := by simpa using hlast
    obtain ⟨habove, hstep⟩ := step_eq_ok_iff_sight.mp hstep
    -- the last step has gone to something in a directory: other steps end at a directory
    split at hstep
    · exact absurd (hstep ▸ habove) hsight
    · next hidle =>
      split at hstep
      · exact absurd (hstep ▸ sight_dropLast habove) hsight
      · have hkept : [part].filter (fun part => !Path.isIdle part) = [part] := by simp [hidle]
        rw [hstep.1, Path.lastName?, Path.names, hparts, List.filter_append, hkept,
          List.getLast?_concat, List.getLast?_concat]

end Walk

/-! ## A new file in a directory -/

section Put

variable {system : FileSystem} {directory : Place} {name : String} {content : ByteArray}

/-- The place is free for a new file with the name in the directory. -/
structure IsFreeIn (system : FileSystem) (directory : Place) (name : String) : Prop where
  isDirectory : Sight.of (system.top.at? directory) = .directory
  isFree : Sight.of (system.top.at? (directory ++ [name])) = .nothing
  isShort : name.utf8ByteSize ≤ 255

theorem IsFreeIn.sight_put (h : system.IsFreeIn directory name) (place : Place) :
    Sight.of ((system.put (directory ++ [name]) content).top.at? place) =
      if place = directory ++ [name] then .file content
      else Sight.of (system.top.at? place) :=
  FileTree.sight_put h.isDirectory (by simp [h.isFree]) h.isShort content place

/-- A step that ends elsewhere can be made with a new file just if it can be made without. -/
theorem IsFreeIn.step_put_iff (h : system.IsFreeIn directory name) {place next : Place}
    {part : String} (hnext : next ≠ directory ++ [name]) :
    (system.put (directory ++ [name]) content).step place part = .ok next ↔
      system.step place part = .ok next := by
  rw [step_eq_ok_iff_sight, step_eq_ok_iff_sight, h.sight_put, h.sight_put, if_neg hnext]
  by_cases hplace : place = directory ++ [name]
  · simp [hplace, h.isFree]
  · rw [if_neg hplace]

/-- From a new file no step can be made, with or without it. -/
theorem IsFreeIn.step_ne_ok (h : system.IsFreeIn directory name) (content : ByteArray)
    (part : String) (next : Place) :
    (system.put (directory ++ [name]) content).step (directory ++ [name]) part ≠ .ok next ∧
      system.step (directory ++ [name]) part ≠ .ok next := by
  rw [ne_eq, ne_eq, step_eq_ok_iff_sight, step_eq_ok_iff_sight, h.sight_put, if_pos rfl, h.isFree]
  simp

/-- A walk that ends elsewhere does not pass through a new file. -/
theorem IsFreeIn.foldlM_step_put_iff (h : system.IsFreeIn directory name) {parts : List String}
    {start place : Place} (hplace : place ≠ directory ++ [name]) :
    parts.foldlM (system.put (directory ++ [name]) content).step start = .ok place ↔
      parts.foldlM system.step start = .ok place := by
  induction parts generalizing start with
  | nil => rfl
  | cons part rest ih =>
    rw [List.foldlM_cons, List.foldlM_cons, Except.bind_eq_ok_iff, Except.bind_eq_ok_iff]
    refine exists_congr fun next => ?_
    by_cases hnext : next = directory ++ [name]
    · subst hnext
      cases rest with
      | nil =>
        have hne : directory ++ [name] ≠ place := Ne.symm hplace
        simp [pure, Except.pure, hne]
      | cons other rest =>
        rw [List.foldlM_cons, List.foldlM_cons, Except.bind_eq_ok_iff, Except.bind_eq_ok_iff]
        simp [(h.step_ne_ok content other _).1, (h.step_ne_ok content other _).2]
    · rw [h.step_put_iff hnext, ih]

/-- A path that leads elsewhere does so with a new file just if it does without. -/
theorem IsFreeIn.locate_put_iff (h : system.IsFreeIn directory name) {path : String}
    {place : Place} (hplace : place ≠ directory ++ [name]) :
    (system.put (directory ++ [name]) content).locate path = .ok place ↔
      system.locate path = .ok place := by
  rw [locate_eq_ok_iff, locate_eq_ok_iff, h.foldlM_step_put_iff hplace]
  rfl

/-- What stands in the place of a new file. -/
theorem IsFreeIn.at?_put (h : system.IsFreeIn directory name) :
    (system.put (directory ++ [name]) content).top.at? (directory ++ [name]) =
      .ok (.file content) := by
  rw [← Sight.of_eq_file_iff, h.sight_put, if_pos rfl]

/-- A path that leads to a new file ends with its name. -/
theorem IsFreeIn.lastName?_of_locate_put (h : system.IsFreeIn directory name) {path : String}
    (hpath : (system.put (directory ++ [name]) content).locate path = .ok (directory ++ [name])) :
    Path.lastName? path = some name := by
  rw [lastName?_of_locate hpath h.at?_put, List.getLast?_concat]

/-- A path that leads to a new file reads its content. -/
theorem IsFreeIn.read_put (h : system.IsFreeIn directory name) {path : String}
    (hpath : (system.put (directory ++ [name]) content).locate path = .ok (directory ++ [name])) :
    (system.put (directory ++ [name]) content).files.read path = .ok content :=
  read_eq_ok_iff.mpr ⟨_, hpath, h.at?_put⟩

/-- Along another path the same is read with a new file and without. -/
theorem IsFreeIn.read_put_iff (h : system.IsFreeIn directory name) {path : String}
    (hpath : (system.put (directory ++ [name]) content).locate path ≠ .ok (directory ++ [name]))
    {found : ByteArray} :
    (system.put (directory ++ [name]) content).files.read path = .ok found ↔
      system.files.read path = .ok found := by
  rw [read_eq_ok_iff, read_eq_ok_iff]
  refine exists_congr fun place => ?_
  by_cases hplace : place = directory ++ [name]
  · subst hplace
    have hgone := Sight.of_eq_nothing_iff.mp h.isFree
    simp [hpath, hgone]
  · rw [h.locate_put_iff hplace, ← Sight.of_eq_file_iff, ← Sight.of_eq_file_iff, h.sight_put,
      if_neg hplace]

theorem IsFreeIn.toOption_read_put (h : system.IsFreeIn directory name) {path : String}
    (hpath :
      (system.put (directory ++ [name]) content).locate path ≠ .ok (directory ++ [name])) :
    ((system.put (directory ++ [name]) content).files.read path).toOption =
      (system.files.read path).toOption := by
  refine Option.ext fun found => ?_
  rw [Except.toOption_eq_some_iff, Except.toOption_eq_some_iff, h.read_put_iff hpath]

/-- Without the new file, nothing is read along a path that leads to it. -/
theorem IsFreeIn.read_ne_ok (h : system.IsFreeIn directory name) {path : String}
    (hpath : (system.put (directory ++ [name]) content).locate path = .ok (directory ++ [name]))
    (found : ByteArray) : system.files.read path ≠ .ok found := by
  intro hread
  obtain ⟨place, hlocate, htree⟩ := read_eq_ok_iff.mp hread
  have hplace : place ≠ directory ++ [name] := by
    rintro rfl
    exact Sight.of_eq_nothing_iff.mp h.isFree _ htree
  have hboth : (system.put (directory ++ [name]) content).locate path = .ok place :=
    (h.locate_put_iff hplace).mpr hlocate
  exact hplace (Except.ok.inj (hboth.symm.trans hpath))

end Put

end FileSystem

/-! ## What the written settings decide -/

namespace Command

theorem WriteSettings.ofText?_sampleText :
    Settings.ofText? sampleText = some { format := some Report.Format.listing.name } := by
  unfold Settings.ofText? Toml.read? Toml.lines?
  obtain ⟨text, htext⟩ : ∃ text, sampleText.toList = text := ⟨_, rfl⟩
  rw [htext]
  -- the characters are spelled out first, since a text of many parts is slow to take apart
  simp only [sampleText, String.intercalate_cons_cons, String.intercalate_singleton,
    String.toList_append, String.reduceToList] at htext
  subst htext
  decide +kernel

namespace ParseFiles

section Files

variable {system : FileSystem} {directory : Place}

/-- The file system with the settings that are written. -/
abbrev written (system : FileSystem) (directory : Place) : FileSystem :=
  system.put (directory ++ [Settings.fileName]) WriteSettings.sampleText.toUTF8

/-- The settings of a source file stay as they are, or the ones that are written stand in the place
of the defaults. -/
theorem settingsOf_written (h : system.IsFreeIn directory Settings.fileName) (path : String) :
    settingsOf (written system directory).files none path = settingsOf system.files none path ∨
      settingsOf (written system directory).files none path =
          { format := some Report.Format.listing.name } ∧
        settingsOf system.files none path = {} := by
  unfold settingsOf
  dsimp only
  rw [Settings.ofDirectory_eq, Settings.ofDirectory_eq, Files.toOption_readText,
    Files.toOption_readText]
  by_cases hbeside : (written system directory).locate (settingsBeside path) =
      .ok (directory ++ [Settings.fileName])
  · right
    have hnone : (system.files.read (settingsBeside path)).toOption = none := by
      cases hread : system.files.read (settingsBeside path) with
      | error error => rfl
      | ok found => exact absurd hread (h.read_ne_ok hbeside found)
    have hwritten := h.read_put hbeside
    unfold settingsBeside at hnone hwritten
    rw [hnone, hwritten]
    refine ⟨?_, rfl⟩
    have htext : (decodeText WriteSettings.sampleText.toUTF8).toOption =
        some WriteSettings.sampleText := by
      rw [decodeText_toUTF8]
      rfl
    rw [Except.toOption, Option.bind_some, htext, Option.bind_some,
      WriteSettings.ofText?_sampleText, Option.getD_some]
  · left
    have hsame : ((written system directory).files.read (settingsBeside path)).toOption =
        (system.files.read (settingsBeside path)).toOption := h.toOption_read_put hbeside
    unfold settingsBeside at hsame
    rw [hsame]

/-- With the written settings types are rendered as before. -/
theorem styleOf_written (command : ParseFiles) (h : system.IsFreeIn directory Settings.fileName)
    (path : String) :
    command.styleOf (written system directory).files none path =
      command.styleOf system.files none path := by
  unfold styleOf adjust
  rcases settingsOf_written h path with hsame | ⟨hwritten, hdefault⟩
  · rw [hsame]
  · rw [hwritten, hdefault]
    split <;> rfl

/-- With the written settings the same format is decided on. -/
theorem formatOf_written (command : ParseFiles)
    (h : system.IsFreeIn directory Settings.fileName) :
    command.formatOf (written system directory).files none =
      command.formatOf system.files none := by
  unfold formatOf
  cases hpaths : command.paths with
  | nil => rfl
  | cons path rest =>
    rcases settingsOf_written h path with hsame | ⟨hwritten, hdefault⟩
    · simp only [hsame]
    · simp only [hwritten, hdefault, Report.Format.ofName?_name]

/-- A command on source files that are no settings files ends alike with the written settings. -/
theorem run_written {command : ParseFiles} (h : system.IsFreeIn directory Settings.fileName)
    (hsettings : command.settings = none)
    (hpaths : ∀ path ∈ command.paths, Path.lastName? path ≠ some Settings.fileName)
    (colors : Bool) :
    (command.run (written system directory).files colors).output =
        (command.run system.files colors).output ∧
      (command.run (written system directory).files colors).failure =
        (command.run system.files colors).failure := by
  have hroots : ∀ path ∈ command.paths,
      rootOf? (written system directory).files path = rootOf? system.files path := by
    intro path hpath
    have helsewhere : (written system directory).locate path ≠
        .ok (directory ++ [Settings.fileName]) := by
      intro hlocate
      refine hpaths path hpath ?_
      rw [h.lastName?_of_locate_put hlocate]
    unfold rootOf?
    rw [Files.toOption_readText, Files.toOption_readText, h.toOption_read_put helsewhere]
  have hreported : ∀ path ∈ command.paths,
      command.reported? (written system directory).files none path =
        command.reported? system.files none path := fun path hpath =>
    reported?_congr (hroots path hpath) (styleOf_written command h path)
  have hbad : ∀ path ∈ command.paths,
      command.isBad (written system directory).files path = command.isBad system.files path :=
    fun path hpath => isBad_congr (hroots path hpath)
  have hnamed : ∀ files, command.namedSettings files = .ok none :=
    fun _ => namedSettings_none hsettings
  rw [run_eq_outcomeIn (hnamed _), run_eq_outcomeIn (hnamed _), formatOf_written command h]
  cases command.formatOf system.files none with
  | error failure => exact ⟨rfl, rfl⟩
  | ok format =>
    exact ⟨output_conclude_congr hreported .., failure_conclude_congr hbad ..⟩

end Files

end ParseFiles

/-! ## Writing -/

namespace WriteSettings

variable {system : FileSystem} {path : String} {directory : Place}

/-- In a directory without settings the settings file is created. -/
theorem run_of_isFree (hlocate : system.locate path = .ok directory)
    (h : system.IsFreeIn directory Settings.fileName) (colors : Bool) :
    run system colors path =
      (outcome colors path (.absent (Place.absolute (directory ++ [Settings.fileName]))),
        ParseFiles.written system directory) := by
  obtain ⟨entries, hdirectory⟩ := Sight.of_eq_directory_iff.mp h.isDirectory
  have hsurvey : survey system path =
      .absent (Place.absolute (directory ++ [Settings.fileName])) := by
    unfold survey
    rw [hlocate]
    dsimp only
    rw [hdirectory]
    dsimp only
    cases hsettings : system.top.at? (directory ++ [Settings.fileName]) with
    | error error => rfl
    | ok tree => exact absurd hsettings (Sight.of_eq_nothing_iff.mp h.isFree tree)
  unfold run
  rw [hsurvey, hlocate]

/-- A directory that has settings, whatever they are, is left as it is. -/
theorem run_of_settings (hlocate : system.locate path = .ok directory)
    (hdirectory : Sight.of (system.top.at? directory) = .directory) {tree : FileTree}
    (hsettings : system.top.at? (directory ++ [Settings.fileName]) = .ok tree) (colors : Bool) :
    run system colors path =
      (outcome colors path (.present (Place.absolute (directory ++ [Settings.fileName]))),
        system) := by
  obtain ⟨entries, hdirectory⟩ := Sight.of_eq_directory_iff.mp hdirectory
  have hsurvey : survey system path =
      .present (Place.absolute (directory ++ [Settings.fileName])) := by
    unfold survey
    rw [hlocate]
    dsimp only
    rw [hdirectory]
    dsimp only
    rw [hsettings]
  unfold run
  rw [hsurvey]

/-- Where settings have been written, they are found the next time. -/
theorem run_written (hlocate : system.locate path = .ok directory)
    (h : system.IsFreeIn directory Settings.fileName) (colors : Bool) :
    run (ParseFiles.written system directory) colors path =
      (outcome colors path (.present (Place.absolute (directory ++ [Settings.fileName]))),
        ParseFiles.written system directory) := by
  have hne : directory ≠ directory ++ [Settings.fileName] := by simp
  have hstill : (ParseFiles.written system directory).locate path = .ok directory :=
    (h.locate_put_iff hne).mpr hlocate
  refine run_of_settings hstill ?_ h.at?_put colors
  rw [h.sight_put, if_neg hne, h.isDirectory]

end WriteSettings

end Command

namespace Program

open Command CommandLine

/-- Writing settings into an existing directory.  If it has none, the settings file is written, and
a command without settings of its own, on source files that are no settings files, ends as it did
before.  If it has one, nothing changes.  In both cases it succeeds, and doing it once more succeeds
and changes nothing. -/
theorem run_writeSettings {system : FileSystem} {path : String} {directory : Place}
    (hlocate : system.locate path = .ok directory)
    (hdirectory : ∃ entries, system.top.at? directory = .ok (.directory entries)) (colors : Bool) :
    let settings := directory ++ [Settings.fileName]
    let first := run system colors (.writeSettings path)
    let again := run first.2 colors (.writeSettings path)
    first.1.status = 0 ∧
      ((∀ tree, system.top.at? settings ≠ .ok tree) →
        first.2.top.at? settings = .ok (.file WriteSettings.sampleText.toUTF8) ∧
        ∀ (command : ParseFiles) (colors : Bool), command.settings = none →
          (∀ source ∈ command.paths, Path.lastName? source ≠ some Settings.fileName) →
          let before := (run system colors (.parseFiles command)).1
          let after := (run first.2 colors (.parseFiles command)).1
          after.status = before.status ∧ after.output = before.output ∧
            after.failure.map Failure.messages = before.failure.map Failure.messages) ∧
      (∀ tree, system.top.at? settings = .ok tree → first.2 = system) ∧
      again.1.status = 0 ∧ again.2 = first.2 := by
  intro settings first again
  have hsight := Sight.of_eq_directory_iff.mpr hdirectory
  cases hsettings : system.top.at? settings with
  | ok tree =>
    have hfirst : first = (_, system) :=
      WriteSettings.run_of_settings hlocate hsight hsettings colors
    have hagain : again = first := by
      simp only [again, hfirst]
      exact hfirst
    rw [hagain, hfirst]
    exact ⟨rfl, fun hnone => absurd rfl (hnone tree), fun _ _ => rfl, rfl, rfl⟩
  | error error =>
    have hnothing : Sight.of (system.top.at? settings) = .nothing := by rw [hsettings, Sight.of]
    have hfree : system.IsFreeIn directory Settings.fileName := ⟨hsight, hnothing, by decide⟩
    have hfirst : first = (_, ParseFiles.written system directory) :=
      WriteSettings.run_of_isFree hlocate hfree colors
    have hagain : again = WriteSettings.run (ParseFiles.written system directory) colors path := by
      simp only [again, hfirst]
      rfl
    rw [WriteSettings.run_written hlocate hfree colors] at hagain
    rw [hagain, hfirst]
    refine ⟨rfl, fun _ => ⟨hfree.at?_put, ?_⟩, fun tree h => absurd h (by simp), rfl, rfl⟩
    intro command colors hnamed hsources before after
    obtain ⟨houtput, hfailure⟩ := ParseFiles.run_written hfree hnamed hsources colors
    have hfailure : after.failure = before.failure := hfailure
    exact ⟨by rw [Outcome.status, Outcome.status, hfailure], houtput, by rw [hfailure]⟩

/-- A source file in a directory of its own, and one next to settings. -/
def twoPackages : FileSystem where
  top := .directory
    [("a", .directory [("A.java", .file "class A {}".toUTF8)]),
      ("b", .directory [("B.java", .file "class B {}".toUTF8),
        (Settings.fileName, .file "[output]\nformat = \"json\"".toUTF8)])]

/-- Settings are written for the first package, not for the second one, and commands over both
packages end as before. -/
theorem run_writeSettings_twoPackages :
    let first := (run twoPackages false (.writeSettings "a")).2
    let command : ParseFiles := { paths := ["a/A.java", "b/../b/B.java", "a/Gone.java"] }
    twoPackages.locate "a" = .ok ["a"] ∧ command.settings = none ∧
      (∀ source ∈ command.paths, Path.lastName? source ≠ some Settings.fileName) ∧
      (run first false (.parseFiles command)).1.output =
        (run twoPackages false (.parseFiles command)).1.output ∧
      (run first false (.writeSettings "a")).2 = first ∧
      (run twoPackages false (.writeSettings "b")).2 = twoPackages := by
  intro first command
  have ha : twoPackages.locate "a" = .ok ["a"] := by decide +kernel
  have hb : twoPackages.locate "b" = .ok ["b"] := by decide +kernel
  have hsources : ∀ source ∈ command.paths, Path.lastName? source ≠ some Settings.fileName := by
    decide +kernel
  obtain ⟨-, hfree, -, -, hagain⟩ := run_writeSettings ha ⟨_, rfl⟩ false
  obtain ⟨-, -, hkept, -, -⟩ := run_writeSettings hb ⟨_, rfl⟩ false
  have hnone : ∀ tree, twoPackages.top.at? ["a", Settings.fileName] ≠ .ok tree := by
    intro tree h
    exact absurd h nofun
  exact ⟨ha, rfl, hsources, ((hfree hnone).2 command false rfl hsources).2.1, hagain,
    hkept _ rfl⟩

end Program

end JavaSignatures
