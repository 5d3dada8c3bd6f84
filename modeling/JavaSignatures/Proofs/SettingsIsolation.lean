import JavaSignatures.Proofs.FileOutcomes
import JavaSignatures.Proofs.SettingsFiles
import Mathlib.Data.List.Basic

set_option autoImplicit false

/-!
# Settings files reach no other directory

Two file systems that differ in nothing but settings files are compared under one command.  With a
settings file of its own the command does not look at any other one; with a format of its own, what
is reported of a source file depends on the settings file next to it only; and without either, the
format depends on the settings file next to the first source file (`ParseFiles.run_isolated`).
-/

namespace JavaSignatures

theorem Files.toOption_readText (files : Files) (path : String) :
    (files.readText path).toOption =
      (files.read path).toOption.bind fun bytes => (decodeText bytes).toOption := by
  unfold readText
  cases files.read path <;> rfl

/-- What a directory sets depends on what can be read of its settings file. -/
theorem Settings.ofDirectory_eq (files : Files) (directory : String) :
    ofDirectory files directory =
      ((files.readText (Path.join directory fileName)).toOption.bind ofText?).getD {} := by
  unfold ofDirectory load
  cases files.readText (Path.join directory fileName) with
  | error error => rfl
  | ok text => cases h : ofText? text <;> simp [Except.toOption, h]

namespace Command.ParseFiles

/-- The path of the settings file next to a source file. -/
def settingsBeside (path : String) : String := Path.join (Path.directory path) Settings.fileName

/-- The settings file next to a source file is the same in both file systems, or it can be read in
neither. -/
def SameBeside (first second : FileSystem) (path : String) : Prop :=
  (first.files.read (settingsBeside path)).toOption =
    (second.files.read (settingsBeside path)).toOption

/-- A path names one and the same file in both file systems: any file that is no settings file, or
else one that is read alike. -/
def NamesOne (first second : FileSystem) (path : String) : Prop :=
  ((∃ content, first.files.read path = .ok content) ∧ ¬first.LeadsToSettings path) ∨
    first.files.read path = second.files.read path

/-- The outcome of a command over its files in the format that was decided on, or the failure to
decide on one. -/
def outcomeIn (colors : Bool) (results : List (String × Except FileFault Report.Source)) :
    Except Failure Report.Format → Outcome
  | .error failure => .ofFailure failure
  | .ok format => conclude colors format results

section Files

variable {command : ParseFiles} {files others : Files} {named : Option Settings} {path : String}

/-- What the report shows of a file depends on the declaration in it and on its style. -/
theorem reported?_congr (hroot : rootOf? files path = rootOf? others path)
    (hstyle : command.styleOf files named path = command.styleOf others named path) :
    command.reported? files named path = command.reported? others named path := by
  unfold reported?
  rw [hroot, hstyle]

/-- Whether a file is bad depends on the declaration in it. -/
theorem isBad_congr (hroot : rootOf? files path = rootOf? others path) :
    command.isBad files path = command.isBad others path := by
  unfold isBad
  rw [hroot]

theorem output_conclude_congr
    (h : ∀ path ∈ command.paths,
      command.reported? files named path = command.reported? others named path)
    (colors : Bool) (format : Report.Format) :
    (conclude colors format (command.results files named)).output =
      (conclude colors format (command.results others named)).output := by
  rw [output_conclude, output_conclude, List.filterMap_congr h]

theorem failure_conclude_congr
    (h : ∀ path ∈ command.paths, command.isBad files path = command.isBad others path)
    (colors : Bool) (format : Report.Format) :
    (conclude colors format (command.results files named)).failure =
      (conclude colors format (command.results others named)).failure := by
  have hcount : command.paths.countP (command.isBad files) =
      command.paths.countP (command.isBad others) :=
    List.countP_congr fun path hpath => by rw [h path hpath]
  rw [failure_conclude, failure_conclude, hcount]

/-- The settings that a command names decide on the format without any other file. -/
theorem formatOf_some (command : ParseFiles) (files others : Files) (settings : Settings) :
    command.formatOf files (some settings) = command.formatOf others (some settings) := rfl

/-- Without them, the format is decided on by the settings of the first file. -/
theorem formatOf_none_congr
    (h : ∀ path ∈ command.paths.head?, settingsOf files none path = settingsOf others none path) :
    command.formatOf files none = command.formatOf others none := by
  unfold formatOf
  cases hpaths : command.paths with
  | nil => rfl
  | cons path rest =>
    have hsettings := h path (by simp [hpaths])
    simp only [hsettings]

theorem run_eq_outcomeIn (hnamed : command.namedSettings files = .ok named) (colors : Bool) :
    command.run files colors =
      outcomeIn colors (command.results files named) (command.formatOf files named) := by
  unfold run outcomeIn
  cases hformat : command.formatOf files named with
  | error failure => simp only [hnamed, hformat]
  | ok format => simp only [hnamed, hformat]

theorem namedSettings_none (hsettings : command.settings = none) :
    command.namedSettings files = .ok none := by
  unfold namedSettings
  rw [hsettings]

theorem exists_settings_of_namedSettings (hsettings : command.settings = some path)
    (hnamed : command.namedSettings files = .ok named) : ∃ settings, named = some settings := by
  unfold namedSettings at hnamed
  rw [hsettings] at hnamed
  dsimp only at hnamed
  split at hnamed
  · next settings _ => exact ⟨settings, (Except.ok.inj hnamed).symm⟩
  · exact absurd hnamed (by simp)

/-- With settings of its own, a command over the same source files ends alike. -/
theorem run_alike_of_settings {settings : Settings}
    (hfiles : command.namedSettings files = .ok (some settings))
    (hothers : command.namedSettings others = .ok (some settings))
    (hroots : ∀ path ∈ command.paths, rootOf? files path = rootOf? others path) (colors : Bool) :
    (command.run files colors).output = (command.run others colors).output ∧
      (command.run files colors).failure = (command.run others colors).failure := by
  rw [run_eq_outcomeIn hfiles, run_eq_outcomeIn hothers,
    command.formatOf_some files others settings]
  cases command.formatOf others (some settings) with
  | error failure => exact ⟨rfl, rfl⟩
  | ok format =>
    constructor
    · exact output_conclude_congr (fun path hpath => reported?_congr (hroots path hpath) rfl) ..
    · exact failure_conclude_congr (fun path hpath => isBad_congr (hroots path hpath)) ..

end Files

section TwoRuns

variable {first second : FileSystem} {command : ParseFiles} {path : String}

theorem NamesOne.read_eq (h : NamesOne first second path)
    (hsame : first.SameApartFromSettings second) :
    first.files.read path = second.files.read path := by
  rcases h with ⟨⟨content, hread⟩, hpath⟩ | h
  · rw [hread, hsame.read hread hpath]
  · exact h

/-- The settings of a source file depend on the settings file next to it. -/
theorem SameBeside.settingsOf_eq (h : SameBeside first second path) :
    settingsOf first.files none path = settingsOf second.files none path := by
  unfold settingsOf
  dsimp only
  rw [Settings.ofDirectory_eq, Settings.ofDirectory_eq, Files.toOption_readText,
    Files.toOption_readText]
  unfold SameBeside settingsBeside at h
  rw [h]

/-- A path that leads to no settings file leads to the same declaration. -/
theorem rootOf?_eq (hsame : first.SameApartFromSettings second)
    (hfirst : ¬first.LeadsToSettings path) (hsecond : ¬second.LeadsToSettings path) :
    rootOf? first.files path = rootOf? second.files path := by
  unfold rootOf?
  rw [Files.toOption_readText, Files.toOption_readText, hsame.toOption_read hfirst hsecond]

/-- With a settings file of its own that is one and the same file, a command ends alike. -/
theorem run_alike_of_namesOne (hsame : first.SameApartFromSettings second)
    (hroots : ∀ path ∈ command.paths, rootOf? first.files path = rootOf? second.files path)
    (hsettings : command.settings = some path) (hone : NamesOne first second path)
    (colors : Bool) :
    (command.run first.files colors).output = (command.run second.files colors).output ∧
      (command.run first.files colors).failure = (command.run second.files colors).failure := by
  have hnamed : command.namedSettings first.files = command.namedSettings second.files := by
    unfold namedSettings
    rw [hsettings]
    dsimp only
    rw [Settings.load_congr (hone.read_eq hsame)]
  cases hload : command.namedSettings second.files with
  | error failure =>
    have hfirst : command.run first.files colors = .ofFailure failure := by
      simp only [run, hnamed, hload]
    have hsecond : command.run second.files colors = .ofFailure failure := by
      simp only [run, hload]
    rw [hfirst, hsecond]
    exact ⟨rfl, rfl⟩
  | ok named =>
    obtain ⟨settings, rfl⟩ := exists_settings_of_namedSettings hsettings hload
    exact run_alike_of_settings (hnamed.trans hload) hload hroots colors

/-- Without such a file, what is reported of a source file depends on the settings file next to
it. -/
theorem SameBeside.reported?_eq (h : SameBeside first second path)
    (hroot : rootOf? first.files path = rootOf? second.files path) :
    command.reported? first.files none path = command.reported? second.files none path := by
  have hstyle : command.styleOf first.files none path = command.styleOf second.files none path := by
    unfold styleOf
    rw [h.settingsOf_eq]
  exact reported?_congr hroot hstyle

/-- One command over two file systems that are the same apart from settings files, on source files
that are no settings files.  With a settings file of its own, which is one and the same file, it
ends alike.  With a format of its own and no settings file, what is reported of a source file is the
same if the settings file next to it is.  With neither, the format that is decided on is the same if
the settings file next to the first source file is. -/
theorem run_isolated (hsame : first.SameApartFromSettings second)
    (hpaths : ∀ path ∈ command.paths,
      ¬first.LeadsToSettings path ∧ ¬second.LeadsToSettings path) (colors : Bool) :
    let one := command.run first.files colors
    let other := command.run second.files colors
    (∀ path, command.settings = some path → NamesOne first second path →
      one.output = other.output ∧ one.failure = other.failure ∧ one.status = other.status) ∧
    (∀ format, command.format = some format → command.settings = none →
      (one.output = Report.render format colors
          (command.paths.filterMap (command.reported? first.files none)) ++ "\n" ∧
        other.output = Report.render format colors
          (command.paths.filterMap (command.reported? second.files none)) ++ "\n") ∧
      one.failure = other.failure ∧
      ∀ path ∈ command.paths, SameBeside first second path →
        command.reported? first.files none path = command.reported? second.files none path) ∧
    (command.format = none → command.settings = none →
      (∀ path ∈ command.paths.head?, SameBeside first second path) →
        ∃ decided,
          one = outcomeIn colors (command.results first.files none) decided ∧
          other = outcomeIn colors (command.results second.files none) decided) := by
  intro one other
  have hroots : ∀ path ∈ command.paths, rootOf? first.files path = rootOf? second.files path :=
    fun path hpath => rootOf?_eq hsame (hpaths path hpath).1 (hpaths path hpath).2
  have hbad : ∀ path ∈ command.paths,
      command.isBad first.files path = command.isBad second.files path :=
    fun path hpath => isBad_congr (hroots path hpath)
  refine ⟨?_, ?_, ?_⟩
  · intro path hsettings hone
    obtain ⟨houtput, hfailure⟩ := run_alike_of_namesOne hsame hroots hsettings hone colors
    refine ⟨houtput, hfailure, ?_⟩
    unfold Outcome.status
    rw [hfailure]
  · intro format hformat hsettings
    have hnamed : ∀ files, command.namedSettings files = .ok none :=
      fun _ => namedSettings_none hsettings
    have hone : one = conclude colors format (command.results first.files none) :=
      run_eq_conclude hformat (hnamed _) colors
    have hother : other = conclude colors format (command.results second.files none) :=
      run_eq_conclude hformat (hnamed _) colors
    rw [hone, hother]
    refine ⟨⟨output_conclude .., output_conclude ..⟩, failure_conclude_congr hbad .., ?_⟩
    intro path hpath hbeside
    exact hbeside.reported?_eq (hroots path hpath)
  · intro _ hsettings hhead
    have hformat : command.formatOf first.files none = command.formatOf second.files none :=
      formatOf_none_congr fun path hpath => (hhead path hpath).settingsOf_eq
    refine ⟨command.formatOf second.files none, ?_, ?_⟩
    · rw [← hformat]
      exact run_eq_outcomeIn (namedSettings_none hsettings) colors
    · exact run_eq_outcomeIn (namedSettings_none hsettings) colors

/-- Two directories with a source file each, and a settings file that is in neither of them. -/
def twoDirectories : FileSystem where
  top := .directory
    [("a", .directory [("A.java", .file "class A {}".toUTF8)]),
      ("b", .directory [("B.java", .file "class B {}".toUTF8)]),
      ("own.toml", .file "".toUTF8)]

/-- A settings file that is no text is put next to the second source file. -/
theorem run_isolated_twoDirectories :
    let broken := twoDirectories.put ["b", Settings.fileName] ⟨#[0xC3]⟩
    let command : ParseFiles := { paths := ["a/A.java", "b/B.java"] }
    let own := { command with settings := some "own.toml" }
    let models := { command with format := some .models }
    twoDirectories.SameApartFromSettings broken ∧
      (own.run twoDirectories.files false).output = (own.run broken.files false).output ∧
      models.reported? twoDirectories.files none "a/A.java" =
        models.reported? broken.files none "a/A.java" ∧
      ∃ decided,
        command.run twoDirectories.files false =
          outcomeIn false (command.results twoDirectories.files none) decided ∧
        command.run broken.files false =
          outcomeIn false (command.results broken.files none) decided := by
  intro broken command own models
  have hdirectory : Sight.of (twoDirectories.top.at? ["b"]) = .directory := rfl
  have hfree : Sight.of (twoDirectories.top.at? ["b", Settings.fileName]) = .nothing := rfl
  have hsame : twoDirectories.SameApartFromSettings broken :=
    FileSystem.sameApartFromSettings_put hdirectory (fun h => absurd (hfree.symm.trans h) nofun) _
  let places : List (String × Place) :=
    [("a/A.java", ["a", "A.java"]), ("b/B.java", ["b", "B.java"]), ("own.toml", ["own.toml"])]
  have hplaces : ∀ entry ∈ places,
      twoDirectories.locate entry.1 = .ok entry.2 ∧ broken.locate entry.1 = .ok entry.2 ∧
        entry.2.getLast? ≠ some Settings.fileName := by
    decide +kernel
  have hpaths : ∀ path ∈ places.map Prod.fst,
      ¬twoDirectories.LeadsToSettings path ∧ ¬broken.LeadsToSettings path := by
    intro path hpath
    obtain ⟨entry, hentry, rfl⟩ := List.mem_map.mp hpath
    obtain ⟨hfirst, hsecond, hname⟩ := hplaces entry hentry
    exact ⟨FileSystem.not_leadsToSettings_of_locate hfirst hname,
      FileSystem.not_leadsToSettings_of_locate hsecond hname⟩
  have hsources : ∀ path ∈ command.paths,
      ¬twoDirectories.LeadsToSettings path ∧ ¬broken.LeadsToSettings path := by
    intro path hpath
    exact hpaths path (List.mem_append_left ["own.toml"] hpath)
  have hown : NamesOne twoDirectories broken "own.toml" :=
    .inl ⟨⟨"".toUTF8, by decide +kernel⟩, (hpaths "own.toml" (by simp [places])).1⟩
  have hbeside : SameBeside twoDirectories broken "a/A.java" := by
    unfold SameBeside
    decide +kernel
  refine ⟨hsame, ?_, ?_, ?_⟩
  · have hsources : ∀ path ∈ own.paths,
        ¬twoDirectories.LeadsToSettings path ∧ ¬broken.LeadsToSettings path := hsources
    exact ((run_isolated hsame hsources false).1 "own.toml" rfl hown).1
  · have hsources : ∀ path ∈ models.paths,
        ¬twoDirectories.LeadsToSettings path ∧ ¬broken.LeadsToSettings path := hsources
    have hmodels := (run_isolated hsame hsources false).2.1 .models rfl rfl
    exact hmodels.2.2 "a/A.java" (by simp [models, command]) hbeside
  · refine (run_isolated hsame hsources false).2.2 rfl rfl fun path hpath => ?_
    obtain rfl : "a/A.java" = path := by simpa [command] using hpath
    exact hbeside

end TwoRuns

end Command.ParseFiles

end JavaSignatures
