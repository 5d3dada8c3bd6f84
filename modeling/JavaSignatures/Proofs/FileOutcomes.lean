import JavaSignatures.Command.ParseFiles

set_option autoImplicit false

/-!
# What becomes of each file

A command reads every source file in a session of its own, so that what becomes of a file does not
depend on the files around it.  Here it is said without sessions: a file is in the report if it can
be read and declares a type (`ParseFiles.reported?`), and it counts as failed if it is not in the
report or lacks the wanted declaration (`ParseFiles.isBad`).  A command over any number of files is
the commands over each one of them taken together (`ParseFiles.run_files_apart`).
-/

namespace JavaSignatures

namespace Catalogue

@[simp]
theorem errorMessage_recordAll (catalogue : Catalogue) (signatures : List Signature) :
    (catalogue.recordAll signatures).errorMessage = catalogue.errorMessage := by
  induction signatures generalizing catalogue with
  | nil => rfl
  | cons signature rest ih => exact ih (catalogue.record signature)

/-- Collecting leaves an error just where a path leads to no declaration. -/
theorem isSome_errorMessage_addUnit {catalogue : Catalogue} (h : catalogue.errorMessage = none)
    (style : Style) (root : Declaration) (path : Option String) :
    (catalogue.addUnit style root path).errorMessage.isSome =
      path.any fun path => (root.find? path).isNone := by
  cases path with
  | none => simp [addUnit, addTarget, h]
  | some path => cases hfound : root.find? path <;> simp [addUnit, addTarget, notFound, h, hfound]

end Catalogue

namespace Command.ParseFiles

variable (command : ParseFiles) (files : Files) (named : Option Settings) (path : String)

/-- The style of the signatures of a file. -/
def styleOf : Style := ⟨(command.adjust (settingsOf files named path)).rendering, {}⟩

/-- The declaration that a file is about, if the file can be read and declares a type. -/
def rootOf? : Option Declaration :=
  (files.readText path).toOption.bind fun text => (Source.parse text).toOption

/-- What the report shows of a file: what is collected from it, if it can be read and declares a
type. -/
def reported? : Option Report.Source :=
  (rootOf? files path).map fun root =>
    ⟨path, Catalogue.empty.addUnit (command.styleOf files named path) root command.inner⟩

/-- The file cannot be read, or it declares no type, or the wanted declaration is not in it. -/
def isBad : Bool :=
  match rootOf? files path with
  | none => true
  | some root => command.inner.any fun inner => (root.find? inner).isNone

/-- The command with one file only. -/
def alone : ParseFiles := { command with paths := [path] }

/-! ## One file -/

/-- Parsing a file gives what the report shows of it, and fails if there is nothing to show. -/
theorem parseFile_cases :
    let parsed := command.parseFile files (settingsOf files named path) path
    (rootOf? files path = none ∧ ∃ fault, parsed = .error fault) ∨
      ∃ root, rootOf? files path = some root ∧
        parsed = .ok ⟨path,
          Catalogue.empty.addUnit (command.styleOf files named path) root command.inner⟩ := by
  intro parsed
  unfold rootOf?
  cases hread : files.readText path with
  | error error =>
    refine .inl ⟨rfl, .unreadable error, ?_⟩
    simp only [parsed, parseFile, hread]
  | ok text =>
    cases hparse : Source.parse text with
    | error fault =>
      refine .inl ⟨by simp [Except.toOption, hparse], .unparsable (.unreadable fault.reason), ?_⟩
      simp only [parsed, parseFile, hread, Session.parse_java, hparse]
    | ok root =>
      refine .inr ⟨root, by simp [Except.toOption, hparse], ?_⟩
      simp only [parsed, parseFile, hread, Session.parse_java, hparse]
      rfl

theorem toOption_parseFile :
    (command.parseFile files (settingsOf files named path) path).toOption =
      command.reported? files named path := by
  unfold reported?
  rcases command.parseFile_cases files named path with
    ⟨hroot, fault, hparsed⟩ | ⟨root, hroot, hparsed⟩
  · rw [hparsed, hroot]
    rfl
  · rw [hparsed, hroot]
    rfl

theorem isFailure_parseFile :
    isFailure (command.parseFile files (settingsOf files named path) path) =
      command.isBad files path := by
  unfold isBad
  rcases command.parseFile_cases files named path with
    ⟨hroot, fault, hparsed⟩ | ⟨root, hroot, hparsed⟩
  · rw [hparsed, hroot]
    rfl
  · rw [hparsed, hroot]
    exact Catalogue.isSome_errorMessage_addUnit rfl _ root command.inner

/-- A file in the report is bad just if what is shown of it is an error. -/
theorem isBad_of_reported? {source : Report.Source}
    (h : command.reported? files named path = some source) :
    command.isBad files path = source.catalogue.errorMessage.isSome := by
  obtain ⟨root, hroot, rfl⟩ := Option.map_eq_some_iff.mp h
  unfold isBad
  rw [hroot]
  exact (Catalogue.isSome_errorMessage_addUnit rfl _ root command.inner).symm

/-! ## All files -/

theorem shown_eq_filterMap (results : List (String × Except FileFault Report.Source)) :
    shown results = results.filterMap fun result => result.2.toOption := by
  unfold shown
  congr 1
  funext result
  cases result.2 <;> rfl

theorem shown_results :
    shown (command.results files named) =
      command.paths.filterMap (command.reported? files named) := by
  rw [shown_eq_filterMap, results, List.filterMap_map]
  congr 1
  funext path
  exact command.toOption_parseFile files named path

theorem length_filter_isFailure_results :
    ((command.results files named).filter fun result => isFailure result.2).length =
      command.paths.countP (command.isBad files) := by
  rw [← List.countP_eq_length_filter, results, List.countP_map]
  congr 1
  funext path
  exact command.isFailure_parseFile files named path

theorem results_alone :
    (command.alone path).results files named =
      [(path, command.parseFile files (settingsOf files named path) path)] := rfl

theorem results_eq_flatMap_alone :
    command.results files named =
      command.paths.flatMap fun path => (command.alone path).results files named := by
  simp only [results_alone]
  exact List.map_eq_flatMap ..

/-- What a command says of a file does not depend on the files that it names. -/
theorem reported?_alone (other : String) :
    (command.alone other).reported? files named = command.reported? files named := rfl

theorem isBad_alone (other : String) :
    (command.alone other).isBad files = command.isBad files := rfl

theorem filterMap_reported?_alone :
    (command.alone path).paths.filterMap ((command.alone path).reported? files named) =
      (command.reported? files named path).toList := by
  rw [reported?_alone]
  simp only [alone, List.filterMap_cons, List.filterMap_nil]
  cases command.reported? files named path <;> rfl

section Run

variable {command : ParseFiles} {files : Files} {named : Option Settings}

/-- With a format of its own and settings that can be used, a command gets to its files. -/
theorem run_eq_conclude {format : Report.Format} (hformat : command.format = some format)
    (hnamed : command.namedSettings files = .ok named) (colors : Bool) :
    command.run files colors = conclude colors format (command.results files named) := by
  have hchosen : command.formatOf files named = .ok format := by
    unfold formatOf
    rw [hformat]
  unfold run
  rw [hnamed]
  dsimp only
  rw [hchosen]

theorem output_conclude (colors : Bool) (format : Report.Format) :
    (conclude colors format (command.results files named)).output =
      Report.render format colors (command.paths.filterMap (command.reported? files named)) ++
        "\n" := by
  unfold conclude
  dsimp only
  rw [shown_results]

theorem failure_conclude (colors : Bool) (format : Report.Format) :
    (conclude colors format (command.results files named)).failure =
      if command.paths.countP (command.isBad files) = 0 then none
      else some (.filesFailed (command.paths.countP (command.isBad files))
        command.paths.length) := by
  unfold conclude
  dsimp only
  rw [length_filter_isFailure_results, length_results]
  simp only [beq_iff_eq]

theorem complaints_alone (colors : Bool) (format : Report.Format) (path : String) :
    (conclude colors format ((command.alone path).results files named)).complaints =
      complaint colors path (command.parseFile files (settingsOf files named path) path) := by
  simp [results_alone, conclude]

theorem complaints_conclude (colors : Bool) (format : Report.Format) :
    (conclude colors format (command.results files named)).complaints =
      String.join (command.paths.map fun path =>
        (conclude colors format ((command.alone path).results files named)).complaints) := by
  simp only [complaints_alone]
  simp only [conclude, results, List.map_map, Function.comp_def]

/-- A command over any number of files, with a format of its own and no settings file of its own or
one that can be used.  What becomes of each file is what becomes of it alone; the report shows the
files that could be read and parsed, in order; and the command fails just if a file is bad, with the
number of bad files and of all files. -/
theorem run_files_apart {format : Report.Format} (hformat : command.format = some format)
    (hnamed : command.namedSettings files = .ok named) (colors : Bool) :
    let outcome := command.run files colors
    let apart := fun path => (command.alone path).run files colors
    let failed := command.paths.countP (command.isBad files)
    (command.results files named =
        command.paths.flatMap fun path => (command.alone path).results files named) ∧
      outcome.output = Report.render format colors
        (command.paths.filterMap (command.reported? files named)) ++ "\n" ∧
      outcome.complaints = String.join (command.paths.map fun path => (apart path).complaints) ∧
      (outcome.failure = none ↔ ∀ path ∈ command.paths, command.isBad files path = false) ∧
      (∀ failure, outcome.failure = some failure →
        failure.messages =
          [toString failed ++ " of " ++ toString command.paths.length ++ " files failed"]) ∧
      ∀ path,
        (apart path).output =
          Report.render format colors (command.reported? files named path).toList ++ "\n" ∧
        ((apart path).failure = none ↔ command.isBad files path = false) ∧
        ∀ source, command.reported? files named path = some source →
          (source.catalogue.errorMessage.isSome ↔ command.isBad files path) := by
  intro outcome apart failed
  have hrun : outcome = conclude colors format (command.results files named) :=
    run_eq_conclude hformat hnamed colors
  have hapart : ∀ path,
      apart path = conclude colors format ((command.alone path).results files named) :=
    fun path => @run_eq_conclude (command.alone path) files named format hformat hnamed colors
  have hfailure : outcome.failure =
      if failed = 0 then none else some (.filesFailed failed command.paths.length) := by
    rw [hrun, failure_conclude]
  refine ⟨results_eq_flatMap_alone .., ?_, ?_, ?_, ?_, fun path => ⟨?_, ?_, ?_⟩⟩
  · rw [hrun, output_conclude]
  · rw [hrun, complaints_conclude]
    simp only [hapart]
  · rw [hfailure]
    simp [failed, List.countP_eq_zero]
  · intro failure h
    rw [hfailure] at h
    split at h
    · exact absurd h (by simp)
    · obtain rfl := Option.some.inj h
      rfl
  · rw [hapart, output_conclude, filterMap_reported?_alone]
  · rw [hapart, failure_conclude, isBad_alone]
    simp [alone]
  · intro source hreported
    rw [isBad_of_reported? command files named path hreported]

/-- Two source files, one of which has a nested declaration `B`. -/
def twoSources : Files where
  read path :=
    if path = "A.java" then .ok "class A { class B {} }".toUTF8
    else if path = "C.java" then .ok "class C {}".toUTF8
    else .error .notFound

/-- A missing file, one that has the wanted declaration and one that lacks it. -/
theorem run_files_apart_twoSources :
    let command : ParseFiles :=
      { paths := ["gone.java", "A.java", "C.java"], inner := some "B", format := some .models }
    let outcome := command.run twoSources false
    command.namedSettings twoSources = .ok none ∧
      command.paths.map (command.isBad twoSources) = [true, false, true] ∧
      outcome.output = Report.render .models false
        (command.paths.filterMap (command.reported? twoSources none)) ++ "\n" ∧
      ∃ failure, outcome.failure = some failure ∧ failure.messages = ["2 of 3 files failed"] := by
  intro command outcome
  have hbad : command.paths.map (command.isBad twoSources) = [true, false, true] := by
    decide +kernel
  have hcount : command.paths.countP (command.isBad twoSources) = 2 := by decide +kernel
  have hnamed : command.namedSettings twoSources = .ok none := rfl
  obtain ⟨-, houtput, -, hnone, hfailed, -⟩ := run_files_apart rfl hnamed false
  refine ⟨hnamed, hbad, houtput, ?_⟩
  cases hfailure : outcome.failure with
  | none =>
    have hgood := hnone.mp hfailure "gone.java" (by simp [command])
    exact absurd hgood (by decide +kernel)
  | some failure =>
    refine ⟨failure, rfl, ?_⟩
    rw [hfailed failure hfailure, hcount]
    decide +kernel

end Run

end Command.ParseFiles

end JavaSignatures
