import JavaSignatures.Proofs.ApiEntries
import JavaSignatures.Proofs.FileOutcomes
import JavaSignatures.Proofs.SessionRun
import JavaSignatures.Report.Format

set_option autoImplicit false

/-!
# Errors that outlive their call

A path that leads to no declaration leaves an error behind.  A later call that finds its declaration
collects from it and leaves the error where it is; only a reset, or another path that leads nowhere,
takes it away.  So a session has an error just if such a path has come since the last reset
(`Session.run_errorMessage_and_reports`), and reports show the error alone, even if something has
been collected behind it (`Session.exists_stale_error`).
-/

namespace JavaSignatures

/-! ## The last call that succeeds -/

namespace SessionEffect

/-- The effect is that of a path that leads nowhere. -/
def isMiss (effect : SessionEffect) : Bool := effect.message?.isSome

/-- The effect is not that of a call that fails. -/
def succeeds : SessionEffect → Bool
  | fails _ => false
  | _ => true

end SessionEffect

namespace SessionCall

/-- The last call that succeeds, if there is one, is for a path that leads nowhere. -/
def endsInMiss (reader : SourceReader) (calls : List SessionCall) : Bool :=
  ((calls.map (effect reader)).filter SessionEffect.succeeds).getLast?.any SessionEffect.isMiss

variable {reader : SourceReader}

theorem endsInMiss_concat (calls : List SessionCall) (call : SessionCall) :
    endsInMiss reader (calls ++ [call]) =
      if (call.effect reader).succeeds then (call.effect reader).isMiss
      else endsInMiss reader calls := by
  cases h : call.effect reader <;> simp [endsInMiss, h, SessionEffect.succeeds]

/-- A run ends in a path that leads nowhere just if there is a message and nothing has been
collected behind it. -/
theorem endsInMiss_iff (reader : SourceReader) (calls : List SessionCall) :
    endsInMiss reader calls = true ↔
      (messageAt reader calls).isSome ∧ targetsSince reader calls = [] := by
  induction calls using List.reverseRecOn with
  | nil => simp [endsInMiss, messageAt]
  | append_singleton calls call ih =>
    rw [endsInMiss_concat, messageAt_concat, targetsSince_concat]
    cases h : call.effect reader with
    | fails error =>
      simpa [SessionEffect.succeeds, SessionEffect.isBoundary, SessionEffect.target?] using ih
    | discards message =>
      simp [SessionEffect.succeeds, SessionEffect.isMiss, SessionEffect.isBoundary,
        SessionEffect.message?]
    | collects root target =>
      simp [SessionEffect.succeeds, SessionEffect.isMiss, SessionEffect.isBoundary,
        SessionEffect.message?, SessionEffect.target?]

/-- The message of a run is that of the last path that leads nowhere, unless a reset comes behind
it. -/
theorem messageAt_eq_some_iff (calls : List SessionCall) (message : String) :
    messageAt reader calls = some message ↔
      ∃ before call after, calls = before ++ call :: after ∧
        call.effect reader = .discards (some message) ∧
        ∀ later ∈ after, (later.effect reader).isBoundary = false := by
  have hmessage : ∀ effect : SessionEffect, effect.isBoundary = true ∧
      effect.message? = some message ↔ effect = .discards (some message) := by
    rintro (error | found | ⟨root, target⟩) <;>
      simp [SessionEffect.isBoundary, SessionEffect.message?]
  unfold messageAt
  rw [← List.map_reverse, List.find?_map]
  simp only [Option.bind_eq_some_iff, Option.map_eq_some_iff, List.find?_eq_some_iff_append,
    Function.comp_apply]
  constructor
  · rintro ⟨-, ⟨call, ⟨hboundary, after, before, hcalls, hafter⟩, rfl⟩, hfound⟩
    refine ⟨before.reverse, call, after.reverse, ?_, (hmessage _).mp ⟨hboundary, hfound⟩, ?_⟩
    · rw [← List.reverse_reverse calls, hcalls]
      simp
    · intro later hlater
      simpa using hafter later (List.mem_reverse.mp hlater)
  · rintro ⟨before, call, after, rfl, heffect, hafter⟩
    obtain ⟨hboundary, hfound⟩ := (hmessage _).mpr heffect
    refine ⟨call.effect reader,
      ⟨call, ⟨hboundary, after.reverse, before.reverse, by simp, ?_⟩, rfl⟩, hfound⟩
    intro later hlater
    simp [hafter later (List.mem_reverse.mp hlater)]

end SessionCall

/-! ## Reports -/

namespace Catalogue

open Report (ApiModel Source accented)
open Report.Listing (sourceLines)

/-- Reports show the error of the catalogue and nothing that has been collected. -/
def ShowsErrorOnly (catalogue : Catalogue) : Prop :=
  ApiModel.ofCatalogue? catalogue = none ∧
    ∀ (colors : Bool) (path : String), sourceLines colors ⟨path, catalogue⟩ =
      sourceLines colors ⟨path, { errorMessage := catalogue.errorMessage }⟩

/-- Reports show every signature of the catalogue. -/
def ShowsSignatures (catalogue : Catalogue) : Prop :=
  ∀ signature ∈ catalogue.methods,
    (∃ model ∈ ApiModel.ofCatalogue? catalogue, ∃ entry ∈ model.methods,
      signature ∈ entry.signatures) ∧
      ∀ (colors : Bool) (path : String),
        "  " ++ accented colors [.green] signature ∈ sourceLines colors ⟨path, catalogue⟩

theorem showsErrorOnly_of_error {catalogue : Catalogue} {message : String}
    (h : catalogue.errorMessage = some message) : catalogue.ShowsErrorOnly := by
  refine ⟨ApiModel.ofCatalogue?_of_error h, fun colors path => ?_⟩
  unfold sourceLines
  rw [h]

theorem showsSignatures_of_class {catalogue : Catalogue} (herror : catalogue.errorMessage = none)
    (hclass : catalogue.className ≠ none) : catalogue.ShowsSignatures := by
  obtain ⟨className, hclass⟩ := Option.ne_none_iff_exists'.mp hclass
  have hmodel := ApiModel.ofCatalogue?_eq_some_iff.mpr ⟨herror, className, hclass, rfl⟩
  intro signature hsignature
  constructor
  · obtain ⟨entry, ⟨hentry, hmem⟩, -⟩ := ApiModel.existsUnique_entry hsignature
    exact ⟨_, hmodel, entry, hentry, hmem⟩
  · intro colors path
    unfold sourceLines Report.Listing.catalogueLines
    rw [herror]
    refine List.mem_append_right _ (List.mem_append_right _ ?_)
    exact List.mem_flatMap.mpr ⟨signature, hsignature, List.mem_cons_self ..⟩

end Catalogue

namespace Session

/-! ## Runs -/

section Runs

variable (reader : SourceReader) (style : Style) (calls : List SessionCall)

theorem errorMessage_run :
    let start : Session reader := { style := style }
    (start.run calls).catalogue.errorMessage = SessionCall.messageAt reader calls := by
  intro start
  rw [catalogue_run]
  exact Catalogue.errorMessage_recordAll _ _

/-- A session has a class just if something has been collected behind the last boundary. -/
theorem className_run_eq_none_iff :
    let start : Session reader := { style := style }
    (start.run calls).catalogue.className = none ↔ SessionCall.targetsSince reader calls = [] := by
  intro start
  have hclass : ∀ (catalogue : Catalogue) (signatures : List Signature),
      (catalogue.recordAll signatures).className = catalogue.className := by
    intro catalogue signatures
    induction signatures generalizing catalogue with
    | nil => rfl
    | cons signature rest ih => exact ih (catalogue.record signature)
  rw [catalogue_run, Catalogue.ofTargets, hclass]
  simp

end Runs

/-- After any run the session has an error just if a path that leads nowhere has come behind the
last reset, and it is the error of the last such path.  So it has one just if the last call that
succeeds is for such a path, exactly unless something has been collected behind the error.  Reports
show an error alone, and without an error all that has been collected. -/
theorem run_errorMessage_and_reports (reader : SourceReader) (style : Style)
    (calls : List SessionCall) :
    let start : Session reader := { style := style }
    let catalogue := (start.run calls).catalogue
    (∀ message, catalogue.errorMessage = some message ↔
        ∃ before call after, calls = before ++ call :: after ∧
          call.effect reader = .discards (some message) ∧
          ∀ later ∈ after, (later.effect reader).isBoundary = false) ∧
      ((catalogue.errorMessage.isSome = SessionCall.endsInMiss reader calls) ↔
        ¬(catalogue.errorMessage ≠ none ∧ catalogue.className ≠ none)) ∧
      (catalogue.errorMessage ≠ none → catalogue.ShowsErrorOnly) ∧
      (catalogue.errorMessage = none → catalogue.ShowsSignatures) := by
  intro start catalogue
  have herror : catalogue.errorMessage = SessionCall.messageAt reader calls :=
    errorMessage_run reader style calls
  have hclass : catalogue.className = none ↔ SessionCall.targetsSince reader calls = [] :=
    className_run_eq_none_iff reader style calls
  refine ⟨fun message => ?_, ?_, fun hmessage => ?_, fun hmessage => ?_⟩
  · rw [herror]
    exact SessionCall.messageAt_eq_some_iff calls message
  · have hends := SessionCall.endsInMiss_iff reader calls
    rw [herror, ne_eq, ne_eq, hclass]
    cases hmessage : SessionCall.messageAt reader calls with
    | none =>
      have hfalse : SessionCall.endsInMiss reader calls = false := by simpa [hmessage] using hends
      simp [hfalse]
    | some message =>
      rw [hmessage] at hends
      simp only [Option.isSome_some, true_and] at hends
      simp [← hends]
  · obtain ⟨message, hmessage⟩ := Option.ne_none_iff_exists'.mp hmessage
    exact Catalogue.showsErrorOnly_of_error hmessage
  · by_cases htargets : SessionCall.targetsSince reader calls = []
    · have hnothing : catalogue.methods = [] := by
        have hrun := catalogue_run reader style calls
        rw [htargets, Catalogue.ofTargets_nil] at hrun
        exact congrArg Catalogue.methods hrun
      intro signature hsignature
      exact absurd (hnothing ▸ hsignature) List.not_mem_nil
    · exact Catalogue.showsSignatures_of_class hmessage (mt hclass.mp htargets)

/-- A declaration with one method that has a signature. -/
def greeter : Declaration where
  name := "A"
  qualifiedName := "A"
  methods := [{ name := "m", returnType := .void, visibility := .publicAccess }]

/-- A session can have an error although its last call has collected a signature. -/
theorem exists_stale_error :
    let start : Session .java := {}
    ¬∀ calls : List SessionCall,
      (start.run calls).catalogue.errorMessage.isSome = SessionCall.endsInMiss .java calls := by
  intro start h
  let calls : List SessionCall := [.addUnit greeter (some "B"), .addUnit greeter none]
  have hcalls := h calls
  have herror : (start.run calls).catalogue.errorMessage =
      some "Cannot find inner class B in class: A" := by
    decide +kernel
  have hends : SessionCall.endsInMiss .java calls = false := by decide +kernel
  rw [herror, hends] at hcalls
  exact absurd hcalls (by decide)

end Session

end JavaSignatures
