import JavaSignatures.Proofs.Recording
import JavaSignatures.Session
import Mathlib.Data.List.Induction

set_option autoImplicit false

/-!
# Runs of a session

A run is any number of calls on one session.  What a call amounts to (`SessionCall.effect`) depends
on the reader of the session and on nothing that has been collected: it fails, it discards
everything, or it collects from one declaration.  A run leaves behind what its calls have collected
since the last one that discarded, and a call that fails is as if it had not been made.
-/

namespace JavaSignatures

/-! ## Calls -/

/-- A call on a session. -/
inductive SessionCall where
  | parse (source : String) (path : Option String)
  /-- parses a source text that comes in pieces -/
  | parseStream (stream : ByteStream) (path : Option String)
  /-- collects from declarations that have been read elsewhere -/
  | addUnit (root : Declaration) (path : Option String)
  | reset

variable {reader : SourceReader}

namespace SessionCall

/-- The session after a call that succeeds. -/
def attempt (session : Session reader) : SessionCall → Except SessionError (Session reader)
  | parse source path => session.parse source path
  | parseStream stream path => session.parseStream stream path
  | addUnit root path => .ok (session.addUnit root path)
  | reset => .ok session.reset

end SessionCall

namespace Session

/-- The session after a call; one that fails leaves it alone. -/
def step (session : Session reader) (call : SessionCall) : Session reader :=
  match call.attempt session with
  | .ok after => after
  | .error _ => session

/-- The session after calls. -/
def run (session : Session reader) (calls : List SessionCall) : Session reader :=
  calls.foldl step session

end Session

/-! ## What calls amount to -/

/-- What a call amounts to, whatever has been collected before it. -/
inductive SessionEffect where
  | fails (error : SessionError)
  /-- discards everything; what is said if it was for a path that leads nowhere -/
  | discards (message : Option String)
  /-- collects from a target in the file of the root -/
  | collects (root target : Declaration)

namespace SessionEffect

/-- What collecting from a file, or from the declaration that a path leads to, amounts to. -/
def ofUnit (root : Declaration) (path : Option String) : SessionEffect :=
  match path with
  | none => collects root root
  | some path =>
    match root.find? path with
    | some target => collects root target
    | none => discards (Catalogue.notFound path root).errorMessage

/-- What reading a source text amounts to. -/
def ofSource (reader : SourceReader) (source : String) (path : Option String) : SessionEffect :=
  match reader source with
  | .ok root => ofUnit root path
  | .error error => fails error

/-- The effect is a boundary: nothing that was collected before it is left behind it. -/
def isBoundary : SessionEffect → Bool
  | discards _ => true
  | _ => false

/-- The message that a boundary leaves behind. -/
def message? : SessionEffect → Option String
  | discards message => message
  | _ => none

/-- The root and the target of an effect that collects. -/
def target? : SessionEffect → Option (Declaration × Declaration)
  | collects root target => some (root, target)
  | _ => none

end SessionEffect

namespace SessionCall

/-- What the call amounts to. -/
def effect (reader : SourceReader) : SessionCall → SessionEffect
  | parse source path => .ofSource reader source path
  | parseStream stream path =>
    match stream.text with
    | .ok source => .ofSource reader source path
    | .error error => .fails (.noText error)
  | addUnit root path => .ofUnit root path
  | reset => .discards none

/-- The effects of the calls behind the last boundary, in order. -/
def sinceBoundary (reader : SourceReader) (calls : List SessionCall) : List SessionEffect :=
  ((calls.map (effect reader)).reverse.takeWhile fun effect => !effect.isBoundary).reverse

/-- The roots and targets collected from behind the last boundary, in order. -/
def targetsSince (reader : SourceReader) (calls : List SessionCall) :
    List (Declaration × Declaration) :=
  (sinceBoundary reader calls).filterMap SessionEffect.target?

/-- The message of the last boundary, if there is one and it has a message. -/
def messageAt (reader : SourceReader) (calls : List SessionCall) : Option String :=
  ((calls.map (effect reader)).reverse.find? SessionEffect.isBoundary).bind SessionEffect.message?

end SessionCall

namespace Catalogue

/-- What is collected from targets, starting from nothing: the name and the description of the last
one, and of each one in turn a signature for every method that its kind accepts. -/
def ofTargets (style : Style) (message : Option String)
    (targets : List (Declaration × Declaration)) : Catalogue :=
  let headed : Catalogue :=
    { className := targets.getLast?.map fun pair => pair.2.qualifiedName,
      apiDescription := (targets.getLast?.map fun pair => describe style pair.1 pair.2).getD "",
      errorMessage := message }
  headed.recordAll
    (targets.flatMap fun pair =>
      (pair.2.methods.filter pair.2.kind.accepts).map (Signature.ofMethod style pair.1 pair.2))

@[simp]
theorem ofTargets_nil (style : Style) (message : Option String) :
    ofTargets style message [] = { errorMessage := message } := rfl

/-- Recording does not look at what a declaration is called and how it is described. -/
theorem recordAll_headed (catalogue : Catalogue) (signatures : List Signature)
    (className : Option String) (description : String) :
    ({ catalogue with className := className, apiDescription := description } :
        Catalogue).recordAll signatures =
      { catalogue.recordAll signatures with
        className := className, apiDescription := description } := by
  induction signatures generalizing catalogue with
  | nil => rfl
  | cons signature rest ih => exact ih (catalogue.record signature)

/-- One more target is added to what the targets before it have left. -/
theorem ofTargets_concat (style : Style) (message : Option String)
    (targets : List (Declaration × Declaration)) (root target : Declaration) :
    ofTargets style message (targets ++ [(root, target)]) =
      (ofTargets style message targets).addTarget style root target := by
  simp only [ofTargets, addTarget, Signature.ofTarget, List.getLast?_concat, Option.map_some,
    Option.getD_some, List.flatMap_append, List.flatMap_singleton, recordAll_append,
    ← recordAll_headed]

end Catalogue

/-! ## One call -/

namespace SessionEffect

/-- What is in the catalogue behind an effect that does not fail. -/
def catalogue (style : Style) (before : Catalogue) : SessionEffect → Catalogue
  | fails _ => before
  | discards message => { errorMessage := message }
  | collects root target => before.addTarget style root target

theorem addUnit_eq_catalogue (style : Style) (before : Catalogue) (root : Declaration)
    (path : Option String) :
    before.addUnit style root path = (ofUnit root path).catalogue style before := by
  cases path with
  | none => rfl
  | some path => cases h : root.find? path <;> simp [Catalogue.addUnit, ofUnit, h, catalogue,
      Catalogue.notFound]

/-- Collecting from declarations never fails. -/
theorem ofUnit_ne_fails (root : Declaration) (path : Option String) (error : SessionError) :
    ofUnit root path ≠ fails error := by
  cases path with
  | none => simp [ofUnit]
  | some path => cases h : root.find? path <;> simp [ofUnit, h]

end SessionEffect

namespace SessionCall

theorem parse_eq_effect (session : Session reader) (source : String) (path : Option String) :
    session.parse source path =
      match SessionEffect.ofSource reader source path with
      | .fails error => .error error
      | effect =>
        .ok { session with catalogue := effect.catalogue session.style session.catalogue } := by
  cases h : reader source with
  | error error => simp [Session.parse, SessionEffect.ofSource, h]
  | ok root =>
    have hunit := SessionEffect.addUnit_eq_catalogue session.style session.catalogue root path
    cases he : SessionEffect.ofUnit root path with
    | fails error => exact absurd he (SessionEffect.ofUnit_ne_fails root path error)
    | discards message =>
      simp [Session.parse, SessionEffect.ofSource, h, he, Session.addUnit, hunit]
    | collects root target =>
      simp [Session.parse, SessionEffect.ofSource, h, he, Session.addUnit, hunit]

/-- What a call returns and leaves behind depends on the session only through what its effect does
to the catalogue. -/
theorem attempt_eq_effect (session : Session reader) (call : SessionCall) :
    call.attempt session =
      match call.effect reader with
      | .fails error => .error error
      | effect =>
        .ok { session with catalogue := effect.catalogue session.style session.catalogue } := by
  cases call with
  | parse source path => exact parse_eq_effect session source path
  | parseStream stream path =>
    cases h : stream.text with
    | error error => simp [attempt, effect, Session.parseStream, h]
    | ok source =>
      simp only [attempt, effect, Session.parseStream, h]
      exact parse_eq_effect session source path
  | addUnit root path =>
    have hunit := SessionEffect.addUnit_eq_catalogue session.style session.catalogue root path
    cases he : SessionEffect.ofUnit root path with
    | fails error => exact absurd he (SessionEffect.ofUnit_ne_fails root path error)
    | discards message => simp [attempt, effect, he, Session.addUnit, hunit]
    | collects root target => simp [attempt, effect, he, Session.addUnit, hunit]
  | reset => rfl

end SessionCall

namespace Session

theorem step_eq_effect (session : Session reader) (call : SessionCall) :
    session.step call =
      { session with
        catalogue := (call.effect reader).catalogue session.style session.catalogue } := by
  rw [step, SessionCall.attempt_eq_effect]
  cases call.effect reader <;> rfl

theorem run_concat (session : Session reader) (calls : List SessionCall) (call : SessionCall) :
    session.run (calls ++ [call]) = (session.run calls).step call := by
  simp [run]

theorem run_append (session : Session reader) (first second : List SessionCall) :
    session.run (first ++ second) = (session.run first).run second := by
  simp [run]

theorem style_run (session : Session reader) (calls : List SessionCall) :
    (session.run calls).style = session.style := by
  induction calls generalizing session with
  | nil => rfl
  | cons call rest ih =>
    have hstep : (session.step call).style = session.style := by rw [step_eq_effect]
    exact (ih (session.step call)).trans hstep

end Session

namespace SessionCall

/-- The last call decides: a boundary leaves nothing from before it, and any other call adds its own
target, if it has one. -/
theorem targetsSince_concat (calls : List SessionCall) (call : SessionCall) :
    targetsSince reader (calls ++ [call]) =
      if (call.effect reader).isBoundary then []
      else targetsSince reader calls ++ (call.effect reader).target?.toList := by
  cases h : call.effect reader <;>
    simp [targetsSince, sinceBoundary, h, SessionEffect.isBoundary, SessionEffect.target?]

theorem messageAt_concat (calls : List SessionCall) (call : SessionCall) :
    messageAt reader (calls ++ [call]) =
      if (call.effect reader).isBoundary then (call.effect reader).message?
      else messageAt reader calls := by
  cases h : call.effect reader <;>
    simp [messageAt, h, List.find?_cons, SessionEffect.isBoundary, SessionEffect.message?]

end SessionCall

namespace Session

/-- The invariant of a run: the catalogue holds what the targets behind the last boundary give. -/
theorem catalogue_run (reader : SourceReader) (style : Style) (calls : List SessionCall) :
    let start : Session reader := { style := style }
    (start.run calls).catalogue =
      Catalogue.ofTargets style (SessionCall.messageAt reader calls)
        (SessionCall.targetsSince reader calls) := by
  intro start
  -- the last call is split off, since a boundary makes everything before it irrelevant
  induction calls using List.reverseRecOn with
  | nil => rfl
  | append_singleton calls call ih =>
    have hstyle : (start.run calls).style = style := style_run start calls
    rw [run_concat, step_eq_effect, SessionCall.targetsSince_concat, SessionCall.messageAt_concat,
      hstyle]
    cases h : call.effect reader with
    | fails error =>
      simp [SessionEffect.catalogue, SessionEffect.isBoundary, SessionEffect.target?, ih]
    | discards message =>
      simp [SessionEffect.catalogue, SessionEffect.isBoundary, SessionEffect.message?]
    | collects root target =>
      simp [SessionEffect.catalogue, SessionEffect.isBoundary, SessionEffect.target?, ih,
        Catalogue.ofTargets_concat]

end Session

end JavaSignatures
