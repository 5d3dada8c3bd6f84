import JavaSignatures.Proofs.SessionRun
import JavaSignatures.SharedSession
import Mathlib.Logic.Function.Basic

set_option autoImplicit false

/-!
# Clients of a shared session

Any number of clients make calls on one shared session.  A client takes three steps for a call: it
gets the lock, it does the work, and it gives the lock back and returns.  A schedule, which is any
list of clients, says who takes the next step, so that the steps of different clients interleave in
every possible way.  A client that waits for the lock lets its steps pass.

However the steps interleave, the session and all answers are those of a session that is not shared
and gets the calls one after the other, in the order in which they got the lock
(`SharedSystem.run_serves`).  A call that is turned away is not among them.
-/

namespace JavaSignatures

variable {reader : SourceReader}

/-! ## Calls one after the other -/

namespace SharedCall

/-- The call on a session that is not shared.  Asking for the result is none, as it changes
nothing. -/
def sessionCall? : SharedCall → Option SessionCall
  | parse source path | tryParse source path => some (.parse source path)
  | reset => some .reset
  | result => none

/-- What the call returns on a session that is not shared. -/
def answer (session : Session reader) (call : SharedCall) : SharedAnswer :=
  match call.sessionCall? with
  | some call => (call.attempt session).map Session.catalogue
  | none => .ok session.catalogue

/-- The work under the lock is that on a session that is not shared. -/
theorem work_eq (call : SharedCall) (session : Session reader) :
    call.work session = (session.run call.sessionCall?.toList, call.answer session) := by
  have hparse : ∀ source path, (parse source path).work session =
      (session.step (.parse source path), (session.parse source path).map Session.catalogue) := by
    intro source path
    cases h : session.parse source path <;>
      simp [work, Session.step, SessionCall.attempt, h, Except.map]
  cases call with
  | parse source path => exact hparse source path
  | tryParse source path => exact hparse source path
  | reset => rfl
  | result => rfl

end SharedCall

/-- A call with the client that makes it. -/
structure ClientCall where
  client : Nat
  call : SharedCall
  deriving DecidableEq, Repr

namespace Session

/-- The session after the calls of clients, one after the other. -/
def afterCalls (session : Session reader) (calls : List ClientCall) : Session reader :=
  session.run (calls.filterMap fun turn => turn.call.sessionCall?)

/-- What the calls of clients return, one after the other. -/
def serve (session : Session reader) : List ClientCall → List (ClientCall × SharedAnswer)
  | [] => []
  | turn :: rest => (turn, turn.call.answer session) :: (session.afterCalls [turn]).serve rest

theorem afterCalls_append (session : Session reader) (first second : List ClientCall) :
    session.afterCalls (first ++ second) = (session.afterCalls first).afterCalls second := by
  rw [afterCalls, List.filterMap_append, run_append]
  rfl

theorem afterCalls_singleton (session : Session reader) (turn : ClientCall) :
    session.afterCalls [turn] = (turn.call.work session).1 := by
  rw [SharedCall.work_eq]
  unfold afterCalls
  cases h : turn.call.sessionCall? <;> simp [h]

theorem serve_concat (session : Session reader) (calls : List ClientCall) (turn : ClientCall) :
    session.serve (calls ++ [turn]) =
      session.serve calls ++ [(turn, turn.call.answer (session.afterCalls calls))] := by
  induction calls generalizing session with
  | nil => rfl
  | cons first rest ih =>
    have hfirst : session.afterCalls (first :: rest) =
        (session.afterCalls [first]).afterCalls rest := session.afterCalls_append [first] rest
    rw [List.cons_append, serve, serve, ih, hfirst, List.cons_append]

end Session

/-! ## Clients -/

/-- How far a client is with a call. -/
inductive SharedStage where
  /-- it makes no call, or its next one waits for the lock -/
  | idle
  /-- the call has got the lock -/
  | entered (call : SharedCall)
  /-- the call has done its work and holds the lock still -/
  | worked (call : SharedCall) (answer : SharedAnswer)

/-- A client with the calls that are still to get the lock. -/
structure SharedClient where
  calls : List SharedCall
  stage : SharedStage := .idle

/-- What is seen of a step. -/
inductive SharedEvent where
  /-- the call gets the lock -/
  | locked (turn : ClientCall)
  /-- the call is turned away and returns -/
  | refused (turn : ClientCall) (answer : SharedAnswer)
  /-- the call gives the lock back and returns -/
  | returned (turn : ClientCall) (answer : SharedAnswer)

namespace SharedEvent

/-- The call that gets the lock. -/
def locked? : SharedEvent → Option ClientCall
  | locked turn => some turn
  | _ => none

/-- What a call returns that has had the lock. -/
def returned? : SharedEvent → Option (ClientCall × SharedAnswer)
  | returned turn answer => some (turn, answer)
  | _ => none

/-- The event is that a call is turned away. -/
def isRefusal : SharedEvent → Bool
  | refused .. => true
  | _ => false

/-- The call that the client has begun: it gets the lock or is turned away. -/
def begun? (client : Nat) : SharedEvent → Option SharedCall
  | locked turn | refused turn _ => if turn.client = client then some turn.call else none
  | returned .. => none

end SharedEvent

/-- A shared session with its clients. -/
structure SharedSystem (reader : SourceReader) where
  shared : SharedSession reader
  clients : Nat → SharedClient

namespace SharedSystem

/-- A session that nobody holds, and the calls that each client is going to make. -/
def start (session : Session reader) (programs : Nat → List SharedCall) :
    SharedSystem reader where
  shared := { session := session }
  clients client := { calls := programs client }

/-- The system with another shared session and one client changed. -/
def put (system : SharedSystem reader) (shared : SharedSession reader) (client : Nat)
    (state : SharedClient) : SharedSystem reader where
  shared := shared
  clients := Function.update system.clients client state

/-- The next step of a client, and what is seen of it. -/
def step (system : SharedSystem reader) (client : Nat) :
    SharedSystem reader × Option SharedEvent :=
  let state := system.clients client
  match state.stage with
  | .idle =>
    match state.calls with
    | [] => (system, none)
    | call :: rest =>
      match system.shared.acquire? client with
      | some held => (system.put held client ⟨rest, .entered call⟩, some (.locked ⟨client, call⟩))
      | none =>
        if call.isTry then
          (system.put system.shared client ⟨rest, .idle⟩,
            some (.refused ⟨client, call⟩ (.error .busy)))
        else (system, none)
  | .entered call =>
    let (after, answer) := system.shared.perform call
    (system.put after client ⟨state.calls, .worked call answer⟩, none)
  | .worked call answer =>
    (system.put system.shared.release client ⟨state.calls, .idle⟩,
      some (.returned ⟨client, call⟩ answer))

/-- The system after the steps of a schedule. -/
def run (system : SharedSystem reader) (schedule : List Nat) : SharedSystem reader :=
  schedule.foldl (fun system client => (system.step client).1) system

/-- What is seen of the steps of a schedule, in order. -/
def history (system : SharedSystem reader) : List Nat → List SharedEvent
  | [] => []
  | client :: rest => (system.step client).2.toList ++ (system.step client).1.history rest

theorem run_concat (system : SharedSystem reader) (schedule : List Nat) (client : Nat) :
    system.run (schedule ++ [client]) = ((system.run schedule).step client).1 := by
  simp [run]

theorem history_concat (system : SharedSystem reader) (schedule : List Nat) (client : Nat) :
    system.history (schedule ++ [client]) =
      system.history schedule ++ ((system.run schedule).step client).2.toList := by
  induction schedule generalizing system with
  | nil => simp [history, run]
  | cons first rest ih =>
    rw [List.cons_append, history, history, ih, List.append_assoc]
    rfl

/-! ## One step -/

section Step

variable (system : SharedSystem reader) {client : Nat}

@[simp]
theorem clients_put_self (shared : SharedSession reader) (state : SharedClient) :
    (system.put shared client state).clients client = state := Function.update_self ..

theorem clients_put_of_ne (shared : SharedSession reader) (state : SharedClient) {other : Nat}
    (h : other ≠ client) :
    (system.put shared client state).clients other = system.clients other :=
  Function.update_of_ne h ..

variable {system} {call : SharedCall} {calls : List SharedCall} {answer : SharedAnswer}

theorem step_of_done (h : system.clients client = ⟨[], .idle⟩) :
    system.step client = (system, none) := by
  simp only [step, h]

theorem step_of_free (h : system.clients client = ⟨call :: calls, .idle⟩)
    (hfree : system.shared.holder = none) :
    system.step client =
      (system.put { system.shared with holder := some client } client ⟨calls, .entered call⟩,
        some (.locked ⟨client, call⟩)) := by
  simp only [step, h, SharedSession.acquire?, hfree]

theorem step_of_refused (h : system.clients client = ⟨call :: calls, .idle⟩) {holder : Nat}
    (hheld : system.shared.holder = some holder) (htry : call.isTry = true) :
    system.step client =
      (system.put system.shared client ⟨calls, .idle⟩,
        some (.refused ⟨client, call⟩ (.error .busy))) := by
  simp only [step, h, SharedSession.acquire?, hheld, htry, if_true]

theorem step_of_waiting (h : system.clients client = ⟨call :: calls, .idle⟩) {holder : Nat}
    (hheld : system.shared.holder = some holder) (htry : call.isTry = false) :
    system.step client = (system, none) := by
  simp only [step, h, SharedSession.acquire?, hheld, htry, Bool.false_eq_true, if_false]

theorem step_of_entered (h : system.clients client = ⟨calls, .entered call⟩) :
    system.step client =
      (system.put (system.shared.perform call).1 client
        ⟨calls, .worked call (system.shared.perform call).2⟩, none) := by
  simp only [step, h]

theorem step_of_worked (h : system.clients client = ⟨calls, .worked call answer⟩) :
    system.step client =
      (system.put system.shared.release client ⟨calls, .idle⟩,
        some (.returned ⟨client, call⟩ answer)) := by
  simp only [step, h]

/-- All that a step can be: the system behind it, and what is seen of it. -/
inductive Steps (system : SharedSystem reader) (client : Nat) :
    SharedSystem reader × Option SharedEvent → Prop
  /-- the client has no more calls, or waits -/
  | stays : Steps system client (system, none)
  | locks {call : SharedCall} {calls : List SharedCall}
    (hclient : system.clients client = ⟨call :: calls, .idle⟩)
    (hfree : system.shared.holder = none) :
    Steps system client
      (system.put { system.shared with holder := some client } client ⟨calls, .entered call⟩,
        some (.locked ⟨client, call⟩))
  | refuses {call : SharedCall} {calls : List SharedCall}
    (hclient : system.clients client = ⟨call :: calls, .idle⟩) {holder : Nat}
    (hheld : system.shared.holder = some holder) (htry : call.isTry = true) :
    Steps system client
      (system.put system.shared client ⟨calls, .idle⟩,
        some (.refused ⟨client, call⟩ (.error .busy)))
  | works {call : SharedCall} {calls : List SharedCall}
    (hclient : system.clients client = ⟨calls, .entered call⟩) :
    Steps system client
      (system.put (system.shared.perform call).1 client
        ⟨calls, .worked call (system.shared.perform call).2⟩, none)
  | returns {call : SharedCall} {calls : List SharedCall} {answer : SharedAnswer}
    (hclient : system.clients client = ⟨calls, .worked call answer⟩) :
    Steps system client
      (system.put system.shared.release client ⟨calls, .idle⟩,
        some (.returned ⟨client, call⟩ answer))

theorem steps_step (system : SharedSystem reader) (client : Nat) :
    Steps system client (system.step client) := by
  rcases hclient : system.clients client with ⟨calls, stage⟩
  cases stage with
  | entered call =>
    rw [step_of_entered hclient]
    exact .works hclient
  | worked call answer =>
    rw [step_of_worked hclient]
    exact .returns hclient
  | idle =>
    cases calls with
    | nil =>
      rw [step_of_done hclient]
      exact .stays
    | cons call calls =>
      cases hholder : system.shared.holder with
      | none =>
        rw [step_of_free hclient hholder]
        exact .locks hclient hholder
      | some holder =>
        cases htry : call.isTry with
        | true =>
          rw [step_of_refused hclient hholder htry]
          exact .refuses hclient hholder htry
        | false =>
          rw [step_of_waiting hclient hholder htry]
          exact .stays

/-- A client that takes its three steps without a break makes its call in one go. -/
theorem run?_eq_steps (h : system.clients client = ⟨call :: calls, .idle⟩)
    (hfree : system.shared.holder = none) :
    ∃ answer, system.shared.run? client call =
        some ((system.run [client, client, client]).shared, answer) ∧
      system.history [client, client, client] =
        [.locked ⟨client, call⟩, .returned ⟨client, call⟩ answer] := by
  let held : SharedSession reader := { system.shared with holder := some client }
  let locked : SharedSystem reader := system.put held client ⟨calls, .entered call⟩
  let worked : SharedSystem reader :=
    locked.put (held.perform call).1 client ⟨calls, .worked call (held.perform call).2⟩
  have hlocks : system.step client = (locked, some (.locked ⟨client, call⟩)) :=
    step_of_free h hfree
  have hworks : locked.step client = (worked, none) :=
    step_of_entered (clients_put_self ..)
  have hreturns : worked.step client =
      (worked.put (held.perform call).1.release client ⟨calls, .idle⟩,
        some (.returned ⟨client, call⟩ (held.perform call).2)) :=
    step_of_worked (clients_put_self ..)
  have hacquire : system.shared.acquire? client = some held := by
    rw [SharedSession.acquire?, hfree]
  refine ⟨(held.perform call).2, ?_, ?_⟩
  · simp only [run, List.foldl_cons, List.foldl_nil, hlocks, hworks, hreturns, SharedSession.run?,
      hacquire]
    rfl
  · simp only [history, hlocks, hworks, hreturns]
    rfl

end Step

/-! ## All steps -/

/-- The session is as after the calls of `order` one after the other, except that the last of them
may still hold the lock; `done` are the calls that have returned. -/
inductive InTurn (session : Session reader) (system : SharedSystem reader)
    (done : List ClientCall) : (order : List ClientCall) → Prop
  /-- nobody holds the lock -/
  | free (hholder : system.shared.holder = none)
    (hsession : system.shared.session = session.afterCalls done)
    (hidle : ∀ client, (system.clients client).stage = .idle) :
    InTurn session system done done
  /-- the last call has got the lock -/
  | entered (turn : ClientCall) (hholder : system.shared.holder = some turn.client)
    (hsession : system.shared.session = session.afterCalls done)
    (hstage : (system.clients turn.client).stage = .entered turn.call)
    (hidle : ∀ client, client ≠ turn.client → (system.clients client).stage = .idle) :
    InTurn session system done (done ++ [turn])
  /-- the last call has done its work and holds the lock -/
  | worked (turn : ClientCall) (hholder : system.shared.holder = some turn.client)
    (hsession : system.shared.session = session.afterCalls (done ++ [turn]))
    (hstage : (system.clients turn.client).stage =
      .worked turn.call (turn.call.answer (session.afterCalls done)))
    (hidle : ∀ client, client ≠ turn.client → (system.clients client).stage = .idle) :
    InTurn session system done (done ++ [turn])

/-- What has returned is what calls return that are made one after the other, and the session is
where the calls with the lock have got it. -/
def Serves (session : Session reader) (system : SharedSystem reader)
    (events : List SharedEvent) : Prop :=
  ∃ done, events.filterMap SharedEvent.returned? = session.serve done ∧
    InTurn session system done (events.filterMap SharedEvent.locked?)

section Invariant

variable {session : Session reader} {system : SharedSystem reader} {client : Nat}

theorem stage_put (shared : SharedSession reader) (state : SharedClient) (other : Nat) :
    ((system.put shared client state).clients other).stage =
      if other = client then state.stage else (system.clients other).stage := by
  split
  · next h =>
    subst h
    rw [clients_put_self]
  · next h => rw [clients_put_of_ne _ _ _ h]

theorem InTurn.of_free {done order : List ClientCall} (h : InTurn session system done order)
    (hfree : system.shared.holder = none) :
    order = done ∧ system.shared.session = session.afterCalls done ∧
      ∀ client, (system.clients client).stage = .idle := by
  cases h with
  | free hholder hsession hidle => exact ⟨rfl, hsession, hidle⟩
  | entered turn hholder => exact absurd (hfree.symm.trans hholder) (by simp)
  | worked turn hholder => exact absurd (hfree.symm.trans hholder) (by simp)

theorem eq_of_not_idle {holder : Nat}
    (hidle : ∀ client, client ≠ holder → (system.clients client).stage = .idle)
    (hstage : (system.clients client).stage ≠ .idle) : client = holder := by
  by_contra hne
  exact hstage (hidle client hne)

/-- Only who holds the lock is at work. -/
theorem InTurn.of_entered {done order : List ClientCall} (h : InTurn session system done order)
    {call : SharedCall} (hstage : (system.clients client).stage = .entered call) :
    order = done ++ [⟨client, call⟩] ∧ system.shared.holder = some client ∧
      system.shared.session = session.afterCalls done ∧
      ∀ other, other ≠ client → (system.clients other).stage = .idle := by
  cases h with
  | free hholder hsession hidle => exact absurd (hstage.symm.trans (hidle client)) (by simp)
  | entered turn hholder hsession hturn hidle =>
    obtain rfl := eq_of_not_idle hidle (by rw [hstage]; simp)
    obtain rfl := SharedStage.entered.inj (hstage.symm.trans hturn)
    exact ⟨rfl, hholder, hsession, hidle⟩
  | worked turn hholder hsession hturn hidle =>
    obtain rfl := eq_of_not_idle hidle (by rw [hstage]; simp)
    exact absurd (hstage.symm.trans hturn) (by simp)

/-- Who has done its work has the answer of a session that is not shared. -/
theorem InTurn.of_worked {done order : List ClientCall} (h : InTurn session system done order)
    {call : SharedCall} {answer : SharedAnswer}
    (hstage : (system.clients client).stage = .worked call answer) :
    order = done ++ [⟨client, call⟩] ∧ answer = call.answer (session.afterCalls done) ∧
      system.shared.session = session.afterCalls (done ++ [⟨client, call⟩]) ∧
      ∀ other, other ≠ client → (system.clients other).stage = .idle := by
  cases h with
  | free hholder hsession hidle => exact absurd (hstage.symm.trans (hidle client)) (by simp)
  | entered turn hholder hsession hturn hidle =>
    obtain rfl := eq_of_not_idle hidle (by rw [hstage]; simp)
    exact absurd (hstage.symm.trans hturn) (by simp)
  | worked turn hholder hsession hturn hidle =>
    obtain rfl := eq_of_not_idle hidle (by rw [hstage]; simp)
    obtain ⟨rfl, rfl⟩ := SharedStage.worked.inj (hstage.symm.trans hturn)
    exact ⟨rfl, rfl, hsession, hidle⟩

/-- Clients that stay at their stages do not matter. -/
theorem InTurn.of_stages {done order : List ClientCall} (h : InTurn session system done order)
    {after : SharedSystem reader} (hshared : after.shared = system.shared)
    (hstages : ∀ client, (after.clients client).stage = (system.clients client).stage) :
    InTurn session after done order := by
  cases h with
  | free hholder hsession hidle =>
    exact .free (by rw [hshared, hholder]) (by rw [hshared, hsession])
      fun client => (hstages client).trans (hidle client)
  | entered turn hholder hsession hstage hidle =>
    exact .entered turn (by rw [hshared, hholder]) (by rw [hshared, hsession])
      ((hstages _).trans hstage) fun client hne => (hstages client).trans (hidle client hne)
  | worked turn hholder hsession hstage hidle =>
    exact .worked turn (by rw [hshared, hholder]) (by rw [hshared, hsession])
      ((hstages _).trans hstage) fun client hne => (hstages client).trans (hidle client hne)

/-- Every step of every client keeps the calls in turn. -/
theorem Serves.step {events : List SharedEvent} (h : Serves session system events) (client : Nat) :
    Serves session (system.step client).1 (events ++ (system.step client).2.toList) := by
  obtain ⟨done, hreturned, hturn⟩ := h
  have hsteps := steps_step system client
  unfold Serves
  rw [List.filterMap_append, List.filterMap_append, hreturned]
  generalize system.step client = stepped at hsteps ⊢
  cases hsteps with
  | stays => exact ⟨done, by simp, by simpa using hturn⟩
  | @locks call calls hclient hfree =>
    obtain ⟨horder, hsession, hidle⟩ := hturn.of_free hfree
    refine ⟨done, by simp [SharedEvent.returned?], ?_⟩
    rw [horder]
    refine .entered ⟨client, call⟩ rfl hsession ?_ fun other hne => ?_
    · rw [stage_put, if_pos rfl]
    · rw [stage_put, if_neg hne, hidle]
  | @refuses call calls hclient holder hheld htry =>
    refine ⟨done, by simp [SharedEvent.returned?], ?_⟩
    have hstages : ∀ other, ((system.put system.shared client ⟨calls, .idle⟩).clients other).stage =
        (system.clients other).stage := by
      intro other
      rw [stage_put]
      split
      · next h => rw [h, hclient]
      · rfl
    change InTurn session _ done (events.filterMap SharedEvent.locked? ++ [])
    rw [List.append_nil]
    exact hturn.of_stages rfl hstages
  | @works call calls hclient =>
    have hstage : (system.clients client).stage = .entered call := by rw [hclient]
    obtain ⟨horder, hholder, hsession, hidle⟩ := hturn.of_entered hstage
    refine ⟨done, by simp, ?_⟩
    rw [horder, Option.toList_none, List.filterMap_nil, List.append_nil]
    refine .worked ⟨client, call⟩ hholder ?_ ?_ fun other hne => ?_
    · rw [Session.afterCalls_append, Session.afterCalls_singleton, ← hsession]
      rfl
    · rw [stage_put, if_pos rfl, ← hsession]
      exact congrArg (SharedStage.worked call) (congrArg Prod.snd (call.work_eq _))
    · rw [stage_put, if_neg hne, hidle other hne]
  | @returns call calls answer hclient =>
    have hstage : (system.clients client).stage = .worked call answer := by rw [hclient]
    obtain ⟨horder, hanswer, hsession, hidle⟩ := hturn.of_worked hstage
    refine ⟨done ++ [⟨client, call⟩], ?_, ?_⟩
    · rw [Session.serve_concat, hanswer]
      rfl
    · rw [horder]
      simp only [Option.toList_some, List.filterMap_cons, SharedEvent.locked?, List.filterMap_nil,
        List.append_nil]
      refine .free rfl hsession fun other => ?_
      rw [stage_put]
      split
      · rfl
      · next hne => exact hidle other hne

end Invariant

theorem serves_run (session : Session reader) (programs : Nat → List SharedCall)
    (schedule : List Nat) :
    Serves session ((start session programs).run schedule)
      ((start session programs).history schedule) := by
  induction schedule using List.reverseRecOn with
  | nil => exact ⟨[], rfl, .free rfl rfl fun client => rfl⟩
  | append_singleton schedule client ih =>
    rw [run_concat, history_concat]
    exact ih.step client

/-! ## Calls in the order of each client -/

/-- What a client has begun and what it is going to begin. -/
theorem begun_step (system : SharedSystem reader) (client other : Nat) :
    (system.step client).2.toList.filterMap (SharedEvent.begun? other) ++
        ((system.step client).1.clients other).calls =
      (system.clients other).calls := by
  have hsteps := steps_step system client
  generalize system.step client = stepped at hsteps ⊢
  by_cases hother : client = other
  · subst hother
    cases hsteps with
    | stays => rfl
    | locks hclient hfree => simp [SharedEvent.begun?, hclient]
    | refuses hclient hheld htry => simp [SharedEvent.begun?, hclient]
    | works hclient => simp [hclient]
    | returns hclient => simp [SharedEvent.begun?, hclient]
  · have hne : other ≠ client := fun h => hother h.symm
    cases hsteps with
    | stays => rfl
    | locks hclient hfree => simp [SharedEvent.begun?, hother, clients_put_of_ne _ _ _ hne]
    | refuses hclient hheld htry =>
      simp [SharedEvent.begun?, hother, clients_put_of_ne _ _ _ hne]
    | works hclient => simp [clients_put_of_ne _ _ _ hne]
    | returns hclient => simp [SharedEvent.begun?, clients_put_of_ne _ _ _ hne]

theorem begun_history (system : SharedSystem reader) (schedule : List Nat) (client : Nat) :
    (system.history schedule).filterMap (SharedEvent.begun? client) ++
        ((system.run schedule).clients client).calls =
      (system.clients client).calls := by
  induction schedule generalizing system with
  | nil => rfl
  | cons first rest ih =>
    have hrun : system.run (first :: rest) = (system.step first).1.run rest := rfl
    rw [history, hrun, List.filterMap_append, List.append_assoc, ih, begun_step]

/-! ## Calls that are turned away -/

theorem refused_step {system : SharedSystem reader} {client : Nat} {turn : ClientCall}
    {answer : SharedAnswer} (h : (system.step client).2 = some (.refused turn answer)) :
    turn.call.isTry = true ∧ answer = .error .busy := by
  have hsteps := steps_step system client
  generalize system.step client = stepped at hsteps h
  cases hsteps with
  | refuses hclient hheld htry =>
    obtain ⟨rfl, rfl⟩ := SharedEvent.refused.inj (Option.some.inj h)
    exact ⟨htry, rfl⟩
  | _ => exact absurd h (by simp)

theorem refused_history {system : SharedSystem reader} {schedule : List Nat} {turn : ClientCall}
    {answer : SharedAnswer} (h : .refused turn answer ∈ system.history schedule) :
    turn.call.isTry = true ∧ answer = .error .busy := by
  induction schedule generalizing system with
  | nil => exact absurd h List.not_mem_nil
  | cons client rest ih =>
    rw [history, List.mem_append, Option.mem_toList] at h
    rcases h with h | h
    · exact refused_step h
    · exact ih h

/-- The system with other calls to be made. -/
def withCalls (system : SharedSystem reader) (calls : Nat → List SharedCall) :
    SharedSystem reader where
  shared := system.shared
  clients client := ⟨calls client, (system.clients client).stage⟩

theorem withCalls_put (system : SharedSystem reader) (shared : SharedSession reader) (client : Nat)
    (state : SharedClient) (calls : Nat → List SharedCall) :
    (system.put shared client state).withCalls calls =
      (system.withCalls calls).put shared client ⟨calls client, state.stage⟩ := by
  unfold withCalls put
  congr 1
  funext other
  by_cases h : other = client
  · subst h
    simp
  · simp [Function.update_of_ne h]

theorem withCalls_put_of_stage (system : SharedSystem reader) {client : Nat} {state : SharedClient}
    (h : state.stage = (system.clients client).stage) (calls : Nat → List SharedCall) :
    (system.put system.shared client state).withCalls calls = system.withCalls calls := by
  rw [withCalls_put, h]
  unfold withCalls put
  rw [Function.update_eq_self]

theorem put_withCalls_update (system : SharedSystem reader) (calls : Nat → List SharedCall)
    (client : Nat) (more : List SharedCall) (shared : SharedSession reader) (state : SharedClient) :
    (system.withCalls (Function.update calls client more)).put shared client state =
      (system.withCalls calls).put shared client state := by
  unfold withCalls put
  congr 1
  funext other
  by_cases h : other = client
  · subst h
    simp
  · simp [Function.update_of_ne h]

/-- Fewer calls than behind a step are fewer than in front of it, if they are so for the client that
takes it. -/
theorem sublist_of_put {system : SharedSystem reader} {shared : SharedSession reader} {client : Nat}
    {state : SharedClient} {calls fewer : Nat → List SharedCall}
    (hcalls : ∀ other,
      (calls other).Sublist ((system.put shared client state).clients other).calls)
    (hothers : ∀ other, other ≠ client → fewer other = calls other)
    (hclient : (fewer client).Sublist (system.clients client).calls) (other : Nat) :
    (fewer other).Sublist (system.clients other).calls := by
  by_cases h : other = client
  · rwa [h]
  · have hother := hcalls other
    rw [clients_put_of_ne _ _ _ h] at hother
    rwa [hothers other h]

/-- Without the calls that are turned away, and without the steps of waiting, all else is the
same. -/
theorem exists_without_refusals (system : SharedSystem reader) (schedule : List Nat) :
    ∃ (calls : Nat → List SharedCall) (shorter : List Nat),
      (∀ client, (calls client).Sublist (system.clients client).calls) ∧
        shorter.Sublist schedule ∧
        (system.withCalls calls).history shorter =
          (system.history schedule).filter (fun event => !event.isRefusal) ∧
        ((system.withCalls calls).run shorter).shared = (system.run schedule).shared := by
  induction schedule generalizing system with
  | nil =>
    exact ⟨fun client => (system.clients client).calls, [], fun _ => .refl _, .slnil, rfl, rfl⟩
  | cons client rest ih =>
    obtain ⟨calls, shorter, hcalls, hshorter, hhistory, hshared⟩ := ih (system.step client).1
    have hrun : system.run (client :: rest) = (system.step client).1.run rest := rfl
    rw [history, hrun, List.filter_append, ← hhistory, ← hshared]
    -- a step that is kept leads from the system with fewer calls to its successor with fewer calls
    have hkeep : ∀ {fewer : Nat → List SharedCall} {event : Option SharedEvent},
        (system.withCalls fewer).step client = ((system.step client).1.withCalls calls, event) →
        (system.withCalls fewer).history (client :: shorter) =
            event.toList ++ ((system.step client).1.withCalls calls).history shorter ∧
          (system.withCalls fewer).run (client :: shorter) =
            ((system.step client).1.withCalls calls).run shorter := by
      intro fewer event hstep
      exact ⟨by rw [history, hstep], by rw [run, List.foldl_cons, hstep]; rfl⟩
    have hsteps := steps_step system client
    generalize system.step client = stepped at hsteps hcalls hkeep ⊢
    cases hsteps with
    | stays => exact ⟨calls, shorter, hcalls, hshorter.cons _, rfl, rfl⟩
    | @refuses call more hclient holder hheld htry =>
      have hmore : (calls client).Sublist more := by simpa using hcalls client
      have hstage : (⟨more, .idle⟩ : SharedClient).stage = (system.clients client).stage := by
        rw [hclient]
      have hsame := system.withCalls_put_of_stage hstage calls
      refine ⟨calls, shorter, sublist_of_put hcalls (fun _ _ => rfl) ?_, hshorter.cons _,
        by rw [hsame]; rfl, by rw [hsame]⟩
      rw [hclient]
      exact hmore.cons call
    | @locks call more hclient hfree =>
      have hmore : (calls client).Sublist more := by simpa using hcalls client
      have hfewer : (system.withCalls (Function.update calls client (call :: calls client))).clients
          client = ⟨call :: calls client, .idle⟩ := by
        simp [withCalls, hclient]
      have hstep := step_of_free hfewer hfree
      rw [put_withCalls_update] at hstep
      obtain ⟨hseen, hruns⟩ := hkeep (hstep.trans (by rw [withCalls_put]; rfl))
      refine ⟨_, client :: shorter,
        sublist_of_put hcalls (fun other h => Function.update_of_ne h ..) ?_,
        hshorter.cons_cons _, hseen, congrArg _ hruns⟩
      rw [hclient, Function.update_self]
      exact hmore.cons_cons call
    | @works call more hclient =>
      have hmore : (calls client).Sublist more := by simpa using hcalls client
      have hfewer : (system.withCalls calls).clients client = ⟨calls client, .entered call⟩ := by
        simp [withCalls, hclient]
      obtain ⟨hseen, hruns⟩ :=
        hkeep ((step_of_entered hfewer).trans (by rw [withCalls_put]; rfl))
      refine ⟨calls, client :: shorter, sublist_of_put hcalls (fun _ _ => rfl) ?_,
        hshorter.cons_cons _, hseen, congrArg _ hruns⟩
      rwa [hclient]
    | @returns call more answer hclient =>
      have hmore : (calls client).Sublist more := by simpa using hcalls client
      have hfewer : (system.withCalls calls).clients client =
          ⟨calls client, .worked call answer⟩ := by
        simp [withCalls, hclient]
      obtain ⟨hseen, hruns⟩ :=
        hkeep ((step_of_worked hfewer).trans (by rw [withCalls_put]; rfl))
      refine ⟨calls, client :: shorter, sublist_of_put hcalls (fun _ _ => rfl) ?_,
        hshorter.cons_cons _, hseen, congrArg _ hruns⟩
      rwa [hclient]

/-! ## Every interleaving -/

/-- However the steps of the clients interleave, the calls with the lock return, and leave the
session, as if they were made one after the other on a session that is not shared, in the order in
which they got the lock.  Each client makes its calls in order.  A call that finds the lock taken
and does not wait is turned away at once; without those that are turned away, all other calls return
the same and the session is the same. -/
theorem run_serves (session : Session reader) (programs : Nat → List SharedCall)
    (schedule : List Nat) :
    let first := start session programs
    let last := first.run schedule
    let events := first.history schedule
    (∃ done, events.filterMap SharedEvent.returned? = session.serve done ∧
        InTurn session last done (events.filterMap SharedEvent.locked?)) ∧
      (∀ client, events.filterMap (SharedEvent.begun? client) ++ (last.clients client).calls =
        programs client) ∧
      (∀ turn answer, .refused turn answer ∈ events →
        turn.call.isTry = true ∧ answer = .error .busy) ∧
      (∀ client call calls, last.clients client = ⟨call :: calls, .idle⟩ → call.isTry = true →
        last.shared.holder ≠ none →
          last.step client = (last.put last.shared client ⟨calls, .idle⟩,
            some (.refused ⟨client, call⟩ (.error .busy)))) ∧
      ∃ (fewer : Nat → List SharedCall) (shorter : List Nat),
        (∀ client, (fewer client).Sublist (programs client)) ∧ shorter.Sublist schedule ∧
          (start session fewer).history shorter =
            events.filter (fun event => !event.isRefusal) ∧
          ((start session fewer).run shorter).shared = last.shared := by
  intro first last events
  refine ⟨serves_run session programs schedule, begun_history first schedule, ?_, ?_, ?_⟩
  · intro turn answer hmem
    exact refused_history hmem
  · intro client call calls hclient htry hheld
    obtain ⟨holder, hholder⟩ := Option.ne_none_iff_exists'.mp hheld
    exact step_of_refused hclient hholder htry
  · obtain ⟨fewer, shorter, hfewer, hshorter, hhistory, hshared⟩ :=
      exists_without_refusals first schedule
    exact ⟨fewer, shorter, hfewer, hshorter, hhistory, hshared⟩

/-- A client that parses, one that tries to while the lock is taken and then asks for the result,
and one that waits for the lock and parses a text without a type. -/
def threePrograms : Nat → List SharedCall
  | 0 => [.parse "class A { }" none]
  | 1 => [.tryParse "class B { }" none, .result]
  | 2 => [.parse "" none]
  | _ => []

/-- Who takes a step when: the second client comes in the middle of the first call, and the third
one waits. -/
def threeSchedule : List Nat := [0, 1, 0, 2, 0, 2, 1, 2, 2, 1, 1, 1]

/-- The order in which the calls of the three clients get the lock. -/
def threeOrder : List ClientCall :=
  [⟨0, .parse "class A { }" none⟩, ⟨2, .parse "" none⟩, ⟨1, .result⟩]

/-- The client that tries is turned away in the middle of the first call, and what it asks for
behind the failed call is what the first one has left. -/
theorem run_serves_threePrograms :
    let session : Session .java := {}
    let events := (start session threePrograms).history threeSchedule
    events.filterMap SharedEvent.returned? = session.serve threeOrder ∧
      ((start session threePrograms).run threeSchedule).shared.session =
        session.afterCalls threeOrder ∧
      events.countP SharedEvent.isRefusal = 1 ∧
      (session.serve threeOrder).map (fun (turn, answer) =>
        (turn.client, answer.toOption.bind Catalogue.className)) =
          [(0, some "A"), (2, none), (1, some "A")] := by
  intro session events
  obtain ⟨⟨done, hreturned, hturn⟩, -⟩ := run_serves session threePrograms threeSchedule
  have horder : ((start session threePrograms).history threeSchedule).filterMap
      SharedEvent.locked? = threeOrder := by
    decide +kernel
  have hfree : ((start session threePrograms).run threeSchedule).shared.holder = none := by
    decide +kernel
  rw [horder] at hturn
  obtain ⟨hdone, hsession, -⟩ := hturn.of_free hfree
  rw [← hdone] at hreturned hsession
  exact ⟨hreturned, hsession, by decide +kernel, by decide +kernel⟩

end SharedSystem

end JavaSignatures
