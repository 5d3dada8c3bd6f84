import JavaSignatures.Session

set_option autoImplicit false

/-!
# Shared sessions

A session that several clients call.  A call takes the lock, does its work on the session and gives
the lock back, in three separate steps; between the first and the last no other call gets the lock.
A call that finds the lock taken waits, except for the one that only tries: it is turned away at
once and changes nothing.
-/

namespace JavaSignatures

/-- A call on a shared session. -/
inductive SharedCall where
  | parse (source : String) (path : Option String)
  /-- parses unless the lock is taken -/
  | tryParse (source : String) (path : Option String)
  | reset
  | result
  deriving DecidableEq, Repr, Inhabited

/-- What a call returns. -/
abbrev SharedAnswer := Except SessionError Catalogue

/-- A session with the client that holds its lock. -/
structure SharedSession (reader : SourceReader) where
  session : Session reader
  holder : Option Nat := none
  deriving Inhabited

section Reader

variable {reader : SourceReader}

namespace SharedCall

/-- The work of a call on the session that it has locked. -/
def work (call : SharedCall) (session : Session reader) : Session reader × SharedAnswer :=
  match call with
  | .parse source path | .tryParse source path =>
    match session.parse source path with
    | .ok after => (after, .ok after.catalogue)
    | .error error => (session, .error error)
  | .reset => (session.reset, .ok session.reset.catalogue)
  | .result => (session, .ok session.catalogue)

/-- The call does not wait for the lock. -/
def isTry : SharedCall → Bool
  | .tryParse .. => true
  | _ => false

end SharedCall

namespace SharedSession

/-- Takes the lock, if it is free. -/
def acquire? (shared : SharedSession reader) (client : Nat) : Option (SharedSession reader) :=
  match shared.holder with
  | none => some { shared with holder := some client }
  | some _ => none

/-- Does the work of a call. -/
def perform (shared : SharedSession reader) (call : SharedCall) :
    SharedSession reader × SharedAnswer :=
  let (session, answer) := call.work shared.session
  ({ shared with session := session }, answer)

/-- Gives the lock back. -/
def release (shared : SharedSession reader) : SharedSession reader := { shared with holder := none }

/-- The three steps of a call in one go.  A call that has to wait returns nothing yet. -/
def run? (shared : SharedSession reader) (client : Nat) (call : SharedCall) :
    Option (SharedSession reader × SharedAnswer) :=
  match shared.acquire? client with
  | some held =>
    let (after, answer) := held.perform call
    some (after.release, answer)
  | none => if call.isTry then some (shared, .error .busy) else none

end SharedSession

end Reader

end JavaSignatures
