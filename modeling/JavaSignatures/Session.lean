import JavaSignatures.Catalogue
import JavaSignatures.Files.Access
import JavaSignatures.Source.Elaboration

set_option autoImplicit false

/-!
# Sessions

A session reads source files one after the other and keeps what it has collected in a catalogue.
How a source text is read into declarations is settled when the session is made: Java is read by
`SourceReader.java`, and any other reader will do.  A call that fails leaves the session as it was.
-/

namespace JavaSignatures

/-- Why a call on a session fails. -/
inductive SessionError where
  /-- the grammar of the language cannot be loaded -/
  | noGrammar (reason : String)
  /-- the source text cannot be read as declarations -/
  | unreadable (reason : String)
  /-- the bytes of a source cannot be read, or they are no text -/
  | noText (error : FileError)
  /-- another call holds the session -/
  | busy
  deriving DecidableEq, Repr, Inhabited

namespace SessionError

/-- What is said of the failure. -/
def message : SessionError → String
  | noGrammar reason => "Failed to load Java grammar: " ++ reason
  | unreadable reason => "Syntax error: " ++ reason
  | noText error => "IO error: " ++ error.message
  | busy => "Session is busy with another parse"

end SessionError

/-- Reads a source text into the declaration that it is about. -/
abbrev SourceReader := String → Except SessionError Declaration

/-- Reads Java. -/
def SourceReader.java : SourceReader := fun source =>
  match Source.parse source with
  | .ok root => .ok root
  | .error fault => .error (.unreadable fault.reason)

theorem SourceReader.java_eq_ok_iff {source : String} {root : Declaration} :
    SourceReader.java source = .ok root ↔ Source.parse source = .ok root := by
  cases h : Source.parse source <;> simp [SourceReader.java, h]

/-- The style of the signatures and what has been collected so far.  All source texts are read by
one reader. -/
structure Session (reader : SourceReader) where
  style : Style := {}
  catalogue : Catalogue := {}
  deriving Inhabited

namespace Session

variable {reader : SourceReader}

/-- Collects from declarations that have been read elsewhere; `path` leads to a nested one. -/
def addUnit (session : Session reader) (root : Declaration) (path : Option String) :
    Session reader :=
  { session with catalogue := session.catalogue.addUnit session.style root path }

/-- Reads a source text and collects from it. -/
def parse (session : Session reader) (source : String) (path : Option String) :
    Except SessionError (Session reader) :=
  match reader source with
  | .ok root => .ok (session.addUnit root path)
  | .error error => .error error

/-- Reads a source text from a stream and collects from it. -/
def parseStream (session : Session reader) (stream : ByteStream) (path : Option String) :
    Except SessionError (Session reader) :=
  match stream.text with
  | .ok source => session.parse source path
  | .error error => .error (.noText error)

/-- Reads a source text from its bytes and collects from it. -/
def parseBytes (session : Session reader) (bytes : ByteArray) (path : Option String) :
    Except SessionError (Session reader) :=
  session.parseStream (.ofBytes bytes) path

/-- Discards what has been collected. -/
def reset (session : Session reader) : Session reader := { session with catalogue := .empty }

/-- A session that reads Java fails where the source text declares nothing. -/
theorem parse_java (session : Session .java) (source : String) (path : Option String) :
    session.parse source path =
      match Source.parse source with
      | .ok root => .ok (session.addUnit root path)
      | .error fault => .error (.unreadable fault.reason) := by
  cases h : Source.parse source <;> simp [parse, SourceReader.java, h]

/-- The bytes of a text are read like the text. -/
theorem parseBytes_toUTF8 (session : Session reader) (source : String) (path : Option String) :
    session.parseBytes source.toUTF8 path = session.parse source path := by
  rw [parseBytes, parseStream, ByteStream.text_ofBytes, decodeText_toUTF8]

end Session

end JavaSignatures
