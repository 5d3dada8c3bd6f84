set_option autoImplicit false

/-!
# Files: access

What a command knows of the files around it: the content that a path leads to, or why there is
none.  Content need not come at once: a stream gives it in pieces, one with each read.
-/

namespace JavaSignatures

/-- Why a path or a stream gives no text. -/
inductive FileError where
  | notFound
  /-- a part of the path leads on from something that is no directory -/
  | notDirectory
  | isDirectory
  | nameTooLong
  /-- the path holds the character that ends all paths -/
  | nulInName
  /-- the bytes are no text -/
  | notText
  | other (reason : String)
  deriving DecidableEq, Repr, Inhabited

namespace FileError

/-- What is said of the failure. -/
def message : FileError → String
  | notFound => "No such file or directory (os error 2)"
  | notDirectory => "Not a directory (os error 20)"
  | isDirectory => "Is a directory (os error 21)"
  | nameTooLong => "File name too long (os error 36)"
  | nulInName => "file name contained an unexpected NUL byte"
  | notText => "stream did not contain valid UTF-8"
  | other reason => reason

end FileError

/-- The text that bytes are the encoding of. -/
def decodeText (bytes : ByteArray) : Except FileError String :=
  match String.fromUTF8? bytes with
  | some text => .ok text
  | none => .error .notText

/-- A text is read back from its bytes. -/
theorem decodeText_toUTF8 (text : String) : decodeText text.toUTF8 = .ok text := by
  have htext : String.fromUTF8? text.toUTF8 = some text := dif_pos text.isValidUTF8
  rw [decodeText, htext]

/-! ## Files -/

/-- The files that can be read. -/
structure Files where
  /-- the content of the file that a path leads to -/
  read : String → Except FileError ByteArray

namespace Files

/-- The text of the file that a path leads to. -/
def readText (files : Files) (path : String) : Except FileError String :=
  match files.read path with
  | .error error => .error error
  | .ok bytes => decodeText bytes

theorem readText_congr {files others : Files} {path : String}
    (h : files.read path = others.read path) : files.readText path = others.readText path := by
  simp only [readText, h]

end Files

/-! ## Streams -/

/-- What the reads of a stream give, one after the other.  An empty piece is the end, as is the end
of the list; what is behind it, or behind a read that fails, is not read. -/
structure ByteStream where
  reads : List (Except FileError ByteArray)

namespace ByteStream

/-- The stream that gives all its bytes at once. -/
def ofBytes (bytes : ByteArray) : ByteStream := ⟨[.ok bytes]⟩

/-- The bytes that reads give up to the end, unless one of them fails. -/
def collect : List (Except FileError ByteArray) → Except FileError ByteArray
  | [] => .ok .empty
  | .error error :: _ => .error error
  | .ok piece :: rest =>
    if piece.isEmpty then .ok .empty
    else
      match collect rest with
      | .error error => .error error
      | .ok more => .ok (piece ++ more)

/-- The text of the stream.  A read that fails counts for more than bytes that are no text. -/
def text (stream : ByteStream) : Except FileError String :=
  match collect stream.reads with
  | .error error => .error error
  | .ok bytes => decodeText bytes

theorem collect_ofBytes (bytes : ByteArray) : collect (ofBytes bytes).reads = .ok bytes := by
  by_cases h : bytes.isEmpty = true
  · have hnone : bytes = .empty := by simpa [ByteArray.isEmpty] using h
    rw [hnone]
    rfl
  · simp [ofBytes, collect, h]

theorem text_ofBytes (bytes : ByteArray) : (ofBytes bytes).text = decodeText bytes := by
  rw [text, collect_ofBytes]

end ByteStream

end JavaSignatures
