/-!
# Files

What the programs need of a file system. A path that is read leads to a file or to standard input, and one that
is written leads to a file or to standard output. Who reads standard input uses it up.
-/
namespace PacketReplay

inductive FileError where
  | notFound
  | notADirectory
  | isADirectory
  /-- A path, or a name in it, is longer than any may be. -/
  | nameTooLong
  | permissionDenied
  /-- There is nothing behind a device. -/
  | noDevice
  | noSpace
  | notText
  /-- Any other failure, in the words of the operating system. -/
  | other (description : String)
  deriving DecidableEq, Repr

def FileError.message : FileError → String
  | notFound => "No such file or directory (os error 2)"
  | noDevice => "No such device or address (os error 6)"
  | permissionDenied => "Permission denied (os error 13)"
  | notADirectory => "Not a directory (os error 20)"
  | isADirectory => "Is a directory (os error 21)"
  | noSpace => "No space left on device (os error 28)"
  | nameTooLong => "File name too long (os error 36)"
  | notText => "stream did not contain valid UTF-8"
  | other description => description

/-- Where the bytes of a path come from. -/
inductive Source where
  | file (bytes : ByteArray)
  | input

/-- Where the bytes go that are written to a path. -/
inductive Target where
  | file
  | output
  deriving DecidableEq, Repr

structure Files where
  read : String → Except FileError Source
  target : String → Except FileError Target

/-- The bytes of a file as a text. -/
def decodeText (bytes : ByteArray) : Except FileError String :=
  match String.fromUTF8? bytes with
  | some text => .ok text
  | none => .error .notText

theorem decodeText_toUTF8 (text : String) : decodeText text.toUTF8 = .ok text := by
  have found : String.fromUTF8? text.toUTF8 = some text := dif_pos text.isValidUTF8
  rw [decodeText, found]

/-- A file that a program has tried to read, by its path. -/
structure FileText where
  path : String
  text : Except FileError String
  deriving Repr

/-- Read a path. The other part of the result is what is left of standard input. -/
def Files.text (files : Files) (path : String) (input : List UInt8) : FileText × List UInt8 :=
  match files.read path with
  | .error error => (⟨path, .error error⟩, input)
  | .ok (.file bytes) => (⟨path, decodeText bytes⟩, input)
  | .ok .input => (⟨path, decodeText ⟨input.toArray⟩⟩, [])

end PacketReplay
