import PacketReplay.Files

/-!
# Directories

The plainest system of files: names, with no folders, devices or links among them.
-/
namespace PacketReplay

/-- Files by name. -/
abbrev Directory := List (String × ByteArray)

namespace Directory

def read (directory : Directory) (path : String) : Except FileError Source :=
  match directory.lookup path with
  | some bytes => .ok (.file bytes)
  | none => .error .notFound

/-- Any name will do for a file but the empty one. -/
def target (_ : Directory) (path : String) : Except FileError Target :=
  if path.isEmpty then .error .notFound else .ok .file

def files (directory : Directory) : Files := ⟨directory.read, directory.target⟩

/-- The directory after a text is written to a path, in place of any file there. -/
def write (directory : Directory) (path text : String) : Except FileError Directory := do
  let _ ← directory.target path
  return (path, text.toUTF8) :: directory.filter fun file => file.1 ≠ path

theorem text_of_lookup {directory : Directory} {path text : String}
    (found : directory.lookup path = some text.toUTF8) (input : List UInt8) :
    directory.files.text path input = (⟨path, .ok text⟩, input) := by
  have read : directory.files.read path = .ok (.file text.toUTF8) := by simp only [files, Directory.read, found]
  simp only [Files.text, read, decodeText_toUTF8]

/-- What has been written is there to be read. -/
theorem text_write {directory after : Directory} {path text : String}
    (written : directory.write path text = .ok after) (input : List UInt8) :
    after.files.text path input = (⟨path, .ok text⟩, input) := by
  rw [write, target] at written
  split at written
  · cases written
  · cases written
    exact text_of_lookup (by simp) input

end Directory
end PacketReplay
