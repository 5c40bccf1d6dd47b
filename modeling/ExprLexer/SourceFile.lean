import ExprLexer.Failure
import ExprLexer.Text.Utf8

/-!
# Source files

Reading a source by its path. A path is followed component by component from the working directory; the
file that it leads to must hold UTF-8, which is kept unchanged.
-/
namespace ExprLexer

inductive ReadError where
  | notFound
  | isDirectory
  | notDirectory
  | nameTooLong
  | nulInPath
  | notUtf8
  deriving DecidableEq, Repr

def ReadError.reason : ReadError → String
  | notFound => "No such file or directory (os error 2)"
  | isDirectory => "Is a directory (os error 21)"
  | notDirectory => "Not a directory (os error 20)"
  | nameTooLong => "File name too long (os error 36)"
  | nulInPath => "file name contained an unexpected NUL byte"
  | notUtf8 => "stream did not contain valid UTF-8"

/-- The failure to read a path, placed where the source would have begun. -/
def Failure.ofReading (path reason : String) : Failure := ⟨.unreadable path reason, .start⟩

def decodeSource (bytes : ByteArray) : Except ReadError String :=
  match String.fromUTF8? bytes with
  | some source => .ok source
  | none => .error .notUtf8

/-- Reads the source at a path, given a way to the bytes of a file. What that way gives as an error is the reason why
there is no source. -/
def readSource {m : Type → Type} [Monad m] (readBytes : String → m (Except String ByteArray)) (path : String) :
    m (Except Failure String) := do
  match ← readBytes path with
  | .ok bytes => return (decodeSource bytes).mapError fun e => .ofReading path e.reason
  | .error reason => return .error (.ofReading path reason)

/-- A working directory that holds files by name, but no directories. -/
structure Folder where
  files : List (String × ByteArray)

/-- Where a path leads. Directories other than the working directory hold nothing that a path can name. -/
inductive Place where
  | folder
  | elsewhere
  | file (contents : ByteArray)

/-- The longest component of a path, in bytes. -/
def maxNameLength : Nat := 255

/-- The longest path, in bytes. -/
def maxPathLength : Nat := 4095

namespace Folder

/-- One component further. A file leads nowhere, not even to itself. -/
def step (f : Folder) (place : Place) (name : List Char) : Except ReadError Place :=
  match place with
  | .file _ => .error .notDirectory
  | .folder | .elsewhere =>
    if name = [] ∨ name = ['.'] then .ok place
    else if name = ['.', '.'] then .ok .elsewhere
    else if maxNameLength < utf8Length name then .error .nameTooLong
    else
      match place, f.files.find? (fun entry => entry.1.toList == name) with
      | .folder, some (_, contents) => .ok (.file contents)
      | _, _ => .error .notFound

def follow (f : Folder) (path : String) : Except ReadError Place :=
  let cs := path.toList
  if cs.contains '\x00' then .error .nulInPath
  else if cs = [] then .error .notFound
  else if maxPathLength < utf8Length cs then .error .nameTooLong
  else
    let start := if cs.head? = some '/' then Place.elsewhere else Place.folder
    (cs.splitOn '/').foldlM f.step start

def readBytes (f : Folder) (path : String) : Except ReadError ByteArray :=
  match f.follow path with
  | .ok (.file contents) => .ok contents
  | .ok _ => .error .isDirectory
  | .error e => .error e

def readSource (f : Folder) (path : String) : Except Failure String :=
  Id.run (ExprLexer.readSource (fun path => pure ((f.readBytes path).mapError ReadError.reason)) path)

end Folder
end ExprLexer
