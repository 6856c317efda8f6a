import Keypad.Text

/-!
Files as the library sees them: a path is opened and gives bytes, a folder, or the reason why it
gives neither. A folder of files held in memory is a file system too.
-/
namespace Keypad

inductive FileFault where
  | missing
  | notFolder
  | isFolder
  | nameTooLong
  | zeroInPath
  | notText
  | denied
  /-- Any other reason, in the words of the system. -/
  | other (reason : Text)
  deriving DecidableEq, Repr

namespace FileFault

def message : FileFault → Text
  | .missing => "No such file or directory (os error 2)".toList
  | .notFolder => "Not a directory (os error 20)".toList
  | .isFolder => "Is a directory (os error 21)".toList
  | .nameTooLong => "File name too long (os error 36)".toList
  | .zeroInPath => "file name contained an unexpected NUL byte".toList
  | .notText => "stream did not contain valid UTF-8".toList
  | .denied => "Permission denied (os error 13)".toList
  | .other reason => reason

end FileFault

inductive Opened where
  | file (bytes : List UInt8)
  | folder
  | refused (fault : FileFault)
  deriving DecidableEq, Repr

abbrev FileSystem := Text → Opened

/-- How a stream of bytes ends: all of them have been given, or the reader broke off. -/
inductive Ending where
  | finished
  | interrupted
  deriving DecidableEq, Repr

structure ByteStream where
  bytes : List UInt8
  ending : Ending
  deriving DecidableEq, Repr

namespace Path

/-- The parts of a path that name something, without the dots that stand for the place itself. -/
def parts (path : Text) : List Text :=
  (Text.pieces (· == '/') path).filter fun part => !part.isEmpty && part != ['.']

/-- What follows the last point of the name at the end of a path. A name whose only point comes
first has no extension. -/
def extension? (path : Text) : Option Text :=
  match (parts path).getLast? with
  | none => none
  | some name =>
    if name = ['.', '.'] then none
    else
      let backwards := name.reverse
      let stem := (backwards.dropWhile (· != '.')).drop 1
      if stem.isEmpty then none else some (backwards.takeWhile (· != '.')).reverse

def isGzip (path : Text) : Bool :=
  match extension? path with
  | some extension => Text.lower extension == ['g', 'z']
  | none => false

end Path

/-- A folder held in memory: its files with their bytes, and its folders, which are empty. -/
structure MemoryFolder where
  /-- How paths into the folder begin. -/
  root : Text
  entries : List (Text × Option (List UInt8))

namespace MemoryFolder

inductive Place where
  | outside
  | top
  | inner
  | file (bytes : List UInt8)

def byteLength (name : Text) : Nat := name.foldl (fun total c => total + c.utf8Size) 0

/-- The most bytes of one name. -/
def longestName : Nat := 255

/-- The most bytes of a whole path. -/
def longestPath : Nat := 4095

/-- Takes one more step along a path. An empty part stays where it is, and so does a point. -/
def step (folder : MemoryFolder) (place : Place) (part : Text) : Except FileFault Place :=
  match place with
  | .file _ => .error .notFolder
  | _ =>
    if part = [] ∨ part = ['.'] then .ok place
    else if part = ['.', '.'] then
      match place with
      | .inner => .ok .top
      | _ => .ok .outside
    else if longestName < byteLength part then .error .nameTooLong
    else
      match place with
      | .top =>
        match folder.entries.lookup part with
        | some (some bytes) => .ok (.file bytes)
        | some none => .ok .inner
        | none => .error .missing
      | _ => .error .missing

/-- Opens a path. One that is too long as a whole is refused before it is walked. Outside the folder
nothing is found but the places that need no name. -/
def fileSystem (folder : MemoryFolder) : FileSystem := fun path =>
  if path.contains '\x00' then .refused .zeroInPath
  else if path.isEmpty then .refused .missing
  else if longestPath < byteLength path then .refused .nameTooLong
  else
    let (start, rest) : Place × Text :=
      if folder.root.isPrefixOf path then (.top, path.drop folder.root.length) else (.outside, path)
    match (Text.pieces (· == '/') rest).foldlM folder.step start with
    | .ok (.file bytes) => .file bytes
    | .ok _ => .folder
    | .error fault => .refused fault

end MemoryFolder
end Keypad
