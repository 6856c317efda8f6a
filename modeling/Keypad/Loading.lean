import Keypad.Builtin
import Keypad.Failure

/-!
Reading policies and contact lists from text and from files. A contact list is read as a stream: a
file that breaks off shows only where more of it is needed. A policy is read as a whole first.
-/
namespace Keypad

namespace Policy

/-- Reads a policy and refuses one that takes away what it asks for. -/
def ofJson (text : Text) (codecs : Codecs := .builtin) : Except Failure Policy :=
  match codecs.json.readRecord Schema.policy text with
  | .error fault => .error (.json fault)
  | .ok policy =>
    match policy.validate with
    | .error fault => .error (.invalidPolicy fault)
    | .ok () => .ok policy

def load (files : FileSystem) (path : Text) (codecs : Codecs := .builtin) :
    Except Failure Policy :=
  match files path with
  | .refused fault => .error (.ofOpening .policy path fault)
  | .folder => .error (.unreadableFile .isFolder)
  | .file bytes =>
    match Utf8.text? bytes with
    | none => .error (.unreadableFile .notText)
    | some text => ofJson text codecs

end Policy

namespace Contact

/-- The stream of a contact file: its bytes as they are, or unpacked when its name says so. -/
def stream (codecs : Codecs) (path : Text) (bytes : List UInt8) : ByteStream :=
  if Path.isGzip path then codecs.unpack bytes else ⟨bytes, .finished⟩

def ofStream (codecs : Codecs) (stream : ByteStream) : Except Failure (List Contact) :=
  match codecs.json.streamList Schema.contact stream with
  | .error fault => .error (.json fault)
  | .ok contacts => .ok contacts

/-- Loads a contact list. A folder can be opened like a file; its stream breaks off at once. -/
def load (files : FileSystem) (path : Text) (codecs : Codecs := .builtin) :
    Except Failure (List Contact) :=
  match files path with
  | .refused fault => .error (.ofOpening .contacts path fault)
  | .folder => ofStream codecs ⟨[], .interrupted⟩
  | .file bytes => ofStream codecs (stream codecs path bytes)

end Contact
end Keypad
