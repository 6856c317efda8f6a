import Keypad.Files
import Keypad.Json.Record
import Keypad.Policy

/-!
Failures of the library. Matching never fails; these come from reading files, from policies, and
from installing the region.
-/
namespace Keypad

inductive FileRole where
  | contacts
  | policy
  deriving DecidableEq, Repr

def FileRole.title : FileRole → Text
  | .contacts => "Contacts".toList
  | .policy => "Config".toList

inductive Failure where
  | unreadableFile (fault : FileFault)
  | json (fault : Json.Fault)
  | fileNotFound (role : FileRole) (path : Text)
  | invalidPolicy (fault : PolicyFault)
  | regionAlreadyInstalled
  deriving DecidableEq, Repr

namespace Failure

def message : Failure → Text
  | .unreadableFile fault => "I/O error: ".toList ++ fault.message
  | .json _ => "JSON error".toList
  | .fileNotFound role path =>
    "not found: ".toList ++ role.title ++ " not found at ".toList ++ path ++ ": ".toList ++
      FileFault.missing.message
  | .invalidPolicy fault => "invalid configuration: ".toList ++ fault.message
  | .regionAlreadyInstalled => "region settings already initialized".toList

/-- What lies beneath a failure, if that can be told apart from it. -/
def cause? : Failure → Option Text
  | .unreadableFile fault => some fault.message
  | _ => none

def ofOpening (role : FileRole) (path : Text) : FileFault → Failure
  | .missing => .fileNotFound role path
  | fault => .unreadableFile fault

end Failure
end Keypad
