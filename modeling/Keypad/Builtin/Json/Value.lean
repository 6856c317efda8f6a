import Keypad.Builtin.Json.Quoted

/-!
The two written forms of a value, one without any blanks and one with a line for each element and an
indentation of two blanks a level.
-/
namespace Keypad.Json.Value

mutual

def compact : Value → Text
  | .null => "null".toList
  | .bool b => if b then "true".toList else "false".toList
  | .count n => Text.ofNat n
  | .text t => Quoted.write t
  | .array elements => '[' :: compactElements elements ++ [']']
  | .object members => '\x7b' :: compactMembers members ++ ['\x7d']

def compactElements : List Value → Text
  | [] => []
  | [value] => compact value
  | value :: next :: more => compact value ++ ',' :: compactElements (next :: more)

def compactMembers : List (Text × Value) → Text
  | [] => []
  | [member] => compactMember member
  | member :: next :: more => compactMember member ++ ',' :: compactMembers (next :: more)

def compactMember : Text × Value → Text
  | (name, value) => Quoted.write name ++ ':' :: compact value

end

def newLine (level : Nat) : Text := '\n' :: List.replicate (2 * level) ' '

mutual

/-- The written form with a line for each element, where `level` is the indentation outside. -/
def pretty (level : Nat) : Value → Text
  | .null => "null".toList
  | .bool b => if b then "true".toList else "false".toList
  | .count n => Text.ofNat n
  | .text t => Quoted.write t
  | .array [] => "[]".toList
  | .array (value :: more) =>
    '[' :: prettyElements (level + 1) (value :: more) ++ newLine level ++ [']']
  | .object [] => "\x7b\x7d".toList
  | .object (member :: more) =>
    '\x7b' :: prettyMembers (level + 1) (member :: more) ++ newLine level ++ ['\x7d']

def prettyElements (level : Nat) : List Value → Text
  | [] => []
  | [value] => newLine level ++ pretty level value
  | value :: next :: more =>
    newLine level ++ pretty level value ++ ',' :: prettyElements level (next :: more)

def prettyMembers (level : Nat) : List (Text × Value) → Text
  | [] => []
  | [member] => newLine level ++ prettyMember level member
  | member :: next :: more =>
    newLine level ++ prettyMember level member ++ ',' :: prettyMembers level (next :: more)

def prettyMember (level : Nat) : Text × Value → Text
  | (name, value) => Quoted.write name ++ ": ".toList ++ pretty level value

end

end Keypad.Json.Value
