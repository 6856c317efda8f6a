import Keypad.Text

/-!
Arguments of the command line: options, a command, and what the command works on. The options that
every command knows may stand before or after it; when both places give one, the later place wins.
Within one place an option is given once. A value may be joined to its option or follow it as an
argument of its own, and in the second case it may not look like an option. After two hyphens nothing
looks like an option any more.
-/
namespace Keypad.CommandLine

inductive Switch where
  | country
  | numberingPlan
  | policy
  | json
  | name
  | number
  | contacts
  | limit
  deriving DecidableEq, Repr

namespace Switch

def long : Switch → Text
  | .country => "country".toList
  | .numberingPlan => "nanp".toList
  | .policy => "config".toList
  | .json => "json".toList
  | .name => "name".toList
  | .number => "number".toList
  | .contacts => "contacts".toList
  | .limit => "limit".toList

def short? : Switch → Option Char
  | .country => some 'c'
  | .name => some 'n'
  | .number => some 'p'
  | .contacts => some 'f'
  | .limit => some 'l'
  | _ => none

def takesValue : Switch → Bool
  | .numberingPlan => false
  | .json => false
  | _ => true

def shared : List Switch := [.country, .numberingPlan, .policy, .json]

end Switch

inductive Verb where
  | tokens
  | prefixes
  | number
  | compare
  | search
  deriving DecidableEq, Repr

namespace Verb

def ofName? (name : Text) : Option Verb :=
  if name = "tokens".toList then some .tokens
  else if name = "prefixes".toList then some .prefixes
  else if name = "number".toList then some .number
  else if name = "match".toList then some .compare
  else if name = "search".toList then some .search
  else none

def switches : Verb → List Switch
  | .compare => Switch.shared ++ [.name, .number]
  | .search => Switch.shared ++ [.contacts, .limit]
  | _ => Switch.shared

end Verb

/-- What one place of the command line gives: switches with their values, and plain arguments. -/
structure Given where
  switches : List (Switch × Text)
  plain : List Text
  deriving DecidableEq, Repr

namespace Given

def none : Given := ⟨[], []⟩

/-- Adds a switch, which may not have been given yet. -/
def add? (given : Given) (switch : Switch) (value : Text) : Option Given :=
  if given.switches.any (·.1 == switch) then .none
  else some { given with switches := given.switches ++ [(switch, value)] }

def addPlain (given : Given) (argument : Text) : Given :=
  { given with plain := given.plain ++ [argument] }

def value? (given : Given) (switch : Switch) : Option Text := given.switches.lookup switch

def has (given : Given) (switch : Switch) : Bool := given.switches.any (·.1 == switch)

end Given

inductive Reading where
  /-- Two hyphens: only plain arguments follow. -/
  | plainFromHere
  | switch (switch : Switch) (value : Option Text)
  | plain
  | unknown
  deriving DecidableEq, Repr

/-- Reads `name` or `name=value` behind two hyphens. -/
def readLong (known : List Switch) (rest : Text) : Reading :=
  let name := rest.takeWhile (· != '=')
  let value? := if rest.contains '=' then some (rest.drop (name.length + 1)) else none
  match known.find? (·.long == name) with
  | none => .unknown
  | some switch => if value?.isSome ∧ !switch.takesValue then .unknown else .switch switch value?

/-- Reads a letter behind one hyphen. What follows the letter is its value, less an equals sign. -/
def readShort (known : List Switch) (letter : Char) (rest : Text) : Reading :=
  match known.find? (·.short? == some letter) with
  | none => .unknown
  | some switch =>
    match rest with
    | [] => .switch switch none
    | '=' :: value => .switch switch (some value)
    | value => .switch switch (some value)

/-- Reads one argument. A single hyphen is plain. -/
def readArgument (known : List Switch) (argument : Text) : Reading :=
  match argument with
  | ['-', '-'] => .plainFromHere
  | '-' :: '-' :: rest => readLong known rest
  | '-' :: letter :: rest => readShort known letter rest
  | _ => .plain

/-- Whether an argument cannot be a value that follows its switch. -/
def looksLikeSwitch : Text → Bool
  | '-' :: _ :: _ => true
  | _ => false

def readPlace (known : List Switch) (given : Given) : List Text → Option Given
  | [] => some given
  | [argument] =>
    match readArgument known argument with
    | .plainFromHere => some given
    | .plain => some (given.addPlain argument)
    | .switch switch (some value) => given.add? switch value
    | .switch switch none => if switch.takesValue then none else given.add? switch []
    | .unknown => none
  | argument :: following :: rest =>
    match readArgument known argument with
    | .plainFromHere => some ((following :: rest).foldl Given.addPlain given)
    | .plain => readPlace known (given.addPlain argument) (following :: rest)
    | .switch switch (some value) =>
      (given.add? switch value).bind fun given => readPlace known given (following :: rest)
    | .switch switch none =>
      if switch.takesValue then
        if looksLikeSwitch following then none
        else (given.add? switch following).bind fun given => readPlace known given rest
      else (given.add? switch []).bind fun given => readPlace known given (following :: rest)
    | .unknown => none

/-- Reads the arguments before the command: what they give, the command, and what follows it. -/
def readFront (given : Given) : List Text → Option (Given × Verb × List Text)
  | [] => none
  | argument :: rest =>
    match readArgument Switch.shared argument with
    | .plainFromHere => none
    | .plain => (Verb.ofName? argument).map fun verb => (given, verb, rest)
    | .switch switch (some value) =>
      (given.add? switch value).bind fun given => readFront given rest
    | .switch switch none =>
      if switch.takesValue then
        match rest with
        | [] => none
        | value :: later =>
          if looksLikeSwitch value then none
          else (given.add? switch value).bind fun given => readFront given later
      else (given.add? switch []).bind fun given => readFront given rest
    | .unknown => none

structure Options where
  country : Option Text
  numberingPlan : Bool
  policyPath : Option Text
  json : Bool
  deriving DecidableEq, Repr

inductive Command where
  | tokens (name : Text)
  | prefixes (name : Text)
  | number (number : Text)
  | compare (query : Text) (name number : Option Text)
  | search (query contactsPath : Text) (limit : Option Nat)
  deriving DecidableEq, Repr

structure Arguments where
  options : Options
  command : Command
  deriving DecidableEq, Repr

def Options.ofPlaces (front back : Given) : Options :=
  { country := (back.value? .country).or (front.value? .country)
    numberingPlan := front.has .numberingPlan || back.has .numberingPlan
    policyPath := (back.value? .policy).or (front.value? .policy)
    json := front.has .json || back.has .json }

/-- A count below 2 to the 64th, with or without a plus. -/
def count? (text : Text) : Option Nat :=
  let digits : Text := match text with
    | '+' :: rest => rest
    | rest => rest
  if digits.isEmpty ∨ !digits.all Char.isDigit ∨ Text.countBound ≤ Text.toNat digits then none
  else some (Text.toNat digits)

/-- The command that a verb makes of what is given after it. Every verb has one plain argument. -/
def command? (verb : Verb) (given : Given) : Option Command :=
  match given.plain with
  | [subject] =>
    match verb with
    | .tokens => some (.tokens subject)
    | .prefixes => some (.prefixes subject)
    | .number => some (.number subject)
    | .compare => some (.compare subject (given.value? .name) (given.value? .number))
    | .search =>
      match given.value? .contacts, given.value? .limit with
      | none, _ => none
      | some path, none => some (.search subject path none)
      | some path, some limit => (count? limit).map fun n => .search subject path (some n)
  | _ => none

def Arguments.read? (arguments : List Text) : Option Arguments := do
  let (front, verb, rest) ← readFront .none arguments
  let back ← readPlace verb.switches .none rest
  let command ← command? verb back
  return ⟨.ofPlaces front back, command⟩

end Keypad.CommandLine
