import Keypad.Builtin.Json.Skip

/-!
Decoders of the basic types. A decoder looks at the first character that is no blank. A value of
another kind is refused as a mismatch, but only after a word, a numeral or a string in its place has
been read: what is malformed is reported as that.
-/
namespace Keypad.Json.Decoder

/-- The fault of a scan that is made only for its faults. -/
def orMismatch {α : Type} : Except Fault α → Fault
  | .error fault => fault
  | .ok _ => .mismatched

/-- The fault of a value that starts with a given character and is not of the wanted kind. -/
def refusal (c : Char) (rest : Source) : Fault :=
  if c = 'n' then orMismatch (rest.expect "ull".toList)
  else if c = 't' then orMismatch (rest.expect "rue".toList)
  else if c = 'f' then orMismatch (rest.expect "alse".toList)
  else if c = '"' then orMismatch (Quoted.read rest)
  else if c = '-' ∨ c.isDigit then orMismatch (Numeral.read (.char c rest))
  else if c = '[' ∨ c = '\x7b' then .mismatched
  else .malformed

def bool : Decoder Bool := ofFirst fun c rest =>
  if c = 't' then (rest.expect "rue".toList).map (Scanned.of true c)
  else if c = 'f' then (rest.expect "alse".toList).map (Scanned.of false c)
  else .error (refusal c rest)

/-- A count below 2 to the 64th. -/
def count : Decoder Nat := ofFirst fun c rest =>
  if c = '-' ∨ c.isDigit then
    match Numeral.read (.char c rest) with
    | .error fault => .error fault
    | .ok found =>
      match found.value.count? with
      | some n => .ok (found.map fun _ => n)
      | none => .error .mismatched
  else .error (refusal c rest)

def text : Decoder Text := ofFirst fun c rest =>
  if c = '"' then (Quoted.read rest).map (·.behind c) else .error (refusal c rest)

def optional {α : Type} (decoder : Decoder α) : Decoder (Option α) := ofFirst fun c rest =>
  if c = 'n' then (rest.expect "ull".toList).map (Scanned.of none c)
  else (decoder (.char c rest)).map (·.map some)

/-! ## Lists -/

/-- What stands before the next element of an array: its closing bracket, or the element itself. -/
inductive Next (source : Source) where
  | close (closed : Scanned Unit source)
  | element (left : Remainder source)

/-- Looks for the next element of an array. `first` says that no element has been read yet. -/
def nextElement (first : Bool) (source : Source) : Except Fault (Next source) :=
  source.look fun c rest le =>
    if c = ']' then .ok (.close ((Scanned.of () c (.all rest)).within le))
    else if first then .ok (.element ⟨.char c rest, le⟩)
    else if c = ',' then
      rest.look fun d later near =>
        if d = ']' then .error .malformed
        else .ok (.element (((⟨.char d later, near⟩ : Remainder rest).behind c).within le))
    else .error .malformed

/-- The elements of an array up to and with its bracket. -/
def elements {α : Type} (decoder : Decoder α) (first : Bool) (source : Source) :
    Except Fault (Scanned (List α) source) :=
  match nextElement first source with
  | .error fault => .error fault
  | .ok (.close closed) => .ok (closed.map fun _ => [])
  | .ok (.element ⟨next, le⟩) =>
    match decoder next with
    | .error fault => .error fault
    | .ok ⟨value, later, lt⟩ =>
      (elements decoder false later).map fun found =>
        ((found.map (value :: ·)).after lt).within le
  termination_by source.length
  decreasing_by exact Nat.lt_of_lt_of_le lt le

def list {α : Type} (decoder : Decoder α) : Decoder (List α) := ofFirst fun c rest =>
  if c = '[' then (elements decoder true rest).map (·.behind c) else .error (refusal c rest)

/-- Reads a whole source as one value with nothing but blanks around it. -/
def run {α : Type} (decoder : Decoder α) (source : Source) : Except Fault α :=
  match decoder source with
  | .error fault => .error fault
  | .ok found =>
    match found.rest.skipBlanks.rest with
    | .stop .finished => .ok found.value
    | .stop .interrupted => .error .unreadable
    | _ => .error .malformed

end Keypad.Json.Decoder
