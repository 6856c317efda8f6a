import Keypad.Files
import Keypad.Json.Record
import Keypad.Text.Utf8

/-!
The source that the reader reads: characters and stray bytes one after the other, and at the end
whether the text is over or the reader broke off. A scan takes at least one piece off its source;
its result says so, which is what makes loops over scans end.
-/
namespace Keypad

/-- The fault of a reader that needs more than there is. -/
def Ending.fault : Ending → Json.Fault
  | .finished => .truncated
  | .interrupted => .unreadable

namespace Json

inductive Source where
  | stop (ending : Ending)
  | char (c : Char) (rest : Source)
  | stray (byte : UInt8) (rest : Source)
  deriving DecidableEq, Repr

namespace Source

def length : Source → Nat
  | .stop _ => 0
  | .char _ rest => rest.length + 1
  | .stray _ rest => rest.length + 1

@[simp] theorem length_char (c : Char) (rest : Source) :
    (char c rest).length = rest.length + 1 := rfl

@[simp] theorem length_stray (byte : UInt8) (rest : Source) :
    (stray byte rest).length = rest.length + 1 := rfl

/-- What lies behind a character is shorter than any source the character is left of. -/
theorem length_lt_of_char {c : Char} {rest source : Source}
    (le : (char c rest).length ≤ source.length) : rest.length < source.length := le

def before (text : Text) (rest : Source) : Source := text.foldr .char rest

def ofText (text : Text) : Source := before text (.stop .finished)

def ofPieces (ending : Ending) : List Utf8.Piece → Source
  | [] => .stop ending
  | .char c :: rest => .char c (ofPieces ending rest)
  | .stray byte :: rest => .stray byte (ofPieces ending rest)

def ofBytes (bytes : List UInt8) (ending : Ending) : Source := ofPieces ending (Utf8.pieces bytes)

end Source

/-- What is left of a source, which is not longer than the source. -/
structure Remainder (source : Source) where
  rest : Source
  le : rest.length ≤ source.length

namespace Remainder

variable {source : Source}

def all (source : Source) : Remainder source := ⟨source, Nat.le_refl _⟩

/-- What is left behind a character and more. -/
def behind (c : Char) (left : Remainder source) : Remainder (.char c source) :=
  ⟨left.rest, Nat.le_succ_of_le left.le⟩

/-- What is left of what was left before. -/
def within {part : Source} (le : part.length ≤ source.length) (left : Remainder part) :
    Remainder source :=
  ⟨left.rest, Nat.le_trans left.le le⟩

end Remainder

namespace Source

/-- The blanks that may stand between the tokens of JSON. -/
def isBlank (c : Char) : Bool := c == ' ' || c == '\n' || c == '\t' || c == '\x0d'

def skipBlanks : (source : Source) → Remainder source
  | .stop ending => .all (.stop ending)
  | .stray byte rest => .all (.stray byte rest)
  | .char c rest => if isBlank c then (skipBlanks rest).behind c else .all (.char c rest)

/-- Goes on with the first character that is no blank, where nothing else makes sense. -/
def look {α : Type} (source : Source)
    (next : (c : Char) → (rest : Source) → (char c rest).length ≤ source.length → Except Fault α) :
    Except Fault α :=
  match source.skipBlanks with
  | ⟨.stop ending, _⟩ => .error ending.fault
  | ⟨.stray _ _, _⟩ => .error .malformed
  | ⟨.char c rest, le⟩ => next c rest le

def expect : Text → (source : Source) → Except Fault (Remainder source)
  | [], source => .ok (.all source)
  | _ :: _, .stop ending => .error ending.fault
  | _ :: _, .stray _ _ => .error .malformed
  | c :: word, .char d rest =>
    if c = d then (expect word rest).map (·.behind d) else .error .malformed

end Source

/-- What a scan of a source finds: a value and the rest, which is shorter than the source. -/
structure Scanned (α : Type) (source : Source) where
  value : α
  rest : Source
  shorter : rest.length < source.length

namespace Scanned

variable {α β : Type} {source : Source}

def of (value : α) (c : Char) (left : Remainder source) : Scanned α (.char c source) :=
  ⟨value, left.rest, Nat.lt_succ_of_le left.le⟩

def map (f : α → β) (found : Scanned α source) : Scanned β source :=
  ⟨f found.value, found.rest, found.shorter⟩

def left (found : Scanned α source) : Remainder source :=
  ⟨found.rest, Nat.le_of_lt found.shorter⟩

def behind (c : Char) (found : Scanned α source) : Scanned α (.char c source) :=
  ⟨found.value, found.rest, Nat.lt_succ_of_lt found.shorter⟩

def within {part : Source} (le : part.length ≤ source.length) (found : Scanned α part) :
    Scanned α source :=
  ⟨found.value, found.rest, Nat.lt_of_lt_of_le found.shorter le⟩

def after {part : Source} (lt : part.length < source.length) (found : Scanned α part) :
    Scanned α source :=
  ⟨found.value, found.rest, Nat.lt_trans found.shorter lt⟩

/-- A value found by taking more behind an earlier find. -/
def extend (found : Scanned α source) (value : β) (left : Remainder found.rest) :
    Scanned β source :=
  ⟨value, left.rest, Nat.lt_of_le_of_lt left.le found.shorter⟩

end Scanned

abbrev Decoder (α : Type) := (source : Source) → Except Fault (Scanned α source)

namespace Decoder

variable {α : Type}

/-- Reads what starts with the first character that is no blank. -/
def ofFirst (scan : (c : Char) → (rest : Source) → Except Fault (Scanned α (.char c rest))) :
    Decoder α := fun source =>
  source.look fun c rest le => (scan c rest).map (·.within le)

/-- A character by itself. -/
def mark (wanted : Char) : Decoder Unit := ofFirst fun c rest =>
  if c = wanted then .ok (.of () c (.all rest)) else .error .malformed

end Decoder
end Json
end Keypad
