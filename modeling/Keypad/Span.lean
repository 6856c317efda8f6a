import Keypad.Text

/-!
Spans of characters and the masks that light them up. A span is half open and counts characters of
the raw name or number. Reversed spans and spans past the end are allowed: they cover no character
there.
-/
namespace Keypad

/-- The characters from `start` up to, and without, `stop`. -/
structure Span where
  start : Nat
  stop : Nat
  deriving DecidableEq, Repr

namespace Span

def length (span : Span) : Nat := span.stop - span.start

def isEmpty (span : Span) : Bool := span.length == 0

def shift (offset : Nat) (span : Span) : Span := ⟨span.start + offset, span.stop + offset⟩

def covers (span : Span) (index : Nat) : Bool := span.start ≤ index && index < span.stop

/-- The characters of a text that a span covers, clipped to the text. -/
def slice (span : Span) (text : Text) : Text :=
  let stop := min span.stop text.length
  let start := min span.start stop
  (text.take stop).drop start

def describe (span : Span) : Text :=
  "MatchPosition \x7b start: ".toList ++ Text.ofNat span.start ++ ", end: ".toList ++
    Text.ofNat span.stop ++ " \x7d".toList

def describeAll (spans : List Span) : Text :=
  '[' :: Text.join ", ".toList (spans.map describe) ++ [']']

end Span

/-- For each character of a text, whether it is lit. -/
abbrev Mask := List Bool

namespace Mask

def light (mask : Mask) (span : Span) : Mask :=
  mask.mapIdx fun index lit => lit || span.covers index

/-- The mask of a text of `length` characters with every given span lit. -/
def highlight (length : Nat) (spans : List Span) : Mask :=
  spans.foldl light (List.replicate length false)

/-- A `1` for a lit character and a `0` for any other. -/
def render (mask : Mask) : Text :=
  mask.map fun lit => if lit then '1' else '0'

end Mask
end Keypad
