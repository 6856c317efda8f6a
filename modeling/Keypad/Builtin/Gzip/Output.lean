import Keypad.Builtin.Gzip.Bits

/-!
The text that a decompression puts out. It passes through a window and is handed over in turns: a
turn ends when more text comes than the window holds, or when the data at hand is used up. Damage
takes back the text of the turn under way. A turn that fails only for want of data still hands over
the one byte it was asked for.
-/
namespace Keypad.Gzip

/-- The bytes of text that the window holds. -/
def window : Nat := 0x8000

structure Output where
  bytes : Array UInt8
  /-- Whether the turn under way began with no whole byte of data at hand. -/
  late : Bool
  deriving DecidableEq, Repr

namespace Output

def empty : Output := ⟨#[], false⟩

def size (output : Output) : Nat := output.bytes.size

def toList (output : Output) : List UInt8 := output.bytes.toList

/-- Puts out one byte; `spent` says whether no whole byte of data is at hand. A byte that the window
has no room for begins a turn. -/
def push (spent : Bool) (output : Output) (byte : UInt8) : Output :=
  match output with
  | ⟨bytes, late⟩ =>
    let late := if 0 < bytes.size ∧ bytes.size % window = 0 then spent else late
    ⟨bytes.push byte, late⟩

/-- The byte some distance back. In front of the text there are zeros. -/
def back (output : Output) (distance : Nat) : UInt8 :=
  if distance ≤ output.size then (output.bytes[output.size - distance]?).getD 0 else 0

/-- Repeats a stretch of the text, byte by byte, so that it may overlap itself. -/
def repeatBack (spent : Bool) (distance : Nat) : Nat → Output → Output
  | 0, output => output
  | length + 1, output =>
    repeatBack spent distance length (output.push spent (output.back distance))

/-- How many bytes were handed over because the window was full. -/
def settled (output : Output) : Nat := (output.size - 1) / window * window

/-- How many bytes were handed over when the data at hand is used up, which ends a turn, but not one
that had no data at hand. -/
def passed (output : Output) : Nat := if output.late then output.settled else output.size

/-- How many bytes are handed over before damage is met. Data that is cut short is used up; a last
turn that had no data at hand hands over its first byte. -/
def handed (output : Output) : Damage → Nat
  | .invalid => output.settled
  | .cutShort => if output.late then min (output.settled + 1) output.size else output.size

end Output
end Keypad.Gzip
