/-!
Compressed data as a stream of bits, taken from each byte with the lowest bit first.
-/
namespace Keypad.Gzip

inductive Damage where
  | cutShort
  | invalid
  deriving DecidableEq, Repr

/-- The bits left of the byte under way, and the bytes after it. -/
structure Bits where
  pending : List Bool
  bytes : List UInt8

namespace Bits

def ofBytes (bytes : List UInt8) : Bits := ⟨[], bytes⟩

def size (bits : Bits) : Nat := bits.pending.length + 8 * bits.bytes.length

/-- What is left of a stream of bits, which is not more than there was. -/
abbrev Remainder (bits : Bits) := { rest : Bits // rest.size ≤ bits.size }

/-- A value taken off a stream of bits, and the rest, which is shorter. -/
structure Taken (α : Type) (bits : Bits) where
  value : α
  rest : Bits
  shorter : rest.size < bits.size

/-- The seven higher bits of a byte, lowest first. -/
def higherBits (byte : UInt8) : List Bool :=
  [1, 2, 3, 4, 5, 6, 7].map byte.toNat.testBit

def next (bits : Bits) : Except Damage (Taken Bool bits) :=
  match bits with
  | ⟨bit :: pending, bytes⟩ => .ok ⟨bit, ⟨pending, bytes⟩, by simp [size]⟩
  | ⟨[], byte :: bytes⟩ =>
    .ok ⟨byte.toNat.testBit 0, ⟨higherBits byte, bytes⟩, by
      simp only [size, higherBits, List.length_map, List.length_cons, List.length_nil]; omega⟩
  | ⟨[], []⟩ => .error .cutShort

def number : Nat → (bits : Bits) → Except Damage (Nat × Remainder bits)
  | 0, bits => .ok (0, ⟨bits, Nat.le_refl _⟩)
  | width + 1, bits =>
    match next bits with
    | .error damage => .error damage
    | .ok ⟨bit, rest, less⟩ =>
      match number width rest with
      | .error damage => .error damage
      | .ok (higher, ⟨later, le⟩) =>
        .ok (bit.toNat + 2 * higher, ⟨later, Nat.le_trans le (Nat.le_of_lt less)⟩)

def spent (bits : Bits) : Bool := bits.bytes.isEmpty

def align (bits : Bits) : List UInt8 := bits.bytes

end Bits
end Keypad.Gzip
