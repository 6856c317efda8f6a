import Keypad.Text

/-!
Text stored as UTF-8 bytes. Every byte of a stored text is accounted for: it belongs to the shortest
encoding of a character, or it is a stray byte.
-/
namespace Keypad.Utf8

inductive Piece where
  | char (c : Char)
  | stray (byte : UInt8)
  deriving DecidableEq, Repr

namespace Piece

def char? : Piece → Option Char
  | .char c => some c
  | .stray _ => none

end Piece

/-- What the first byte of an encoding says: how many bytes follow, its own share of the code point
and the least code point that needs so many bytes. -/
structure Lead where
  following : Nat
  share : Nat
  least : Nat

def Lead.ofByte? (byte : UInt8) : Option Lead :=
  let b := byte.toNat
  if b < 0x80 then some ⟨0, b, 0⟩
  else if b < 0xC0 then none
  else if b < 0xE0 then some ⟨1, b - 0xC0, 0x80⟩
  else if b < 0xF0 then some ⟨2, b - 0xE0, 0x800⟩
  else if b < 0xF8 then some ⟨3, b - 0xF0, 0x10000⟩
  else none

/-- Adds the shares of a number of following bytes to a code point. -/
def gather : Nat → Nat → List UInt8 → Option Nat
  | 0, code, _ => some code
  | _ + 1, _, [] => none
  | n + 1, code, byte :: rest =>
    if 0x80 ≤ byte.toNat ∧ byte.toNat < 0xC0 then
      gather n (code * 64 + (byte.toNat - 0x80)) rest
    else none

/-- The character that a first byte and what follows it encode, and how many bytes of `rest` belong
to it. -/
def decode? (byte : UInt8) (rest : List UInt8) : Option (Char × Nat) := do
  let lead ← Lead.ofByte? byte
  let code ← gather lead.following lead.share rest
  if h : lead.least ≤ code ∧ code.isValidChar then
    some (Char.ofNatAux code h.2, lead.following)
  else none

def pieces : List UInt8 → List Piece
  | [] => []
  | byte :: rest =>
    match decode? byte rest with
    | some (c, following) => .char c :: pieces (rest.drop following)
    | none => .stray byte :: pieces rest
  termination_by bytes => bytes.length
  decreasing_by all_goals simp only [List.length_cons, List.length_drop]; omega

/-- The text of bytes that hold no stray one. -/
def text? (bytes : List UInt8) : Option Text := (pieces bytes).mapM Piece.char?

end Keypad.Utf8
