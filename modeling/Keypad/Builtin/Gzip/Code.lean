import Keypad.Builtin.Gzip.Bits

/-!
Canonical prefix codes. A code is given by the length of each symbol's word, zero for a symbol that
has none. Words of one length are consecutive in the order of their symbols, and shorter words come
before longer ones.
-/
namespace Keypad.Gzip

/-- The words of a code as a tree that is walked bit by bit. -/
inductive Code where
  | unused
  | symbol (value : Nat)
  | branch (zero one : Code)

namespace Code

def insert (value : Nat) : List Bool → Code → Code
  | [], _ => .symbol value
  | bit :: word, .branch zero one =>
    if bit then .branch zero (insert value word one) else .branch (insert value word zero) one
  | bit :: word, _ =>
    if bit then .branch .unused (insert value word .unused)
    else .branch (insert value word .unused) .unused

/-- The bits of a number, highest first. -/
def word (width value : Nat) : List Bool :=
  (List.range width).map fun place => value.testBit (width - 1 - place)

/-- The first word of each length from `length` on, as a number. -/
def firstWords (lengths : List Nat) : Nat → Nat → Nat → List (Nat × Nat)
  | 0, _, _ => []
  | more + 1, length, first =>
    (length, first) :: firstWords lengths more (length + 1) ((first + lengths.count length) * 2)

/-- Adds the words of all symbols from `value` on; `next` holds the next free word of each
length. -/
def fill : List Nat → Nat → List (Nat × Nat) → Code → Code
  | [], _, _, code => code
  | length :: lengths, value, next, code =>
    if length = 0 then fill lengths (value + 1) next code
    else
      let place := (next.lookup length).getD 0
      fill lengths (value + 1) (next.map fun (l, w) => if l = length then (l, w + 1) else (l, w))
        (insert value (word length place) code)

/-- The share of all sequences of sixteen bits that the words of a code begin. -/
def coverage (lengths : List Nat) : Nat :=
  lengths.foldl (fun total length => if length = 0 then total else total + 1 <<< (16 - length)) 0

/-- Whether a code has no word, or one word, of a single bit. -/
def isSingle (lengths : List Nat) : Bool :=
  match lengths.filter (0 < ·) with
  | [] => true
  | [length] => length == 1
  | _ => false

/-- The code with the given lengths, which are at most fifteen. The words must use up all
sequences of bits; a code without a word, or with one word of a single bit, may leave some over if
`allowSingle` is set. -/
def ofLengths (allowSingle : Bool) (lengths : List Nat) : Except Damage Code :=
  if coverage lengths = 1 <<< 16 ∨ (allowSingle ∧ isSingle lengths) then
    .ok (fill lengths 0 (firstWords lengths 15 1 0) .unused)
  else .error .invalid

def walk : Code → (bits : Bits) → Except Damage (Nat × Bits.Remainder bits)
  | .unused, _ => .error .invalid
  | .symbol value, bits => .ok (value, ⟨bits, Nat.le_refl _⟩)
  | .branch zero one, bits =>
    match bits.next with
    | .error damage => .error damage
    | .ok ⟨bit, rest, less⟩ =>
      match if bit then walk one rest else walk zero rest with
      | .error damage => .error damage
      | .ok (value, ⟨later, le⟩) =>
        .ok (value, ⟨later, Nat.le_trans le (Nat.le_of_lt less)⟩)

/-- Takes the word of a symbol, which has one bit at least. -/
def read (code : Code) (bits : Bits) : Except Damage (Bits.Taken Nat bits) :=
  match bits.next with
  | .error damage => .error damage
  | .ok ⟨bit, rest, less⟩ =>
    match code with
    | .branch zero one =>
      match walk (if bit then one else zero) rest with
      | .error damage => .error damage
      | .ok (value, ⟨later, le⟩) => .ok ⟨value, later, Nat.lt_of_le_of_lt le less⟩
    | _ => .error .invalid

end Code
end Keypad.Gzip
