import Keypad.Builtin.Gzip.Code
import Keypad.Builtin.Gzip.Output

/-!
Decompression of deflated data. Data is a sequence of blocks: stored bytes, or symbols under a fixed
code, or symbols under a code that the block carries. A symbol is a byte, the end of the block, or
the length of a stretch to repeat from some distance back, which may reach back before the text.
-/
namespace Keypad.Gzip

/-- What a decompression puts out, and the stream after it or the damage that ended it. -/
structure Inflated (limit : Nat) where
  output : Output
  rest : Except Damage { bits : Bits // bits.size ≤ limit }

namespace Inflate

/-- The least length of each length symbol from 257 on, and the width of what is added to it. -/
def lengths : List (Nat × Nat) :=
  [ (3, 0), (4, 0), (5, 0), (6, 0), (7, 0), (8, 0), (9, 0), (10, 0), (11, 1), (13, 1), (15, 1),
    (17, 1), (19, 2), (23, 2), (27, 2), (31, 2), (35, 3), (43, 3), (51, 3), (59, 3), (67, 4),
    (83, 4), (99, 4), (115, 4), (131, 5), (163, 5), (195, 5), (227, 5), (258, 0) ]

/-- The least distance of each distance symbol, and the width of what is added to it. -/
def distances : List (Nat × Nat) :=
  [ (1, 0), (2, 0), (3, 0), (4, 0), (5, 1), (7, 1), (9, 2), (13, 2), (17, 3), (25, 3), (33, 4),
    (49, 4), (65, 5), (97, 5), (129, 6), (193, 6), (257, 7), (385, 7), (513, 8), (769, 8),
    (1025, 9), (1537, 9), (2049, 10), (3073, 10), (4097, 11), (6145, 11), (8193, 12),
    (12289, 12), (16385, 13), (24577, 13) ]

/-- A number given by a symbol and the bits that follow. The rows of the table belong to the symbols
from `first` on. -/
def tabled (table : List (Nat × Nat)) (first symbol : Nat) (bits : Bits) :
    Except Damage (Nat × Bits.Remainder bits) :=
  match (table.zipIdx first).find? fun (_, row) => row == symbol with
  | none => .error .invalid
  | some ((least, width), _) =>
    match bits.number width with
    | .error damage => .error damage
    | .ok (more, rest) => .ok (least + more, rest)

/-- A stretch to repeat: how far back it starts and how long it is. -/
structure Phrase where
  distance : Nat
  length : Nat

/-- The rest of a stretch whose length symbol has been taken. -/
def phrase (distanceCode : Code) (symbol : Nat) (bits : Bits) :
    Except Damage (Phrase × Bits.Remainder bits) :=
  match tabled lengths 257 symbol bits with
  | .error damage => .error damage
  | .ok (length, ⟨afterLength, near⟩) =>
    match distanceCode.read afterLength with
    | .error damage => .error damage
    | .ok ⟨row, afterRow, lower⟩ =>
      match tabled distances 0 row afterRow with
      | .error damage => .error damage
      | .ok (distance, ⟨later, nearer⟩) => .ok (⟨distance, length⟩, ⟨later, by omega⟩)

/-- The symbol that ends a block. Smaller ones are bytes and larger ones are lengths. -/
def endOfBlock : Nat := 256

def symbols (limit : Nat) (literals distanceCode : Code) (output : Output) (bits : Bits)
    (le : bits.size ≤ limit) : Inflated limit :=
  match literals.read bits with
  | .error damage => ⟨output, .error damage⟩
  | .ok ⟨symbol, rest, less⟩ =>
    if symbol < endOfBlock then
      symbols limit literals distanceCode (output.push rest.spent symbol.toUInt8) rest
        (Nat.le_trans (Nat.le_of_lt less) le)
    else if symbol = endOfBlock then
      ⟨output, .ok ⟨rest, Nat.le_trans (Nat.le_of_lt less) le⟩⟩
    else
      match phrase distanceCode symbol rest with
      | .error damage => ⟨output, .error damage⟩
      | .ok (found, ⟨later, near⟩) =>
        symbols limit literals distanceCode
          (output.repeatBack later.spent found.distance found.length) later
          (Nat.le_trans near (Nat.le_trans (Nat.le_of_lt less) le))
  termination_by bits.size
  decreasing_by
  · exact less
  · exact Nat.lt_of_le_of_lt near less

/-- A number of sixteen bits from two bytes, the lower one first. -/
def pair (low high : UInt8) : Nat := low.toNat + 256 * high.toNat

/-- Bytes stored as they are, behind their count and its complement. Each is at hand when it is put
out. -/
def stored (limit : Nat) (output : Output) (bits : Bits) (le : bits.size ≤ limit) :
    Inflated limit :=
  match h : bits.align with
  | a :: b :: c :: d :: bytes =>
    if pair a b + pair c d = 0xFFFF then
      let block := bytes.take (pair a b)
      let output := block.foldl (Output.push false) output
      if block.length < pair a b then ⟨output, .error .cutShort⟩
      else
        ⟨output, .ok ⟨.ofBytes (bytes.drop (pair a b)), by
          have := congrArg List.length h
          simp only [Bits.align, List.length_cons] at this
          simp only [Bits.ofBytes, Bits.size, List.length_nil, List.length_drop] at *
          omega⟩⟩
    else ⟨output, .error .invalid⟩
  | _ => ⟨output, .error .cutShort⟩

def fixedLiterals : Except Damage Code :=
  Code.ofLengths false <|
    List.replicate 144 8 ++ List.replicate 112 9 ++ List.replicate 24 7 ++ List.replicate 8 8

def fixedDistances : Except Damage Code :=
  Code.ofLengths false (List.replicate 32 5)

/-- The order in which a block gives the word lengths of the code for word lengths. -/
def lengthOrder : List Nat :=
  [ 16, 17, 18, 0, 8, 7, 9, 6, 10, 5, 11, 4, 12, 3, 13, 2, 14, 1, 15 ]

def numbers (width : Nat) : Nat → (bits : Bits) → Except Damage (List Nat × Bits.Remainder bits)
  | 0, bits => .ok ([], ⟨bits, Nat.le_refl _⟩)
  | count + 1, bits =>
    match bits.number width with
    | .error damage => .error damage
    | .ok (first, ⟨rest, le⟩) =>
      match numbers width count rest with
      | .error damage => .error damage
      | .ok (more, ⟨later, near⟩) => .ok (first :: more, ⟨later, Nat.le_trans near le⟩)

/-- Takes word lengths until there are `wanted` of them. A symbol below sixteen is a length;
the others repeat the last length or zero. -/
def wordLengths (code : Code) (wanted : Nat) (found : List Nat) (bits : Bits) :
    Except Damage (List Nat × Bits.Remainder bits) :=
  if wanted ≤ found.length then
    if found.length = wanted then .ok (found, ⟨bits, Nat.le_refl _⟩) else .error .invalid
  else
    match code.read bits with
    | .error damage => .error damage
    | .ok ⟨symbol, rest, less⟩ =>
      let repeated (width least : Nat) (length : Option Nat) :
          Except Damage (List Nat × Bits.Remainder rest) :=
        match length with
        | none => .error .invalid
        | some length =>
          match rest.number width with
          | .error damage => .error damage
          | .ok (more, later) => .ok (List.replicate (least + more) length, later)
      let added : Except Damage (List Nat × Bits.Remainder rest) :=
        if symbol < 16 then .ok ([symbol], ⟨rest, Nat.le_refl _⟩)
        else if symbol = 16 then repeated 2 3 found.getLast?
        else if symbol = 17 then repeated 3 3 (some 0)
        else repeated 7 11 (some 0)
      match added with
      | .error damage => .error damage
      | .ok (block, ⟨later, le⟩) =>
        match wordLengths code wanted (found ++ block) later with
        | .error damage => .error damage
        | .ok (all, ⟨final, near⟩) => .ok (all, ⟨final, by omega⟩)
  termination_by bits.size
  decreasing_by omega

/-- The most word lengths a block may give for its bytes and lengths, and for its distances. -/
def mostLengths : Nat × Nat := (286, 30)

/-- The codes a block carries for its bytes and lengths and for its distances. -/
def carriedCodes (bits : Bits) : Except Damage ((Code × Code) × Bits.Remainder bits) := do
  let (moreLiterals, ⟨bits, _⟩) ← bits.number 5
  let (moreDistances, ⟨bits, b⟩) ← bits.number 5
  let (moreWidths, ⟨bits, c⟩) ← bits.number 4
  let literalCount := moreLiterals + 257
  let distanceCount := moreDistances + 1
  if mostLengths.1 < literalCount ∨ mostLengths.2 < distanceCount then
    throw .invalid
  let (given, ⟨bits, d⟩) ← numbers 3 (moreWidths + 4) bits
  let widths := (List.range 19).map fun symbol => ((lengthOrder.zip given).lookup symbol).getD 0
  let code ← Code.ofLengths false widths
  let (all, ⟨bits, e⟩) ← wordLengths code (literalCount + distanceCount) [] bits
  let literals ← Code.ofLengths true (all.take literalCount)
  let distanceCode ← Code.ofLengths true (all.drop literalCount)
  return ((literals, distanceCode), ⟨bits, by omega⟩)

def block (limit kind : Nat) (output : Output) (bits : Bits) (le : bits.size ≤ limit) :
    Inflated limit :=
  if kind = 0 then stored limit output bits le
  else if kind = 1 then
    match fixedLiterals, fixedDistances with
    | .ok literals, .ok distanceCode => symbols limit literals distanceCode output bits le
    | .error damage, _ => ⟨output, .error damage⟩
    | _, .error damage => ⟨output, .error damage⟩
  else if kind = 2 then
    match carriedCodes bits with
    | .error damage => ⟨output, .error damage⟩
    | .ok ((literals, distanceCode), ⟨rest, near⟩) =>
      symbols limit literals distanceCode output rest (Nat.le_trans near le)
  else ⟨output, .error .invalid⟩

/-- Blocks up to the one that is marked as the last. -/
def blocks (output : Output) (bits : Bits) : Output × Except Damage Bits :=
  match bits.next with
  | .error damage => (output, .error damage)
  | .ok ⟨last, afterLast, _less⟩ =>
    match afterLast.number 2 with
    | .error damage => (output, .error damage)
    | .ok (kind, ⟨body, _le⟩) =>
      match block body.size kind output body (Nat.le_refl _) with
      | ⟨output, .error damage⟩ => (output, .error damage)
      | ⟨output, .ok ⟨rest, _near⟩⟩ => if last then (output, .ok rest) else blocks output rest
  termination_by bits.size
  decreasing_by omega

end Inflate

def inflate (bytes : List UInt8) : Output × Except Damage Bits :=
  Inflate.blocks .empty (.ofBytes bytes)

end Keypad.Gzip
