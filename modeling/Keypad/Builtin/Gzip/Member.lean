import Keypad.Builtin.Gzip.Inflate
import Keypad.Files

/-!
The first member of a gzip file: a header, deflated data, and the checksum and length of the text.
What follows the member does not matter. A file is read in pieces. Reading hands over text as it
goes; damage shows at the end of what has been handed over.
-/
namespace Keypad.Gzip

/-! ## The checksum

The cyclic redundancy check of gzip: 32 bits, reflected, with the polynomial `0xEDB88320`. -/

def crcBit (crc : UInt32) : UInt32 :=
  if crc &&& 1 = 1 then (crc >>> 1) ^^^ 0xEDB88320 else crc >>> 1

def crcByte (crc : UInt32) (byte : UInt8) : UInt32 :=
  (List.range 8).foldl (fun crc _ => crcBit crc) (crc ^^^ byte.toUInt32)

def crc32 (bytes : List UInt8) : UInt32 := bytes.foldl crcByte 0xFFFFFFFF ^^^ 0xFFFFFFFF

/-! ## Members -/

/-- The most bytes of a field that ends in zero. -/
def longestField : Nat := 0xFFFF

def dropField (bytes : List UInt8) : Option (List UInt8) :=
  match bytes.dropWhile (· != 0) with
  | [] => none
  | _ :: rest => if longestField < bytes.length - (rest.length + 1) then none else some rest

def dropCounted : List UInt8 → Option (List UInt8)
  | low :: high :: rest =>
    if rest.length < Inflate.pair low high then none else some (rest.drop (Inflate.pair low high))
  | _ => none

/-- Whether bytes start with the lower half of a checksum, and the bytes after it. -/
def dropCheck (crc : UInt32) : List UInt8 → Option (List UInt8)
  | low :: high :: rest =>
    if Inflate.pair low high = crc.toNat % 0x10000 then some rest else none
  | _ => none

/-- The deflated data behind a header. The flags say which optional fields the header has; a flag
without a meaning is refused. -/
def body? (file : List UInt8) : Option (List UInt8) :=
  match file with
  | 0x1F :: 0x8B :: 8 :: flags :: _ :: _ :: _ :: _ :: _ :: _ :: rest => do
    let flag (place : Nat) : Bool := flags.toNat.testBit place
    let skip (present : Bool) (field : List UInt8 → Option (List UInt8)) (bytes : List UInt8) :
        Option (List UInt8) := if present then field bytes else some bytes
    if flag 5 || flag 6 || flag 7 then none
    let rest ← skip (flag 2) dropCounted rest
    let rest ← skip (flag 3) dropField rest
    let rest ← skip (flag 4) dropField rest
    skip (flag 1) (fun bytes => dropCheck (crc32 (file.take (file.length - bytes.length))) bytes)
      rest
  | _ => none

/-- A number of thirty-two bits from four bytes, the lowest first. -/
def quad (a b c d : UInt8) : Nat := Inflate.pair a b + 0x10000 * Inflate.pair c d

/-- Whether bytes start with the checksum and the length of a text. -/
def closes (text : List UInt8) : List UInt8 → Bool
  | a :: b :: c :: d :: e :: f :: g :: h :: _ =>
    quad a b c d == (crc32 text).toNat && quad e f g h == text.length % 0x100000000
  | _ => false

/-- The bytes of a file that are at hand at a time. -/
def piece : Nat := 0x8000

/-- How many bytes of text have been handed over when the pieces of a file that show no damage are
used up and another one is asked for. -/
def handedBefore (file data : List UInt8) : Nat :=
  let upTo (count : Nat) : Nat :=
    match inflate (data.take (count * piece - (file.length - data.length))) with
    | (output, .error .cutShort) => output.passed
    | _ => 0
  (List.range (file.length / piece)).foldl (fun most count => max most (upTo (count + 1))) 0

/-- Reads the first member of a file. Text that has been handed over stays when the data turns out to
be damaged, and all of it when the checksum or the length is wrong. -/
def unpack (file : List UInt8) : ByteStream :=
  match body? file with
  | none => ⟨[], .interrupted⟩
  | some data =>
    match inflate data with
    | (output, .ok rest) =>
      ⟨output.toList, if closes output.toList rest.align then .finished else .interrupted⟩
    | (output, .error damage) =>
      ⟨output.toList.take (max (output.handed damage) (handedBefore file data)), .interrupted⟩

end Keypad.Gzip
