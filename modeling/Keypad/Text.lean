/-!
Text as a sequence of characters. Every index, offset and length of the library counts characters,
so names, numbers and queries are lists of them.
-/
namespace Keypad

abbrev Text := List Char

abbrev Digits := Text

namespace Text

/-- The characters with the Unicode property White_Space. -/
def isBlank (c : Char) : Bool :=
  let n := c.toNat
  (0x09 ≤ n && n ≤ 0x0D) || n == 0x20 || n == 0x85 || n == 0xA0 || n == 0x1680 ||
    (0x2000 ≤ n && n ≤ 0x200A) || n == 0x2028 || n == 0x2029 || n == 0x202F ||
    n == 0x205F || n == 0x3000

def trim (text : Text) : Text :=
  ((text.dropWhile isBlank).reverse.dropWhile isBlank).reverse

/-- Capitals for the twenty-six basic letters; every other character stays. -/
def upper (text : Text) : Text := text.map Char.toUpper

/-- Small letters for the twenty-six basic capitals; every other character stays. -/
def lower (text : Text) : Text := text.map Char.toLower

def ofNat (n : Nat) : Text := Nat.toDigits 10 n

def toNat (digits : Digits) : Nat :=
  digits.foldl (fun value c => value * 10 + (c.toNat - '0'.toNat)) 0

/-- What a count stays below: 2 to the 64th. -/
def countBound : Nat := 0x10000000000000000

/-- The numerals of a text, in order: formatting and letters are dropped. -/
def digits (text : Text) : Digits := text.filter Char.isDigit

/-- The position of the first stretch equal to `needle`. -/
def find? (needle : Text) : Text → Option Nat
  | [] => if needle.isEmpty then some 0 else none
  | c :: rest =>
    if needle.isPrefixOf (c :: rest) then some 0 else (find? needle rest).map (· + 1)

/-- The pieces between the occurrences of `separator`; there is always at least one. -/
def pieces (separator : Char → Bool) : Text → List Text
  | [] => [[]]
  | c :: rest =>
    match separator c, pieces separator rest with
    | true, found => [] :: found
    | false, first :: more => (c :: first) :: more
    | false, [] => [[c]]

/-- The texts one after the other with `separator` between neighbours. -/
def join (separator : Text) : List Text → Text
  | [] => []
  | [text] => text
  | text :: more => text ++ separator ++ join separator more

end Text
end Keypad
