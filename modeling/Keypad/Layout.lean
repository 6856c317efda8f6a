import Keypad.Romanization

/-!
Keypad layouts. A layout says which key a character is typed on. It is asked about single
characters and is total: a character it does not know has no key and normalizes to itself.
-/
namespace Keypad

abbrev Key := Fin 10

namespace Key

def char (key : Key) : Char := Char.ofNat ('0'.toNat + key.val)

def ofDigit? (c : Char) : Option Key :=
  if c.isDigit then some (Fin.ofNat 10 (c.toNat - '0'.toNat)) else none

/-- The key of each basic letter, from `a` to `z`. -/
def letterKeys : List Key :=
  [ 2, 2, 2, 3, 3, 3, 4, 4, 4, 5, 5, 5, 6, 6, 6, 7, 7, 7, 7, 8, 8, 8, 9, 9, 9, 9 ]

/-- The key of a small basic letter. -/
def ofLetter? (c : Char) : Option Key :=
  if c.isLower then letterKeys[c.toNat - 'a'.toNat]? else none

end Key

/-! ## The Latin letters

Capitals and the accented letters of the blocks Latin-1 Supplement and Latin Extended-A fold to their
small basic letter; every other character stands for itself, so folding twice is folding once. -/

namespace Latin

def accented : LetterTable :=
  [ ⟨0xC0, "aaaaaaaceeeeiiiidnoooooxouuuuytsaaaaaaaceeeeiiiidnooooo.ouuuuyty".toList⟩,
    ⟨0x100, "aaaaaaccccccccddddeeeeeeeeeegggggggghhhhiiiiiiiiiiiijjkkklllllll".toList⟩,
    ⟨0x140, "lllnnnnnnnnnoooooooorrrrrrssssssssttttttuuuuuuuuuuuuwwyyyzzzzzzs".toList⟩ ]

/-- The small basic letter of `c`, or `c` itself when it is no Latin letter of the tables. -/
def fold (c : Char) : Char :=
  if c.isUpper then c.toLower else (accented.letter? c).getD c

end Latin

/-! ## The Russian letters -/

namespace Russian

/-- Capitals fold to small letters and `ё` to `е`. -/
def fold (c : Char) : Char :=
  if 'А' ≤ c ∧ c ≤ 'Я' then Char.ofNat (c.toNat + 0x20)
  else if c = 'Ё' ∨ c = 'ё' then 'е'
  else c

/-- The small letters from `а` to `я`. -/
def isLetter (c : Char) : Bool := 'а' ≤ c && c ≤ 'я'

/-- Four letters share a key, starting with `абвг` on key 2. -/
def key? (c : Char) : Option Key :=
  if isLetter c then some (Fin.ofNat 10 ((c.toNat - 'а'.toNat) / 4 + 2)) else none

end Russian

/-! ## Layouts -/

/-- A keypad layout: one of two scripts, the Latin keypad with the letters that a table reads other
characters by, or the Latin keypad backed by another layout that is asked about the characters the
Latin keypad does not know. A table can read characters by any letters
(`LetterTable.exists_letter?_eq`). -/
inductive Layout where
  | latin
  | russian
  | romanizedBy (table : LetterTable)
  | latinOnly
  | latinThen (secondary : Layout)
  deriving DecidableEq, Repr

namespace Layout

/-- The layout of the romanization that names are read by. -/
def romanized : Layout := .romanizedBy Romanization.table

/-- The small, unaccented form of a character, or the character itself when the layout does not
know it. -/
def normalize : Layout → Char → Char
  | .latin, c => Latin.fold c
  | .russian, c => Russian.fold c
  | .romanizedBy table, c =>
    let folded := Latin.fold c
    if folded ≠ c ∨ c.toNat < 128 then folded else (table.letter? c).getD c
  | .latinOnly, c =>
    let folded := Latin.fold c
    if folded ≠ c ∨ (Latin.fold folded).isLower then folded else c
  | .latinThen secondary, c =>
    let folded := Latin.fold c
    if folded ≠ c ∨ (Latin.fold folded).isLower then folded else secondary.normalize c

/-- Whether a character is a letter of some key. -/
def isAlphabetic : Layout → Char → Bool
  | .latin, c => (Latin.fold c).isLower
  | .russian, c => Russian.isLetter (Russian.fold c)
  | .romanizedBy table, c => (normalize (.romanizedBy table) c).isLower
  | .latinOnly, c => (Latin.fold c).isLower
  | .latinThen secondary, c => (Latin.fold c).isLower || secondary.isAlphabetic c

def key? : Layout → Char → Option Key
  | .latin, c => (Key.ofDigit? c).or (Key.ofLetter? (Latin.fold c))
  | .russian, c => (Key.ofDigit? c).or (Russian.key? (Russian.fold c))
  | .romanizedBy table, c =>
    (Key.ofDigit? c).or (Key.ofLetter? (normalize (.romanizedBy table) c))
  | .latinOnly, c => (Key.ofDigit? c).or (Key.ofLetter? (Latin.fold c))
  | .latinThen secondary, c =>
    ((Key.ofDigit? c).or (Key.ofLetter? (Latin.fold c))).or (secondary.key? c)

/-- Whether a character is one of the ten numerals; these are the same on every layout. -/
def isNumeric (_ : Layout) (c : Char) : Bool := c.isDigit

/-- Whether a character can be typed at all. -/
def isDialable (layout : Layout) (c : Char) : Bool :=
  layout.isAlphabetic c || layout.isNumeric c

/-- The numeral of a letter's key. A character that is no letter of the layout stays. -/
def digitChar (layout : Layout) (c : Char) : Char :=
  if layout.isAlphabetic c then ((layout.key? c).map Key.char).getD c else c

/-- The layout for a language tag such as `ru` or `ru-RU`: the Latin keypad, backed by the Russian
one when the language is Russian. Case and what follows the first hyphen or underscore do not
matter. -/
def ofLanguage (tag : Text) : Layout :=
  match Text.pieces (fun c => c == '-' || c == '_') tag with
  | language :: _ => if Text.lower language = "ru".toList then .latinThen .russian else .latinOnly
  | [] => .latinOnly

def hasSecondary : Layout → Bool
  | .latinThen _ => true
  | _ => false

def describe (layout : Layout) : Text :=
  "CompositeDialpadMap \x7b secondary: ".toList ++
    (if layout.hasSecondary then "true".toList else "false".toList) ++ " \x7d".toList

end Layout
end Keypad
