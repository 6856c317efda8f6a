import Keypad.Proofs.Text

/-!
The grammar of JSON, as a description of texts that knows no reader. Blanks may stand around every
token. The body of a string is what stands between its quotes; a body may spell a text, and one
whose escapes give code units without their partners spells none.
-/
namespace Keypad.Json.Grammar

def Blank (text : Text) : Prop := ∀ c ∈ text, c = ' ' ∨ c = '\n' ∨ c = '\t' ∨ c = '\x0d'

theorem Blank.nil : Blank [] := nofun

/-! ## Strings -/

/-- The letters and marks that may follow a backslash, each with the character it stands for. -/
def shortEscapes : List (Char × Char) :=
  [ ('"', '"'), ('\\', '\\'), ('/', '/'), ('b', '\x08'), ('f', '\x0c'), ('n', '\n'), ('r', '\x0d'),
    ('t', '\t') ]

/-- The hexadecimal digits with their values; letters may be small or capital. -/
def hexDigits : List (Char × Nat) :=
  "0123456789abcdef".toList.zipIdx ++ "ABCDEF".toList.zipIdx 10

/-- Four hexadecimal digits and the number they denote. -/
inductive CodeUnit : Text → Nat → Prop where
  | digits {a b c d : Char × Nat} (ha : a ∈ hexDigits) (hb : b ∈ hexDigits) (hc : c ∈ hexDigits)
      (hd : d ∈ hexDigits) :
      CodeUnit [a.1, b.1, c.1, d.1] (a.2 * 4096 + b.2 * 256 + c.2 * 16 + d.2)

/-- A character that may stand in a string as it is. -/
def Plain (c : Char) : Prop := 0x20 ≤ c.toNat ∧ c ≠ '"' ∧ c ≠ '\\'

instance : DecidablePred Plain := fun c =>
  inferInstanceAs (Decidable (0x20 ≤ c.toNat ∧ c ≠ '"' ∧ c ≠ '\\'))

/-- The bodies of strings. -/
inductive IsBody : Text → Prop where
  | nil : IsBody []
  | plain {c : Char} {body : Text} (h : Plain c) (more : IsBody body) : IsBody (c :: body)
  | short {mark c : Char} {body : Text} (h : (mark, c) ∈ shortEscapes) (more : IsBody body) :
      IsBody ('\\' :: mark :: body)
  | unit {digits body : Text} {code : Nat} (h : CodeUnit digits code) (more : IsBody body) :
      IsBody ('\\' :: 'u' :: (digits ++ body))

/-- A code unit that is the first of a pair. -/
def High (code : Nat) : Prop := 0xD800 ≤ code ∧ code < 0xDC00

/-- A code unit that is the second of a pair. -/
def Low (code : Nat) : Prop := 0xDC00 ≤ code ∧ code < 0xE000

/-- A body of a string and the text it spells. -/
inductive Spells : Text → Text → Prop where
  | nil : Spells [] []
  | plain {c : Char} {body text : Text} (h : Plain c) (more : Spells body text) :
      Spells (c :: body) (c :: text)
  | short {mark c : Char} {body text : Text} (h : (mark, c) ∈ shortEscapes)
      (more : Spells body text) : Spells ('\\' :: mark :: body) (c :: text)
  | unit {digits body text : Text} {code : Nat} (h : CodeUnit digits code) (notHigh : ¬ High code)
      (notLow : ¬ Low code) (more : Spells body text) :
      Spells ('\\' :: 'u' :: (digits ++ body)) (Char.ofNat code :: text)
  | pair {first second body text : Text} {high low : Nat} (h : CodeUnit first high)
      (h' : CodeUnit second low) (isHigh : High high) (isLow : Low low)
      (more : Spells body text) :
      Spells ('\\' :: 'u' :: (first ++ '\\' :: 'u' :: (second ++ body)))
        (Char.ofNat (0x10000 + (high - 0xD800) * 0x400 + (low - 0xDC00)) :: text)

/-- A text of plain characters spells itself. -/
theorem Spells.of_plain {text : Text} (h : ∀ c ∈ text, Plain c) : Spells text text := by
  induction text with
  | nil => exact .nil
  | cons c text ih =>
    obtain ⟨first, more⟩ := List.forall_mem_cons.mp h
    exact .plain first (ih more)

/-- What spells a text is a body. -/
theorem Spells.isBody {body text : Text} (h : Spells body text) : IsBody body := by
  induction h with
  | nil => exact .nil
  | plain h _ ih => exact .plain h ih
  | short h _ ih => exact .short h ih
  | unit h _ _ _ ih => exact .unit h ih
  | pair h h' _ _ _ ih => exact .unit h (.unit h' ih)

/-! ## Numerals -/

/-- One digit or more. -/
def IsDigits (digits : Text) : Prop := digits ≠ [] ∧ ∀ c ∈ digits, c.isDigit = true

/-- Zero, or digits that do not start with zero. -/
def IsWhole (digits : Text) : Prop :=
  IsDigits digits ∧ (digits.head? = some '0' → digits = ['0'])

/-- A point with digits behind it, or nothing. -/
inductive IsFraction : Text → Prop where
  | none : IsFraction []
  | some {digits : Text} (h : IsDigits digits) : IsFraction ('.' :: digits)

/-- A mark, perhaps a sign, and digits, or nothing. -/
inductive IsExponent : Text → Prop where
  | none : IsExponent []
  | some {mark : Char} {sign digits : Text} (marked : mark = 'e' ∨ mark = 'E')
      (signed : sign = [] ∨ sign = ['-'] ∨ sign = ['+']) (h : IsDigits digits) :
      IsExponent (mark :: (sign ++ digits))

inductive IsNumeral : Text → Prop where
  | parts {sign whole fraction exponent : Text} (signed : sign = [] ∨ sign = ['-'])
      (h : IsWhole whole) (h' : IsFraction fraction) (h'' : IsExponent exponent) :
      IsNumeral (sign ++ (whole ++ (fraction ++ exponent)))

/-- The decimal digits of a count are a numeral. -/
theorem IsNumeral.ofNat (n : Nat) : IsNumeral (Text.ofNat n) := by
  have digits : IsDigits (Text.ofNat n) :=
    ⟨Text.ofNat_ne_nil n, fun _ mem => Text.isDigit_of_mem_ofNat mem⟩
  have whole : IsWhole (Text.ofNat n) := by
    refine ⟨digits, fun start => ?_⟩
    rw [Text.head?_ofNat start]
    rfl
  have numeral := IsNumeral.parts (.inl rfl) whole .none .none
  rwa [List.nil_append, List.append_nil, List.append_nil] at numeral

/-! ## Values -/

/-- What follows an item: further items, each behind a comma, and blanks at the end. -/
inductive Further : List Text → Text → Prop where
  | done {blanks : Text} (h : Blank blanks) : Further [] blanks
  | next {before after item text : Text} {items : List Text} (h : Blank before)
      (h' : Blank after) (more : Further items text) :
      Further (item :: items) (before ++ ',' :: (after ++ (item ++ text)))

/-- What stands between the brackets of an array or the braces of an object: items with commas
between them. -/
inductive Row : List Text → Text → Prop where
  | none {blanks : Text} (h : Blank blanks) : Row [] blanks
  | some {blanks item text : Text} {items : List Text} (h : Blank blanks)
      (more : Further items text) : Row (item :: items) (blanks ++ (item ++ text))

/-- Behind the first of some texts with commas between them the others follow. -/
theorem further_join (item : Text) (items : List Text) :
    ∃ text, Text.join [','] (item :: items) = item ++ text ∧ Further items text := by
  induction items generalizing item with
  | nil => exact ⟨[], (List.append_nil item).symm, .done .nil⟩
  | cons next items ih =>
      obtain ⟨text, joined, further⟩ := ih next
      refine ⟨[] ++ ',' :: ([] ++ (next ++ text)), ?_, .next .nil .nil further⟩
      change item ++ [','] ++ Text.join [','] (next :: items) = _
      rw [joined, List.append_assoc]
      rfl

/-- Texts with commas between them are a row. -/
theorem Row.join (items : List Text) : Row items (Text.join [','] items) := by
  cases items with
  | nil => exact .none .nil
  | cons item items =>
      obtain ⟨text, joined, further⟩ := further_join item items
      rw [joined]
      exact .some .nil further

/-- The name of a member, in quotes and with its colon. -/
inductive Head : Text → Text → Prop where
  | name {body before after : Text} (h : Blank before) (h' : Blank after) :
      Head body ('"' :: (body ++ '"' :: (before ++ ':' :: after)))

inductive IsValue : Text → Prop where
  | word {word : String} (h : word ∈ ["null", "true", "false"]) : IsValue word.toList
  | numeral {numeral : Text} (h : IsNumeral numeral) : IsValue numeral
  | quoted {body : Text} (h : IsBody body) : IsValue ('"' :: (body ++ ['"']))
  | array {items : List Text} {text : Text} (h : ∀ item ∈ items, IsValue item)
      (row : Row items text) : IsValue ('[' :: (text ++ [']']))
  | object {members : List (Text × Text)} {text : Text}
      (heads : ∀ member ∈ members, ∃ body, IsBody body ∧ Head body member.1)
      (values : ∀ member ∈ members, IsValue member.2)
      (row : Row (members.map fun member => member.1 ++ member.2) text) :
      IsValue ('\x7b' :: (text ++ ['\x7d']))

end Keypad.Json.Grammar
