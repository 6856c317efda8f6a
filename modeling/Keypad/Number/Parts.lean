import Keypad.CallingCode
import Keypad.Region

/-!
Parts of a raw phone number: its international calling code and the area code of the North American
Numbering Plan. Places count characters of the raw number; zero means that a part is not there.
-/
namespace Keypad.Number

def digitsFrom (place : Nat) (number : Text) : Digits := Text.digits (number.drop place)

structure Parts where
  /-- The calling code without its plus, empty when there is none. -/
  callingCode : Text
  /-- The place just after the calling code. -/
  callingCodeEnd : Nat
  /-- The place just after the area code. -/
  areaCodeEnd : Nat
  deriving DecidableEq, Repr

namespace Parts

def none : Parts := ⟨[], 0, 0⟩

def hasCallingCode (parts : Parts) : Bool := !parts.callingCode.isEmpty

end Parts

/-- The shortest calling code, of at most three characters, after the plus of a number. At least one
character must follow it. -/
def plusCode? (number : Text) : Option Text :=
  [1, 2, 3].findSome? fun length =>
    let code := (number.drop 1).take length
    if length + 1 < number.length ∧ CallingCode.isKnown code then some code else Option.none

/-- The place of the second numeral, if there is one. -/
def secondDigit? (number : Text) : Option Nat :=
  (number.findIdx? Char.isDigit).bind fun first =>
    ((number.drop (first + 1)).findIdx? Char.isDigit).map (first + 1 + ·)

/-- The calling code of a number and the place after it. A number with a plus carries it there.
Without one, a number of the plan with eleven numerals that starts with `1` carries that `1`. -/
def callingCode (region : Region) (number : Text) : Text × Nat :=
  let digits := Text.digits number
  if number.head? = some '+' then
    match plusCode? number with
    | some code => (code, code.length + 1)
    | Option.none => ([], 0)
  else if digits.length = 11 ∧ digits.head? = some '1' ∧ region.inNumberingPlan then
    (['1'], (secondDigit? number).getD 0)
  else
    ([], 0)

/-- The three numerals of the area code: the first ones of a ten-digit number without calling code,
or those after the `1` of an eleven-digit number. -/
def areaCode? (code : Text) (digits : Digits) : Option Digits :=
  if code = [] ∧ digits.length = 10 then some (digits.take 3)
  else if code = ['1'] ∧ digits.length = 11 then some ((digits.drop 1).take 3)
  else Option.none

/-- The place after the area code. It is looked for as an unbroken stretch behind the calling
code. -/
def areaCodeEnd (region : Region) (code : Text) (codeEnd : Nat) (number : Text) : Nat :=
  if region.inNumberingPlan then
    match areaCode? code (Text.digits number) with
    | some area =>
      match Text.find? area (number.drop codeEnd) with
      | some place => codeEnd + place + area.length
      | Option.none => 0
    | Option.none => 0
  else 0

/-- The parts of a raw number as a user of the region reads it. -/
def parts (region : Region) (number : Text) : Parts :=
  let (code, codeEnd) := callingCode region number
  ⟨code, codeEnd, areaCodeEnd region code codeEnd number⟩

/-- The index of a number: its full digits, the digits after its calling code and the local digits
after its area code. Any beginning of an entry is a way to type the number. An empty number has no
entries. -/
def index (region : Region) (number : Text) : List Digits :=
  if number.isEmpty then []
  else
    let found := parts region number
    [digitsFrom 0 number] ++
      (if found.callingCodeEnd ≠ 0 then [digitsFrom found.callingCodeEnd number] else []) ++
      (if found.areaCodeEnd ≠ 0 then [digitsFrom found.areaCodeEnd number] else [])

end Keypad.Number
