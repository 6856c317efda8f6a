import Keypad.Number.Parts
import Keypad.Policy
import Keypad.Span

/-!
Alignment of a query with a raw phone number. The query is laid on the digits of the number from
its start, from after its calling code, and from after its area code; formatting between the digits
is passed over. The first alignment that holds the whole query wins.
-/
namespace Keypad.Number

/-- The place after the character that supplies the last key of a query, for a text that starts at
`place`. Formatting is passed over. -/
def consume (place : Nat) : Text → Digits → Option Nat
  | _, [] => some place
  | [], _ :: _ => none
  | c :: rest, key :: keys =>
    if c.isDigit then
      if c = key then consume (place + 1) rest keys else none
    else
      consume (place + 1) rest (key :: keys)

/-- The span of a query laid on a number from a place on. Formatting before the first digit belongs
to the span only at the very start of the number. An empty query is found, at length zero, just when
the policy says so. -/
def alignAt (policy : Policy) (number : Text) (query : Digits) (place : Nat) : Option Span :=
  if query.isEmpty then
    if policy.matchEmpty then some ⟨place, place⟩ else none
  else
    let rest := number.drop place
    let start := if place = 0 then 0 else place + (rest.takeWhile (!·.isDigit)).length
    (consume place rest query).map fun stop => ⟨start, stop⟩

/-- The span of a query in a number. An empty number is treated like an empty query. The alignment
after the area code is tried only when `useAreaCode` is set. -/
def align (policy : Policy) (region : Region) (number : Text) (query : Digits)
    (useAreaCode : Bool) : Option Span :=
  if number.isEmpty then
    if policy.matchEmpty then some ⟨0, 0⟩ else none
  else
    let found := parts region number
    (alignAt policy number query 0).or <|
      (if found.callingCodeEnd ≠ 0 then alignAt policy number query found.callingCodeEnd
        else none).or <|
        if useAreaCode ∧ found.areaCodeEnd ≠ 0 then alignAt policy number query found.areaCodeEnd
        else none

end Keypad.Number
