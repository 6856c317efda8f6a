import Keypad.Builtin.Json.Source

/-!
Numerals of JSON. A numeral is kept as it is written. It denotes a count when it is a plain
sequence of digits below 2 to the 64th. Its magnitude is judged in binary floating point with 53
significant bits: a numeral that rounds to infinity there is refused, whatever it is read as.
Where one is read, a whole number starts with zero only if that is all of it; a fraction and an
exponent have one digit at least.
-/
namespace Keypad.Json

structure Exponent where
  negative : Bool
  digits : Digits
  deriving DecidableEq, Repr

structure Numeral where
  negative : Bool
  whole : Digits
  fraction : Option Digits
  exponent : Option Exponent
  deriving DecidableEq, Repr

namespace Exponent

/-- Exponents from this size on are not told apart. -/
def bound : Nat := 0x80000000

/-- The size of an exponent, counted up to the bound and no further. -/
def size (exponent : Exponent) : Nat :=
  exponent.digits.foldl (fun size c => min bound (size * 10 + (c.toNat - '0'.toNat))) 0

theorem foldl_min_bound (digits : Digits) (size : Nat) :
    digits.foldl (fun size c => min bound (size * 10 + (c.toNat - '0'.toNat))) (min bound size) =
      min bound (digits.foldl (fun value c => value * 10 + (c.toNat - '0'.toNat)) size) := by
  induction digits generalizing size with
  | nil => rfl
  | cons c rest ih =>
    have step : min bound (min bound size * 10 + (c.toNat - '0'.toNat)) =
        min bound (size * 10 + (c.toNat - '0'.toNat)) := by
      simp only [bound]; omega
    rw [List.foldl_cons, List.foldl_cons, step, ih]

/-- Below the bound the size is the number that the digits denote. -/
theorem size_eq_min (exponent : Exponent) :
    exponent.size = min bound (Text.toNat exponent.digits) := by
  have start : min bound 0 = 0 := by simp only [bound]; omega
  rw [size, Text.toNat, ← foldl_min_bound, start]

end Exponent

namespace Numeral

/-- Drops the first `n` bits of a quotient: rounds a number to a multiple of a power of two, a tie
to the even multiple. -/
def roundBits (n value : Nat) : Nat :=
  let unit := 1 <<< n
  let quotient := value / unit
  let excess := 2 * (value % unit)
  if unit < excess ∨ (excess = unit ∧ quotient % 2 = 1) then (quotient + 1) * unit
  else quotient * unit

/-- The nearest number with at most 53 significant bits. -/
def round53 (value : Nat) : Nat :=
  let bits := value.log2 + 1
  if bits ≤ 53 then value else roundBits (bits - 53) value

/-- Appends digits to a significand while it stays below 2 to the 64th, and says how many of them it
took. -/
def absorb (significand : Nat) : Digits → Nat × Nat
  | [] => (significand, 0)
  | c :: rest =>
    let longer := significand * 10 + (c.toNat - 0x30)
    if longer < Text.countBound then
      let (final, taken) := absorb longer rest
      (final, taken + 1)
    else (significand, 0)

/-- The significand and the power of ten of a numeral. -/
def scientific (numeral : Numeral) : Nat × Int :=
  let (whole, taken) := absorb 0 numeral.whole
  let (significand, places) := absorb whole (numeral.fraction.getD [])
  let written : Int := match numeral.exponent with
    | some exponent => if exponent.negative then - (exponent.size : Int) else exponent.size
    | none => 0
  (significand, (numeral.whole.length - taken : Nat) - (places : Int) + written)

/-- Whether a numeral is too large for floating point. -/
def isInfinite (numeral : Numeral) : Bool :=
  let (significand, power) := numeral.scientific
  if significand = 0 ∨ power < 0 then false
  else if 308 < power then true
  else 1 <<< 1024 - 1 <<< 970 ≤ round53 significand * round53 (Nat.pow 10 power.toNat)

/-- Whether the exponent alone makes a numeral too large, so that no further digit matters. -/
def isBeyond (numeral : Numeral) : Bool :=
  match numeral.exponent with
  | some exponent =>
    !exponent.negative && numeral.scientific.1 != 0 && Exponent.bound ≤ exponent.size
  | none => false

def count? (numeral : Numeral) : Option Nat :=
  let value := Text.toNat numeral.whole
  if numeral.negative ∨ numeral.fraction.isSome ∨ numeral.exponent.isSome ∨
      Text.countBound ≤ value then none
  else some value

end Numeral

/-! ## Reading -/

/-- The digits in front of a source and what comes after them. -/
def Source.digits : (source : Source) → Digits × Remainder source
  | .stop ending => ([], .all (.stop ending))
  | .stray byte rest => ([], .all (.stray byte rest))
  | .char c rest =>
    if c.isDigit then
      let (found, left) := digits rest
      (c :: found, left.behind c)
    else ([], .all (.char c rest))

namespace Numeral

/-- One digit or more. `short` is the fault when the source ends instead. -/
def someDigits (short : Ending → Fault) : (source : Source) → Except Fault (Scanned Digits source)
  | .stop ending => .error (short ending)
  | .stray _ _ => .error .malformed
  | .char c rest =>
    if c.isDigit then
      let (found, left) := rest.digits
      .ok (.of (c :: found) c left)
    else .error .malformed

def wholeDigits (short : Ending → Fault) (source : Source) :
    Except Fault (Scanned Digits source) := do
  let found ← someDigits short source
  if found.value.head? = some '0' ∧ found.value ≠ ['0'] then .error .malformed else .ok found

def fractionDigits (short : Ending → Fault) :
    (source : Source) → Except Fault (Option Digits × Remainder source)
  | .char '.' rest =>
    (someDigits short rest).map fun found => (some found.value, found.left.behind '.')
  | other => .ok (none, .all other)

/-- A sign, if there is one: whether it is a minus. -/
def sign : (source : Source) → Bool × Remainder source
  | .char '-' rest => (true, (Remainder.all rest).behind '-')
  | .char '+' rest => (false, (Remainder.all rest).behind '+')
  | other => (false, .all other)

/-- The mark of an exponent with its digits, or nothing. -/
def exponentDigits (short : Ending → Fault) :
    (source : Source) → Except Fault (Option Exponent × Remainder source)
  | .char c rest =>
    if c = 'e' ∨ c = 'E' then
      let (negative, unsigned) := sign rest
      (someDigits short unsigned.rest).map fun found =>
        (some ⟨negative, found.value⟩, (found.left.within unsigned.le).behind c)
    else .ok (none, .all (.char c rest))
  | other => .ok (none, .all other)

/-- A numeral without its sign. One that is refused as it stands is refused at once. A reader that
broke off right after it is found out here, since more digits might have followed. -/
def unsigned (short : Ending → Fault) (refused : Numeral → Bool) (negative : Bool)
    (source : Source) : Except Fault (Scanned Numeral source) := do
  let whole ← wholeDigits short source
  let (fraction, afterFraction) ← fractionDigits short whole.rest
  let (exponent, left) ← exponentDigits short afterFraction.rest
  let numeral : Numeral := ⟨negative, whole.value, fraction, exponent⟩
  if refused numeral then .error .malformed
  else if left.rest = .stop .interrupted then .error .unreadable
  else .ok (whole.extend numeral (left.within afterFraction.le))

def scan (short : Ending → Fault) (refused : Numeral → Bool) :
    (source : Source) → Except Fault (Scanned Numeral source)
  | .char '-' rest => (unsigned short refused true rest).map (·.behind '-')
  | other => unsigned short refused false other

/-- Reads a numeral; one that is too large is refused. -/
def read (source : Source) : Except Fault (Scanned Numeral source) := do
  let found ← scan Ending.fault isBeyond source
  if found.value.isInfinite then .error .malformed else .ok found

/-- The fault of a numeral that is passed over and ends too early: there it is no numeral at all. -/
def skipFault : Ending → Fault
  | .finished => .malformed
  | .interrupted => .unreadable

def skip (source : Source) : Except Fault (Scanned Unit source) :=
  (scan skipFault (fun _ => false) source).map (·.map fun _ => ())

end Numeral
end Keypad.Json
