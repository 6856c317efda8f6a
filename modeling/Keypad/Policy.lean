import Keypad.Text

/-!
The matching policy: which words of a name may be typed by their initials, and what an empty query
means for a number. A policy asks for a feature by a switch; it is refused when its other fields
would silently take that feature away.
-/
namespace Keypad

structure Policy where
  /-- Whether initials may stand in for whole words. -/
  allowInitials : Bool
  /-- How many leading keys of a word may stand in for it. -/
  initialLimit : Nat
  /-- How many words at the front of a name may be typed by their initials. -/
  leadingWords : Nat
  /-- How many words at the end of a name may be typed by their initials. -/
  trailingWords : Nat
  /-- Whether an empty query, or an empty number, counts as found at length zero. -/
  matchEmpty : Bool
  deriving DecidableEq, Repr

inductive PolicyFault where
  | noInitialLength
  | noEligibleWord
  deriving DecidableEq, Repr

namespace PolicyFault

def message : PolicyFault → Text
  | .noInitialLength =>
    "initial_length_limit must be at least 1 when initials are allowed".toList
  | .noEligibleWord =>
    "no token is eligible for initials; set allow_initial_match to false instead".toList

end PolicyFault

namespace Policy

/-- One leading key may stand for a word among the first two and the last two. -/
def standard : Policy := ⟨true, 1, 2, 2, false⟩

/-- Whether word `index` of a name with `count` words lies in the leading or trailing window. The sum
is taken without a bound. Where ranks and windows are counted in 64 bits it is the same as long as it
stays below 2 to the 64th; overflow is not modelled. -/
def allowsInitial (policy : Policy) (index count : Nat) : Bool :=
  index < policy.leadingWords || count ≤ index + policy.trailingWords

/-- Which of the words of a name with `count` words lie in a window, from the first on. -/
def window (policy : Policy) (count : Nat) : List Bool :=
  (List.range count).map (policy.allowsInitial · count)

/-- Refuses a policy that allows initials and leaves none. The length is judged before the
windows. -/
def validate (policy : Policy) : Except PolicyFault Unit :=
  if policy.allowInitials ∧ policy.initialLimit = 0 then
    .error .noInitialLength
  else if policy.allowInitials ∧ policy.leadingWords = 0 ∧ policy.trailingWords = 0 then
    .error .noEligibleWord
  else
    .ok ()

end Policy
end Keypad
