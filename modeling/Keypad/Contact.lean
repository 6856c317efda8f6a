import Keypad.Matcher

/-!
Contacts, and the search over a list of them with one query. One matcher goes through the list.
Contacts that match by name come first and those that match by number alone after them, each group
in list order.
-/
namespace Keypad

/-- A display name and, if there is one, a raw phone number. -/
structure Contact where
  name : Text
  number : Option Text
  deriving DecidableEq, Repr

/-- How many contacts a search went through and how many matched by name and by number. -/
structure Tally where
  scanned : Nat
  byName : Nat
  byNumber : Nat
  deriving DecidableEq, Repr

namespace Tally

def zero : Tally := ⟨0, 0, 0⟩

def count (tally : Tally) (byName byNumber : Bool) : Tally :=
  ⟨tally.scanned + 1, tally.byName + byName.toNat, tally.byNumber + byNumber.toNat⟩

end Tally

structure Hit where
  contact : Contact
  /-- Empty when only the number matched. -/
  namePositions : List Span
  nameMask : Mask
  numberPosition : Option Span
  /-- Present when the number matched. -/
  numberMask : Option Mask
  deriving DecidableEq, Repr

namespace Hit

def matchedName (hit : Hit) : Bool := !hit.namePositions.isEmpty

end Hit

/-- A search under way: its matcher, its tally and the hits of both groups so far. -/
structure Sweep where
  matcher : Matcher
  tally : Tally
  byName : Array Hit
  byNumber : Array Hit

namespace Sweep

def begin (installed : InstalledRegion) (policy : Policy) (region : Region) (query : Text) :
    Sweep :=
  ⟨((Matcher.new installed .latin query).withPolicy policy).withRegion region, .zero, #[], #[]⟩

/-- Matches one contact by its name and then by its number, if it has one. -/
def visit (sweep : Sweep) (contact : Contact) : Sweep :=
  let (byName, named) := sweep.matcher.matchName contact.name
  let (place, matcher) :=
    match contact.number with
    | some number => named.matchNumber number
    | none => (none, named)
  let tally := sweep.tally.count byName place.isSome
  let hit : Hit :=
    ⟨contact, matcher.namePositions, matcher.nameMask, place,
      place.map fun _ => matcher.numberMask⟩
  if byName then
    { sweep with matcher, tally, byName := sweep.byName.push hit }
  else if place.isSome then
    { sweep with matcher, tally, byNumber := sweep.byNumber.push hit }
  else
    { sweep with matcher, tally }

end Sweep

namespace Contact

/-- The hits of a query in a contact list, and the tally of the search. -/
def search (installed : InstalledRegion) (contacts : List Contact) (query : Text)
    (policy : Policy) (region : Region) : List Hit × Tally :=
  let sweep := contacts.foldl Sweep.visit (.begin installed policy region query)
  (sweep.byName.toList ++ sweep.byNumber.toList, sweep.tally)

end Contact
end Keypad
