import Keypad.Text

/-!
Where the user dials from. The country decides whether numbers are read by the North American
Numbering Plan; this can also be said outright.
-/
namespace Keypad

structure Region where
  /-- The two-letter country code in capitals, if one is known. -/
  country : Option Text
  /-- Whether numbers are read by the North American Numbering Plan. -/
  inNumberingPlan : Bool
  deriving DecidableEq, Repr

namespace Region

/-- The countries and territories of the North American Numbering Plan. -/
def numberingPlanCountries : List String :=
  [
    "US", "CA", "AS", "AI", "AG", "BS", "BB", "BM", "VG", "KY", "DM", "DO", "GD", "GU", "JM",
    "PR", "MS", "MP", "KN", "LC", "VC", "TT", "TC", "VI" ]

/-- Whether a country belongs to the North American Numbering Plan. Blanks around it and the case
of its letters do not matter. -/
def isNumberingPlan (country : Text) : Bool :=
  numberingPlanCountries.any fun member => member.toList == Text.upper (Text.trim country)

/-- Nothing is known, and numbers are not read by the plan. -/
def unknown : Region := ⟨none, false⟩

/-- A country code as a source gives it; blank text counts as none. -/
def stated? (source : Option Text) : Option Text :=
  (source.map Text.trim).bind fun code => if code.isEmpty then none else some (Text.upper code)

/-- The region of the present country, or else of the stored one. -/
def detect (present stored : Option Text) : Region :=
  let country := (stated? present).or (stated? stored)
  ⟨country, country.any isNumberingPlan⟩

def ofCountry (country : Text) : Region := detect (some country) none

/-- The same region with the numbering plan switched on or off. -/
def withNumberingPlan (region : Region) (on : Bool) : Region :=
  { region with inNumberingPlan := on }

end Region
/-- The region installed for the whole program. It is set once; before that every reader sees the
unknown region, and afterwards the first one that was set. -/
structure InstalledRegion where
  region? : Option Region
  deriving DecidableEq, Repr

namespace InstalledRegion

def none : InstalledRegion := ⟨.none⟩

def current (installed : InstalledRegion) : Region := installed.region?.getD .unknown

/-- Installs a region, or leaves the one that is there and says so. -/
def install (installed : InstalledRegion) (region : Region) : Option InstalledRegion :=
  match installed.region? with
  | .none => some ⟨some region⟩
  | some _ => .none

end InstalledRegion

end Keypad
