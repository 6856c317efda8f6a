import Keypad.Matcher

/-!
Uses of the installed region in the order a program makes them: reading it, installing one, and
matching a number with a matcher built on the spot.
-/
namespace Keypad.InstalledRegion

inductive Step where
  | current
  | install (region : Region)
  | matchNumber (query number : Text)

inductive Reply where
  | region (region : Region)
  | installed
  | alreadyInstalled
  | span (found : Option Span)
  deriving DecidableEq

/-- Carries out one use. A refused installation changes nothing. -/
def apply (installed : InstalledRegion) : Step → Reply × InstalledRegion
  | .current => (.region installed.current, installed)
  | .install region =>
    match installed.install region with
    | some next => (.installed, next)
    | .none => (.alreadyInstalled, installed)
  | .matchNumber query number =>
    (.span ((Matcher.new installed .latin query).numberSpan number true), installed)

def replies (installed : InstalledRegion) : List Step → List Reply
  | [] => []
  | step :: later =>
    let (reply, next) := installed.apply step
    reply :: replies next later

end Keypad.InstalledRegion
