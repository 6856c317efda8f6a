import Keypad.Name.Search
import Keypad.Number.Alignment
import Keypad.Region

/-!
A matcher holds one query and remembers what the last name and the last number matched. Names and
numbers are matched against it one after the other. A step of a matcher is a typed value, so a
session is a list of steps and is replayed by one update function.
-/
namespace Keypad

structure Matcher where
  layout : Layout
  policy : Policy
  region : Region
  /-- The numerals of the text that was last given as the query, as they are shown. -/
  query : Digits
  /-- The keys that are matched. -/
  keys : Digits
  /-- What the last name matched highlights. -/
  namePositions : List Span
  nameMask : Mask
  numberMask : Mask

namespace Matcher

/-- Replaces the query; what is no numeral is dropped. -/
def setQuery (matcher : Matcher) (query : Text) : Matcher :=
  let shown := Text.digits query
  { matcher with query := shown, keys := shown }

/-- A matcher with the standard policy and the installed region, with nothing matched yet. -/
def new (installed : InstalledRegion) (layout : Layout) (query : Text) : Matcher :=
  setQuery ⟨layout, .standard, installed.current, [], [], [], [], []⟩ query

def withPolicy (matcher : Matcher) (policy : Policy) : Matcher :=
  { matcher with policy := policy }

def withRegion (matcher : Matcher) (region : Region) : Matcher :=
  { matcher with region := region }

/-- The spans of a name that an explicit query highlights; nothing is remembered. -/
def nameSpans (matcher : Matcher) (name query : Text) : Option (List Span) :=
  Name.search matcher.layout matcher.policy name (Text.digits query)

/-- The span of a number that the query of the matcher highlights; nothing is remembered. -/
def numberSpan (matcher : Matcher) (number : Text) (useAreaCode : Bool) : Option Span :=
  Number.align matcher.policy matcher.region number matcher.keys useAreaCode

/-- Matches a name and remembers what it highlights, which is nothing when the match fails. -/
def matchName (matcher : Matcher) (name : Text) : Bool × Matcher :=
  match Name.search matcher.layout matcher.policy name matcher.keys with
  | some spans =>
    (true, { matcher with
      namePositions := spans
      nameMask := Mask.highlight name.length spans })
  | none =>
    (false, { matcher with
      namePositions := []
      nameMask := Mask.highlight name.length [] })

/-- Matches a number against given numerals and remembers what it highlights. -/
def matchDigits (matcher : Matcher) (number : Text) (query : Digits) (useAreaCode : Bool) :
    Option Span × Matcher :=
  let found := Number.align matcher.policy matcher.region number query useAreaCode
  (found, { matcher with numberMask := Mask.highlight number.length found.toList })

/-- Matches a number against the keys of the matcher. They are taken out while the number is matched
and put back afterwards. -/
def matchNumber (matcher : Matcher) (number : Text) : Option Span × Matcher :=
  let (found, next) := { matcher with keys := [] }.matchDigits number matcher.keys true
  (found, { next with keys := matcher.keys })

/-- Matches a number against an explicit query and leaves the query and the keys of the matcher
alone. -/
def matchNumberWith (matcher : Matcher) (number query : Text) (useAreaCode : Bool) :
    Option Span × Matcher :=
  matcher.matchDigits number (Text.digits query) useAreaCode

inductive Step where
  | setQuery (query : Text)
  | withPolicy (policy : Policy)
  | withRegion (region : Region)
  | matchName (name : Text)
  | matchNumber (number : Text)
  | matchNumberWith (number query : Text) (useAreaCode : Bool)
  | nameSpans (name query : Text)
  | numberSpan (number : Text) (useAreaCode : Bool)

inductive Reply where
  | done
  | policy (policy : Policy)
  | region (region : Region)
  | verdict (found : Bool)
  | span (found : Option Span)
  | spans (found : Option (List Span))
  deriving DecidableEq

def apply (matcher : Matcher) : Step → Reply × Matcher
  | .setQuery query => (.done, matcher.setQuery query)
  | .withPolicy policy => (.policy policy, matcher.withPolicy policy)
  | .withRegion region => (.region region, matcher.withRegion region)
  | .matchName name => let (found, next) := matcher.matchName name; (.verdict found, next)
  | .matchNumber number => let (found, next) := matcher.matchNumber number; (.span found, next)
  | .matchNumberWith number query useAreaCode =>
    let (found, next) := matcher.matchNumberWith number query useAreaCode; (.span found, next)
  | .nameSpans name query => (.spans (matcher.nameSpans name query), matcher)
  | .numberSpan number useAreaCode => (.span (matcher.numberSpan number useAreaCode), matcher)

/-- Replays a session: after each step its reply and the matcher it leaves. -/
def replay (matcher : Matcher) : List Step → List (Reply × Matcher)
  | [] => []
  | step :: later =>
    let outcome := matcher.apply step
    outcome :: replay outcome.2 later

end Matcher
end Keypad
