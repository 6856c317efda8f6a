import Keypad.Contact
import Keypad.Number.Parts
import Keypad.Schema

/-!
Reports of the command line, each as lines of text and as a JSON value.
-/
namespace Keypad.CommandLine

open Json (Value)

def ofLines (lines : List Text) : Text := lines.flatMap fun line => line ++ ['\n']

def textArray (texts : List Text) : Value := .array (texts.map Value.text)

def maskValue (mask : Mask) : Value := .text mask.render

/-! ## Numbers -/

structure NumberReport where
  number : Text
  parts : Number.Parts
  index : List Digits

namespace NumberReport

def of (region : Region) (number : Text) : NumberReport :=
  ⟨number, Number.parts region number, Number.index region number⟩

def lines (report : NumberReport) : List Text :=
  let parts := report.parts
  let code :=
    if parts.hasCallingCode then
      "Country code: +".toList ++ parts.callingCode ++ " (offset ".toList ++
        Text.ofNat parts.callingCodeEnd ++ ")".toList
    else "Country code: none".toList
  let area :=
    if parts.areaCodeEnd ≠ 0 then
      ["NANP area code ends at: ".toList ++ Text.ofNat parts.areaCodeEnd]
    else []
  [code] ++ area ++ ["Prefixes: ".toList ++ Text.join ", ".toList report.index]

def value (report : NumberReport) : Value :=
  .object [
    ("number".toList, .text report.number),
    ("tokens".toList, Schema.numberParts.encode report.parts),
    ("prefixes".toList, textArray report.index)]

end NumberReport

/-! ## Matches -/

structure NameReport where
  name : Text
  matched : Bool
  positions : List Span
  mask : Mask

structure NumberMatchReport where
  number : Text
  position : Option Span
  mask : Mask

/-- What a query found in a name, in a number, or in both. -/
structure MatchReport where
  query : Digits
  name : Option NameReport
  number : Option NumberMatchReport

namespace MatchReport

/-- Matches the name first and then the number, each if it is given. -/
def of (matcher : Matcher) (name number : Option Text) : MatchReport :=
  let (matched, afterName) :=
    match name with
    | some name => matcher.matchName name
    | none => (false, matcher)
  let (position, final) :=
    match number with
    | some number => afterName.matchNumber number
    | none => (none, afterName)
  { query := final.query
    name := name.map fun name => ⟨name, matched, final.namePositions, final.nameMask⟩
    number := number.map fun number => ⟨number, position, final.numberMask⟩ }

def lines (report : MatchReport) : List Text :=
  let name := match report.name with
    | some name =>
      ["Name:   ".toList ++ name.name,
        "        ".toList ++ name.mask.render ++ "  ".toList ++ Span.describeAll name.positions]
    | none => []
  let number := match report.number with
    | some number =>
      ["Number: ".toList ++ number.number,
        match number.position with
        | some position =>
          "        ".toList ++ number.mask.render ++ "  ".toList ++ position.describe
        | none => "        no match".toList]
    | none => []
  name ++ number

def value (report : MatchReport) : Value :=
  .object [
    ("query".toList, .text report.query),
    ("name".toList, Value.ofOption (fun name =>
      .object [
        ("name".toList, .text name.name),
        ("matched".toList, .bool name.matched),
        ("positions".toList, .array (name.positions.map Schema.span.encode)),
        ("mask".toList, maskValue name.mask)]) report.name),
    ("number".toList, Value.ofOption (fun number =>
      .object [
        ("number".toList, .text number.number),
        ("position".toList, Value.ofOption Schema.span.encode number.position),
        ("mask".toList, maskValue number.mask)]) report.number)]

end MatchReport

/-! ## Searches -/

namespace Hit

/-- The contact of a hit, and beneath it a mask under the name, or else under the number. The mask of
a number is set in by a column as wide as the name. A formatter that counts the width of a column in
16 bits fails on a name of 65536 characters or more; that failure is not modelled, and what is said
of printed lines is meant for shorter names. -/
def lines (hit : Hit) : List Text :=
  let contact := hit.contact.name ++ "  ".toList ++ hit.contact.number.getD ['-']
  if hit.matchedName then [contact, hit.nameMask.render]
  else
    match hit.numberMask with
    | some mask =>
      [contact, List.replicate hit.contact.name.length ' ' ++ "  ".toList ++ mask.render]
    | none => [contact]

def value (hit : Hit) : Value :=
  .object [
    ("contact".toList, Schema.contact.encode hit.contact),
    ("name_positions".toList, .array (hit.namePositions.map Schema.span.encode)),
    ("name_mask".toList, maskValue hit.nameMask),
    ("number_position".toList, Value.ofOption Schema.span.encode hit.numberPosition),
    ("number_mask".toList, Value.ofOption maskValue hit.numberMask)]

end Hit

/-- The hits of a search, of which at most `limit` are shown. -/
structure SearchReport where
  query : Text
  hits : List Hit
  tally : Tally
  limit : Option Nat

namespace SearchReport

def shown (report : SearchReport) : List Hit :=
  report.hits.take (report.limit.getD report.hits.length)

def summary (report : SearchReport) : Text :=
  Text.ofNat report.hits.length ++ " of ".toList ++ Text.ofNat report.tally.scanned ++
    " contacts matched (".toList ++ Text.ofNat report.tally.byName ++ " by name, ".toList ++
    Text.ofNat report.tally.byNumber ++ " by number)".toList

def lines (report : SearchReport) : List Text :=
  if report.shown.isEmpty then ["No contacts found matching: ".toList ++ report.query]
  else report.shown.flatMap Hit.lines ++ [report.summary]

def value (report : SearchReport) : Value := .array (report.shown.map Hit.value)

end SearchReport

end Keypad.CommandLine
