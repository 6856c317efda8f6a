import Keypad.CommandLine
import Keypad.Proofs.Contact.Search

/-!
Reports of the command line. A report on a name and a number says of them what a search says of a
list that holds nothing else, although the one takes the region from what is installed and the other
is given it.
-/
namespace Keypad

namespace CommandLine

namespace MatchReport

/-- Whether the report says that the name matched. -/
def matched (report : MatchReport) : Bool := report.name.any (·.matched)

/-- Where the report says that the number matched. -/
def position? (report : MatchReport) : Option Span := report.number.bind (·.position)

/-- A hit highlights what a report does, and its number as far as a number was found. -/
structure Shows (report : MatchReport) (hit : Hit) : Prop where
  name : ∃ named, report.name = some named ∧
    hit.namePositions = named.positions ∧ hit.nameMask = named.mask
  position : hit.numberPosition = report.position?
  mask : hit.numberPosition.isSome = true → hit.numberMask = report.number.map (·.mask)

/-- Neither the name nor the number has a part in what is reported of the other. -/
theorem of_eq (matcher : Matcher) (name : Text) (number : Option Text) :
    MatchReport.of matcher (some name) number =
      { query := matcher.query
        name := some ⟨name, (matcher.matchName name).1, (matcher.matchName name).2.namePositions,
          (matcher.matchName name).2.nameMask⟩
        number := number.map fun number =>
          ⟨number, (matcher.matchNumber number).1, (matcher.matchNumber number).2.numberMask⟩ } := by
  have named := matcher.sameSettings_matchName name
  have query : (matcher.matchName name).2.query = matcher.query := named.query
  cases number with
  | none =>
      simp only [MatchReport.of, query, Option.map_none, Option.map_some]
  | some number =>
      have place := named.matchNumber_fst number
      have mask := named.matchNumber_numberMask number
      simp only [MatchReport.of, Option.map_some, place, mask]
      simp only [Matcher.matchNumber_eq, query]

section

variable (matcher : Matcher) (name : Text) (number : Option Text)

theorem matched_of :
    (MatchReport.of matcher (some name) number).matched = matcher.findsName ⟨name, number⟩ := by
  rw [of_eq, matched, Option.any_some, Matcher.findsName]

theorem position?_of :
    (MatchReport.of matcher (some name) number).position? = matcher.place? ⟨name, number⟩ := by
  rw [of_eq, position?, Matcher.place?, Option.bind_map]
  rfl

theorem shows_hit :
    (MatchReport.of matcher (some name) number).Shows (matcher.hit ⟨name, number⟩) where
  name := by
    rw [of_eq]
    exact ⟨_, rfl, rfl, rfl⟩
  position := (position?_of matcher name number).symm
  mask := by
    intro found
    rw [of_eq]
    cases number with
    | none => rfl
    | some number =>
        obtain ⟨place, here⟩ := Option.isSome_iff_exists.mp found
        change (matcher.matchNumber number).1 = some place at here
        simp only [Matcher.hit, Option.bind_some, Option.map_some, here]

end

end MatchReport

/-- Once the region of the options is installed, the report that is presented on a name and a number
agrees with the search of a list that holds this contact alone: the contact is a hit exactly when the
report says that the name or the number matched, and the hit shows what the report says. -/
theorem search_agrees_with_report (options : Options) (policy : Policy) (query name : Text)
    (number : Option Text) :
    ∃ installed, InstalledRegion.none.install options.region = some installed ∧
      let contact : Contact := ⟨name, number⟩
      let matcher := (Matcher.new installed .latin query).withPolicy policy
      let report := MatchReport.of matcher (some name) number
      let found := Contact.search installed [contact] query policy options.region
      (∀ files codecs,
        (Command.compare query (some name) number).execute options files installed policy codecs =
          .ok (options.present report.lines report.value codecs)) ∧
      (found.1 ≠ [] ↔ report.matched = true ∨ report.position?.isSome = true) ∧
      ∀ hit ∈ found.1, hit.contact = contact ∧ report.Shows hit := by
  refine ⟨⟨some options.region⟩, rfl, ?_⟩
  intro contact matcher report found
  -- Overriding the region of a new matcher by the installed one changes nothing.
  have hits : ∀ hit, hit ∈ found.1 ↔
      (matcher.findsName contact = true ∨ matcher.findsNumber contact = true) ∧
        matcher.hit contact = hit := by
    intro hit
    apply (Contact.mem_search_iff _ ⟨some options.region⟩ [contact] query policy _ hit).trans
    simp only [List.mem_singleton, exists_eq_left]
    rfl
  refine ⟨fun _ _ => rfl, ?_, ?_⟩
  · rw [MatchReport.matched_of, MatchReport.position?_of]
    constructor
    · intro filled
      obtain ⟨hit, mem⟩ := List.exists_mem_of_ne_nil _ filled
      exact ((hits hit).mp mem).1
    · intro matched
      exact List.ne_nil_of_mem ((hits _).mpr ⟨matched, rfl⟩)
  · intro hit mem
    obtain ⟨_, rfl⟩ := (hits hit).mp mem
    exact ⟨rfl, MatchReport.shows_hit matcher name number⟩

/-- Only the region of the options tells both of them that the local digits follow an area code. -/
theorem search_agrees_with_report_alice :
    let options : Options := ⟨some "us".toList, false, none, false⟩
    let matcher := Matcher.new ⟨some options.region⟩ .latin "5550".toList
    let report := MatchReport.of (matcher.withPolicy .standard) (some "Alice Jones".toList)
      (some "+1 (212) 555-0100".toList)
    let found := Contact.search ⟨some options.region⟩
      [⟨"Alice Jones".toList, some "+1 (212) 555-0100".toList⟩] "5550".toList .standard
      options.region
    report.matched = false ∧ report.position? = some ⟨9, 14⟩ ∧ found.1 ≠ [] ∧
      ∀ hit ∈ found.1, report.Shows hit := by
  intro options matcher report found
  obtain ⟨installed, install, -, agree, shows⟩ :=
    search_agrees_with_report options .standard "5550".toList "Alice Jones".toList
      (some "+1 (212) 555-0100".toList)
  obtain rfl := Option.some.inj install
  have place : report.position? = some ⟨9, 14⟩ := by decide +kernel
  refine ⟨by decide +kernel, place, agree.mpr (.inr ?_), fun hit mem => (shows hit mem).2⟩
  change report.position?.isSome = true
  rw [place, Option.isSome_some]

end CommandLine
end Keypad
