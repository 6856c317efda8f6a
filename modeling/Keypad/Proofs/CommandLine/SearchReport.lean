import Keypad.CommandLine
import Keypad.Proofs.Contact.Search
import Keypad.Proofs.Text

/-!
The printed report of a search. It shows the first hits up to the limit, each as a contact with a
line of marks beneath it, and closes with the counts of the whole search. The marks line up: a one
stands exactly under every highlighted character. When nothing is shown, the report says that nothing
was found, whether there was nothing to find or the limit is zero.
-/
namespace Keypad

namespace Matcher

variable (matcher : Matcher) (contact : Contact)

theorem nameMask_hit :
    (matcher.hit contact).nameMask =
      Mask.highlight contact.name.length (matcher.hit contact).namePositions := by
  simp only [hit, matchName_eq]

/-- Where a number was found, it is lit there and nowhere else. -/
theorem numberMask_hit {place : Span} (found : (matcher.hit contact).numberPosition = some place) :
    ∃ number, contact.number = some number ∧
      (matcher.hit contact).numberMask = some (Mask.highlight number.length [place]) := by
  obtain ⟨name, number⟩ := contact
  cases number with
  | none => cases found
  | some number =>
      change matcher.numberSpan number true = some place at found
      refine ⟨number, rfl, ?_⟩
      simp only [hit, matchNumber_eq, Option.bind_some, found, Option.map_some,
        Option.toList_some]

end Matcher

namespace CommandLine

/-- A line of marks under a line of text. Part of the text is a stretch that follows some other text,
and a one stands exactly under the characters of the stretch that the spans cover. -/
structure Underlines (marks line before stretch : Text) (spans : List Span) : Prop where
  above : ∃ after, line = before ++ stretch ++ after
  ones : ∀ index, marks[index]? = some '1' ↔
    ∃ place < stretch.length, index = before.length + place ∧
      ∃ span ∈ spans, span.covers place = true

theorem underlines_highlight (before stretch after : Text) (spans : List Span) :
    Underlines
      (List.replicate before.length ' ' ++ (Mask.highlight stretch.length spans).render)
      (before ++ stretch ++ after) before stretch spans where
  above := ⟨after, rfl⟩
  ones index := by
    rw [List.getElem?_append, List.length_replicate]
    split
    · rename_i blank
      constructor
      · rw [List.getElem?_replicate, if_pos blank]
        intro one
        cases one
      · rintro ⟨place, _, rfl, _⟩
        omega
    · rename_i marked
      rw [Mask.getElem?_render_highlight]
      constructor
      · rintro ⟨inside, covered⟩
        exact ⟨index - before.length, inside, by omega, covered⟩
      · rintro ⟨place, inside, rfl, covered⟩
        rw [Nat.add_sub_cancel_left]
        exact ⟨inside, covered⟩

namespace Hit

/-- The line that shows the contact of a hit. -/
def headline (hit : Hit) : Text :=
  hit.contact.name ++ "  ".toList ++ hit.contact.number.getD ['-']

/-- A line of marks lines up with the contact above it: it is as long as the name and marks what the
name highlights, or, when the name did not match, as long as the whole line and marks what the number
highlights. -/
def LinesUp (hit : Hit) (marks : Text) : Prop :=
  if hit.matchedName then
    marks.length = hit.contact.name.length ∧
      Underlines marks (headline hit) [] hit.contact.name hit.namePositions
  else
    ∃ number place, hit.contact.number = some number ∧ hit.numberPosition = some place ∧
      marks.length = (headline hit).length ∧
      Underlines marks (headline hit) (hit.contact.name ++ "  ".toList) number [place]

/-- What a matcher makes of a contact that it finds is shown in two lines, and they line up. -/
theorem exists_lines (matcher : Matcher) (contact : Contact)
    (found : matcher.findsName contact = true ∨ matcher.findsNumber contact = true) :
    ∃ marks, Hit.lines (matcher.hit contact) = [headline (matcher.hit contact), marks] ∧
      LinesUp (matcher.hit contact) marks := by
  have same : (matcher.hit contact).contact = contact := rfl
  by_cases named : (matcher.hit contact).matchedName = true
  · refine ⟨(matcher.hit contact).nameMask.render, ?_, ?_⟩
    · rw [Hit.lines, if_pos named]
      rfl
    · rw [LinesUp, if_pos named, matcher.nameMask_hit, same]
      refine ⟨by rw [Mask.length_render, Mask.length_highlight], ?_⟩
      have under := underlines_highlight [] contact.name
        ("  ".toList ++ contact.number.getD ['-']) (matcher.hit contact).namePositions
      rwa [List.nil_append, ← List.append_assoc] at under
  · have numbered : matcher.findsNumber contact = true := by
      rw [matcher.matchedName_hit] at named
      exact found.resolve_left named
    obtain ⟨place, here⟩ := Option.isSome_iff_exists.mp numbered
    obtain ⟨number, given, mask⟩ := matcher.numberMask_hit contact here
    have line : headline (matcher.hit contact) = contact.name ++ "  ".toList ++ number := by
      rw [headline, same, given, Option.getD_some]
    refine ⟨List.replicate (contact.name ++ "  ".toList).length ' ' ++
      (Mask.highlight number.length [place]).render, ?_, ?_⟩
    · rw [Hit.lines, if_neg named, mask, same, List.length_append,
        ← List.replicate_append_replicate]
      rfl
    · rw [LinesUp, if_neg named, line]
      refine ⟨number, place, given, here, ?_, ?_⟩
      · simp only [List.length_append, List.length_replicate, Mask.length_render,
          Mask.length_highlight]
      · have under := underlines_highlight (contact.name ++ "  ".toList) number [] [place]
        rwa [List.append_nil] at under

end Hit

namespace SearchReport

variable (report : SearchReport)

theorem shown_eq : report.shown =
    report.hits.take (min (report.limit.getD report.hits.length) report.hits.length) :=
  List.take_eq_take_min

/-- Nothing is shown just when there is nothing to show or the limit is zero. -/
theorem shown_eq_nil_iff : report.shown = [] ↔ report.hits = [] ∨ report.limit = some 0 := by
  rw [shown, List.take_eq_nil_iff]
  cases report.limit with
  | none => simp
  | some most => simp [or_comm]

theorem lines_of_shown (filled : report.shown ≠ []) :
    report.lines = report.shown.flatMap Hit.lines ++ [report.summary] := by
  rw [lines, if_neg (by rwa [List.isEmpty_iff])]

/-- The line that says that nothing was found. -/
def denial : Text := "No contacts found matching: ".toList ++ report.query

theorem lines_of_hidden (hidden : report.shown = []) : report.lines = [report.denial] := by
  rw [lines, if_pos (List.isEmpty_iff.mpr hidden)]
  rfl

/-- A summary starts with a count. -/
theorem summary_ne_denial : report.summary ≠ report.denial := by
  obtain ⟨first, more, count, digit⟩ := Text.exists_ofNat_eq_cons report.hits.length
  intro same
  rw [summary, count] at same
  obtain rfl : first = 'N' := (List.cons.inj same).1
  exact absurd digit (by decide)

theorem lines_eq_denial_iff : report.lines = [report.denial] ↔ report.shown = [] := by
  refine ⟨fun denied => Decidable.byContradiction fun filled => ?_, report.lines_of_hidden⟩
  rw [report.lines_of_shown filled, ← List.nil_append [report.denial]] at denied
  exact report.summary_ne_denial (List.cons.inj (List.append_inj_right' denied rfl)).1

theorem summary_mem_lines_iff : report.summary ∈ report.lines ↔ report.shown ≠ [] := by
  constructor
  · intro mem hidden
    rw [report.lines_of_hidden hidden, List.mem_singleton] at mem
    exact report.summary_ne_denial mem
  · intro filled
    rw [report.lines_of_shown filled]
    exact List.mem_append_right _ (List.mem_singleton_self _)

end SearchReport

/-- In text form a search prints the lines of its report. -/
theorem execute_search {options : Options} {files : FileSystem} {codecs : Codecs} {path : Text}
    {contacts : List Contact} (printed : options.json = false)
    (loads : Contact.load files path codecs = .ok contacts) (installed : InstalledRegion)
    (policy : Policy) (query : Text) (limit : Option Nat) :
    let found := Contact.search installed contacts query policy options.region
    (Command.search query path limit).execute options files installed policy codecs =
      .ok (ofLines (SearchReport.lines ⟨query, found.1, found.2, limit⟩)) := by
  simp only [Command.execute, loads, Options.present, printed]
  rfl

/-- When some contact matches and the limit is not zero, the printed report of a search shows the
first hits in the order of the search, as many as there are up to the limit, each by two lines that
line up. Its last line counts all hits and gives the tally of the whole search, which no limit
changes. -/
theorem search_report_lines_up (installed : InstalledRegion) (contacts : List Contact)
    (query : Text) (policy : Policy) (region : Region) (limit : Option Nat)
    (positive : limit ≠ some 0)
    (matched : (Contact.search installed contacts query policy region).1 ≠ []) :
    let matcher := Matcher.fresh installed .latin query policy region
    let hits := (Contact.search installed contacts query policy region).1
    let tally := (Contact.search installed contacts query policy region).2
    let report : SearchReport := ⟨query, hits, tally, limit⟩
    (∀ (codecs : Codecs) (options : Options) (files : FileSystem) (path : Text),
      options.json = false → options.region = region →
      Contact.load files path codecs = .ok contacts →
      (Command.search query path limit).execute options files installed policy codecs =
        .ok (ofLines report.lines)) ∧
    report.lines = (hits.take (min (limit.getD hits.length) hits.length)).flatMap Hit.lines ++
      [Text.ofNat hits.length ++ " of ".toList ++ Text.ofNat tally.scanned ++
        " contacts matched (".toList ++ Text.ofNat tally.byName ++ " by name, ".toList ++
        Text.ofNat tally.byNumber ++ " by number)".toList] ∧
    (∀ hit ∈ hits, ∃ marks, Hit.lines hit = [Hit.headline hit, marks] ∧ Hit.LinesUp hit marks) ∧
    hits.length = contacts.countP matcher.findsName + contacts.countP matcher.findsNumberAlone ∧
    tally = ⟨contacts.length, contacts.countP matcher.findsName,
      contacts.countP matcher.findsNumber⟩ := by
  intro matcher hits tally report
  have whole := Contact.search_eq installed installed contacts query policy region
  refine ⟨?_, ?_, ?_, ?_, ?_⟩
  · intro codecs options files path printed same loads
    subst same
    exact execute_search printed loads installed policy query limit
  · have filled : report.shown ≠ [] := fun empty =>
      (report.shown_eq_nil_iff.mp empty).elim matched positive
    rw [report.lines_of_shown filled, report.shown_eq]
    rfl
  · intro hit mem
    obtain ⟨contact, -, found, rfl⟩ :=
      (Contact.mem_search_iff installed installed contacts query policy region hit).mp mem
    exact Hit.exists_lines matcher contact found
  · refine (congrArg (fun outcome => outcome.1.length) whole).trans ?_
    rw [List.length_append, List.length_map, List.length_map, ← List.countP_eq_length_filter,
      ← List.countP_eq_length_filter]
  · exact congrArg Prod.snd whole

theorem load_of_toOption {files : FileSystem} {path : Text} {contacts : List Contact}
    (read : (Contact.load files path).toOption = some contacts) :
    Contact.load files path = .ok contacts := by
  cases outcome : Contact.load files path with
  | error failure =>
      rw [outcome] at read
      cases read
  | ok found =>
      rw [outcome] at read
      exact congrArg Except.ok (Option.some.inj read)

/-- `5646` finds `John Smith` by name and `Kim Lee`, who stands before him, by number. With a limit of
one only the first is printed, and both are counted. -/
theorem search_report_lines_up_john_of_two :
    let kim : Contact := ⟨"Kim Lee".toList, some "5646 000".toList⟩
    let john : Contact := ⟨"John Smith".toList, some "555-0199".toList⟩
    let query := "5646".toList
    let options : Options := ⟨some "us".toList, false, none, false⟩
    let file := (Schema.contactsValue [kim, john]).compact
    let files : FileSystem := fun _ => .file (file.map fun c => c.toNat.toUInt8)
    (Contact.search .none [kim, john] query .standard options.region).1 ≠ [] ∧
      (Command.search query "c.json".toList (some 1)).execute options files .none .standard =
        .ok (ofLines ["John Smith  555-0199".toList, "1111000000".toList,
          "2 of 2 contacts matched (1 by name, 1 by number)".toList]) := by
  intro kim john query options file files
  have matched : (Contact.search .none [kim, john] query .standard options.region).1 ≠ [] := by
    decide +kernel
  have loads : Contact.load files "c.json".toList = .ok [kim, john] :=
    load_of_toOption (by decide +kernel)
  obtain ⟨printed, lines, -⟩ := search_report_lines_up .none [kim, john] query .standard
    options.region (some 1) (by decide) matched
  refine ⟨matched, ?_⟩
  rw [printed .builtin options files _ rfl rfl loads, lines]
  exact congrArg Except.ok (by decide +kernel)

/-- A search in text form says that nothing was found exactly when no contact matches or the limit is
zero. Otherwise, if no name is too long to be the width of a column, it closes with the summary. The
summary counts all hits and all contacts, whatever the limit is. -/
theorem search_denied_iff (codecs : Codecs) (options : Options) (files : FileSystem)
    (installed : InstalledRegion) (policy : Policy) (query path : Text) (limit : Option Nat)
    (contacts : List Contact) (printed : options.json = false)
    (loads : Contact.load files path codecs = .ok contacts) :
    let matcher := Matcher.fresh installed .latin query policy options.region
    let found := Contact.search installed contacts query policy options.region
    let report : SearchReport := ⟨query, found.1, found.2, limit⟩
    let denial := "No contacts found matching: ".toList ++ query
    let output := (Command.search query path limit).execute options files installed policy codecs
    (report.lines = [denial] ↔ found.1 = [] ∨ limit = some 0) ∧
    (found.1 = [] ∨ limit = some 0 → output = .ok (ofLines [denial])) ∧
    ((∀ contact ∈ contacts, contact.name.length < 65536) →
      output = .ok (ofLines report.lines) ∧
      (report.summary ∈ report.lines ↔ found.1 ≠ [] ∧ limit ≠ some 0)) ∧
    report.summary = Text.ofNat found.1.length ++ " of ".toList ++ Text.ofNat contacts.length ++
      " contacts matched (".toList ++ Text.ofNat (contacts.countP matcher.findsName) ++
      " by name, ".toList ++ Text.ofNat (contacts.countP matcher.findsNumber) ++
      " by number)".toList := by
  intro matcher found report denial output
  have output_eq : output = .ok (ofLines report.lines) :=
    execute_search printed loads installed policy query limit
  have hidden : report.shown = [] ↔ found.1 = [] ∨ limit = some 0 := report.shown_eq_nil_iff
  refine ⟨?_, ?_, ?_, ?_⟩
  · rw [← hidden]
    exact report.lines_eq_denial_iff
  · intro nothing
    rw [output_eq, report.lines_of_hidden (hidden.mpr nothing)]
    rfl
  · intro _
    refine ⟨output_eq, ?_⟩
    rw [report.summary_mem_lines_iff, ne_eq, hidden, not_or]
  · have tally : found.2 = ⟨contacts.length, contacts.countP matcher.findsName,
        contacts.countP matcher.findsNumber⟩ :=
      congrArg Prod.snd (Contact.search_eq installed installed contacts query policy options.region)
    change SearchReport.summary ⟨query, found.1, found.2, limit⟩ = _
    rw [tally]
    rfl

/-- With a limit of two `John Smith` is shown and counted. -/
theorem search_denied_iff_john :
    let john : Contact := ⟨"John Smith".toList, some "555-0199".toList⟩
    let query := "5646".toList
    let options : Options := ⟨none, false, none, false⟩
    let file := (Schema.contactsValue [john]).compact
    let files : FileSystem := fun _ => .file (file.map fun c => c.toNat.toUInt8)
    let found := Contact.search .none [john] query .standard options.region
    let report : SearchReport := ⟨query, found.1, found.2, some 2⟩
    found.1 ≠ [] ∧ report.lines ≠ ["No contacts found matching: 5646".toList] ∧
      (Command.search query "c.json".toList (some 2)).execute options files .none .standard =
        .ok (ofLines report.lines) ∧
      "1 of 1 contacts matched (1 by name, 0 by number)".toList ∈ report.lines := by
  intro john query options file files found report
  have matched : found.1 ≠ [] := by decide +kernel
  have counted : report.summary = "1 of 1 contacts matched (1 by name, 0 by number)".toList := by
    decide +kernel
  obtain ⟨denied, -, summed, -⟩ := search_denied_iff .builtin options files .none .standard query
    "c.json".toList (some 2) [john] rfl (load_of_toOption (by decide +kernel))
  obtain ⟨printed, last⟩ := summed (by decide)
  refine ⟨matched, fun same => ?_, printed, counted ▸ last.mpr ⟨matched, by decide⟩⟩
  exact (denied.mp same).elim matched (by decide)

/-- With a limit of zero nothing is shown, and the report denies the contact that matches. -/
theorem limit_zero_denies_john :
    let john : Contact := ⟨"John Smith".toList, some "555-0199".toList⟩
    let query := "5646".toList
    let options : Options := ⟨none, false, none, false⟩
    let file := (Schema.contactsValue [john]).compact
    let files : FileSystem := fun _ => .file (file.map fun c => c.toNat.toUInt8)
    (Contact.search .none [john] query .standard options.region).1 ≠ [] ∧
      (Command.search query "c.json".toList (some 0)).execute options files .none .standard =
        .ok (ofLines ["No contacts found matching: 5646".toList]) := by
  intro john query options file files
  refine ⟨by decide +kernel, ?_⟩
  have loads : Contact.load files "c.json".toList = .ok [john] :=
    load_of_toOption (by decide +kernel)
  rw [execute_search rfl loads, SearchReport.lines_of_hidden _ rfl]
  rfl

end CommandLine
end Keypad
