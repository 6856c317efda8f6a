import Keypad.Contact
import Keypad.Proofs.Matcher.Session
import Keypad.Proofs.Name.Highlight

/-!
A search takes every contact on its own. What one matcher finds while it goes through the list is
what a new matcher finds in each contact alone, and the hits are the contacts found by name and then
those found by number alone, each group in the order of the list.
-/
namespace Keypad

namespace Matcher

def findsName (matcher : Matcher) (contact : Contact) : Bool := (matcher.matchName contact.name).1

/-- Where a matcher finds the number of a contact. -/
def place? (matcher : Matcher) (contact : Contact) : Option Span :=
  contact.number.bind fun number => (matcher.matchNumber number).1

def findsNumber (matcher : Matcher) (contact : Contact) : Bool := (matcher.place? contact).isSome

def findsNumberAlone (matcher : Matcher) (contact : Contact) : Bool :=
  !matcher.findsName contact && matcher.findsNumber contact

/-- The hit that a matcher makes of one contact. -/
def hit (matcher : Matcher) (contact : Contact) : Hit where
  contact := contact
  namePositions := (matcher.matchName contact.name).2.namePositions
  nameMask := (matcher.matchName contact.name).2.nameMask
  numberPosition := matcher.place? contact
  numberMask := contact.number.bind fun number =>
    (matcher.matchNumber number).1.map fun _ => (matcher.matchNumber number).2.numberMask

/-- The matcher after it was taken to a contact, its name first. -/
def passed (matcher : Matcher) (contact : Contact) : Matcher :=
  let named := (matcher.matchName contact.name).2
  contact.number.elim named fun number => (named.matchNumber number).2

theorem sameSettings_passed (matcher : Matcher) (contact : Contact) :
    SameSettings (matcher.passed contact) matcher := by
  have named := matcher.sameSettings_matchName contact.name
  unfold passed
  cases contact.number with
  | none => exact named
  | some number => exact ⟨named.layout, named.policy, named.region, named.query, named.keys⟩

namespace SameSettings

variable {a b : Matcher}

theorem findsName_eq (same : SameSettings a b) : a.findsName = b.findsName := by
  funext contact
  simp only [findsName, matchName_eq, same.search_eq]

theorem place?_eq (same : SameSettings a b) : a.place? = b.place? := by
  funext contact
  simp only [place?, same.matchNumber_fst]

theorem findsNumber_eq (same : SameSettings a b) : a.findsNumber = b.findsNumber := by
  funext contact
  rw [findsNumber, findsNumber, same.place?_eq]

theorem findsNumberAlone_eq (same : SameSettings a b) :
    a.findsNumberAlone = b.findsNumberAlone := by
  funext contact
  rw [findsNumberAlone, findsNumberAlone, same.findsName_eq, same.findsNumber_eq]

theorem hit_eq (same : SameSettings a b) : a.hit = b.hit := by
  funext contact
  simp only [hit, matchName_eq, matchNumber_eq, same.search_eq, same.numberSpan_eq, same.place?_eq]

end SameSettings

end Matcher

namespace Sweep

/-- What a sweep makes of a contact says nothing of the contacts before it. -/
theorem visit_eq (sweep : Sweep) (contact : Contact) :
    sweep.visit contact =
      let matcher := sweep.matcher
      let named := matcher.findsName contact
      let numbered := matcher.findsNumberAlone contact
      { matcher := matcher.passed contact
        tally := sweep.tally.count named (matcher.findsNumber contact)
        byName := if named then sweep.byName.push (matcher.hit contact) else sweep.byName
        byNumber :=
          if numbered then sweep.byNumber.push (matcher.hit contact) else sweep.byNumber } := by
  obtain ⟨name, number⟩ := contact
  cases number with
  | none =>
      dsimp only [visit, Matcher.findsNumberAlone, Matcher.findsName]
      cases (sweep.matcher.matchName name).1 <;> rfl
  | some number =>
      -- The matcher that comes to the number has been at the name, and still answers as before.
      have named := sweep.matcher.sameSettings_matchName name
      have place := named.matchNumber_fst number
      have mask := named.matchNumber_numberMask number
      dsimp only [visit, Matcher.findsNumberAlone, Matcher.findsName, Matcher.findsNumber,
        Matcher.place?, Option.bind_some]
      rw [place, mask]
      cases (sweep.matcher.matchName name).1 <;>
        cases (sweep.matcher.matchNumber number).1.isSome <;> rfl

/-- A contact joins the end of a group or leaves it alone. -/
theorem toList_push_if (group : Array Hit) (joins : Contact → Bool) (hit : Contact → Hit)
    (contact : Contact) :
    (if joins contact then group.push (hit contact) else group).toList =
      group.toList ++ ([contact].filter joins).map hit := by
  split
  · rename_i kept
    simp [kept]
  · rename_i dropped
    simp [dropped]

section

variable (sweep : Sweep) (contact : Contact)

theorem matcher_visit : (sweep.visit contact).matcher = sweep.matcher.passed contact := by
  rw [visit_eq]

theorem tally_visit :
    (sweep.visit contact).tally =
      sweep.tally.count (sweep.matcher.findsName contact) (sweep.matcher.findsNumber contact) := by
  rw [visit_eq]

theorem byName_visit :
    (sweep.visit contact).byName.toList =
      sweep.byName.toList ++ ([contact].filter sweep.matcher.findsName).map sweep.matcher.hit := by
  rw [visit_eq, ← toList_push_if]

theorem byNumber_visit :
    (sweep.visit contact).byNumber.toList =
      sweep.byNumber.toList ++
        ([contact].filter sweep.matcher.findsNumberAlone).map sweep.matcher.hit := by
  rw [visit_eq, ← toList_push_if]

end

end Sweep

/-- A sweep that has seen some contacts: its groups hold what a matcher makes of each contact alone,
and its tally counts them. -/
structure Sweep.Covers (matcher : Matcher) (contacts : List Contact) (sweep : Sweep) : Prop where
  settings : Matcher.SameSettings sweep.matcher matcher
  byName : sweep.byName.toList = (contacts.filter matcher.findsName).map matcher.hit
  byNumber : sweep.byNumber.toList = (contacts.filter matcher.findsNumberAlone).map matcher.hit
  tally : sweep.tally =
    ⟨contacts.length, contacts.countP matcher.findsName, contacts.countP matcher.findsNumber⟩

namespace Sweep

variable {matcher : Matcher} {seen : List Contact} {sweep : Sweep}

theorem covers_begin (installed other : InstalledRegion) (policy : Policy) (region : Region)
    (query : Text) :
    (begin installed policy region query).Covers
      (Matcher.fresh other .latin query policy region) [] :=
  ⟨⟨rfl, rfl, rfl, rfl, rfl⟩, rfl, rfl, rfl⟩

theorem Covers.visit (h : sweep.Covers matcher seen) (contact : Contact) :
    (sweep.visit contact).Covers matcher (seen ++ [contact]) where
  settings := by
    rw [matcher_visit]
    exact (sweep.matcher.sameSettings_passed contact).trans h.settings
  byName := by
    rw [byName_visit, h.byName, h.settings.findsName_eq, h.settings.hit_eq, List.filter_append,
      List.map_append]
  byNumber := by
    rw [byNumber_visit, h.byNumber, h.settings.findsNumberAlone_eq, h.settings.hit_eq,
      List.filter_append, List.map_append]
  tally := by
    rw [tally_visit, h.tally, h.settings.findsName_eq, h.settings.findsNumber_eq, Tally.count,
      List.length_append, List.countP_append, List.countP_append, List.countP_singleton,
      List.countP_singleton]
    cases matcher.findsName contact <;> cases matcher.findsNumber contact <;> rfl

theorem Covers.foldl (h : sweep.Covers matcher seen) (contacts : List Contact) :
    (contacts.foldl Sweep.visit sweep).Covers matcher (seen ++ contacts) := by
  induction contacts generalizing seen sweep with
  | nil => rwa [List.append_nil]
  | cons contact later ih =>
      rw [List.append_cons]
      exact ih (h.visit contact)

end Sweep

namespace Matcher

variable (matcher : Matcher) (contact : Contact)

/-- A name that is found lights up somewhere, so the spans of a hit tell whether it was. -/
theorem matchedName_hit : (matcher.hit contact).matchedName = matcher.findsName contact := by
  simp only [hit, Hit.matchedName, findsName, matchName_eq]
  cases found : Name.search matcher.layout matcher.policy contact.name matcher.keys with
  | none => rfl
  | some spans =>
      obtain ⟨typed, lit⟩ := Name.lights_of_search found
      have nonempty := (lit.highlights typed).nonempty
      rw [Option.getD_some, List.isEmpty_eq_false_iff.mpr nonempty]
      rfl

theorem isSome_numberMask_hit :
    (matcher.hit contact).numberMask.isSome = (matcher.hit contact).numberPosition.isSome := by
  simp only [hit, place?]
  cases contact.number with
  | none => rfl
  | some number => exact Option.isSome_map

theorem named_or_alone_iff :
    matcher.findsName contact = true ∨ matcher.findsNumberAlone contact = true ↔
      matcher.findsName contact = true ∨ matcher.findsNumber contact = true := by
  rw [findsNumberAlone]
  cases matcher.findsName contact <;> simp

/-- The contacts found by number are among those found by name and those found by number alone. -/
theorem countP_findsNumber (contacts : List Contact) :
    (contacts.filter matcher.findsName).countP matcher.findsNumber +
      (contacts.filter matcher.findsNumberAlone).countP matcher.findsNumber =
    contacts.countP matcher.findsNumber := by
  have alone : ∀ contact, (matcher.findsNumber contact && matcher.findsNumberAlone contact) =
      (matcher.findsNumber contact && !matcher.findsName contact) := by
    intro contact
    rw [findsNumberAlone]
    cases matcher.findsNumber contact <;> simp
  rw [List.countP_eq_countP_filter_add contacts matcher.findsNumber matcher.findsName]
  simp only [List.countP_filter, alone]

end Matcher

namespace Contact

/-- The hits and the tally of a search, from what a new matcher finds in each contact alone. -/
theorem search_eq (installed other : InstalledRegion) (contacts : List Contact) (query : Text)
    (policy : Policy) (region : Region) :
    search installed contacts query policy region =
      let matcher := Matcher.fresh other .latin query policy region
      ((contacts.filter matcher.findsName).map matcher.hit ++
          (contacts.filter matcher.findsNumberAlone).map matcher.hit,
        ⟨contacts.length, contacts.countP matcher.findsName,
          contacts.countP matcher.findsNumber⟩) := by
  have covers := (Sweep.covers_begin installed other policy region query).foldl contacts
  rw [search, covers.byName, covers.byNumber, covers.tally]
  rfl

/-- A search comes back with the contacts that a new matcher finds by name or by number. -/
theorem mem_search_iff (installed other : InstalledRegion) (contacts : List Contact)
    (query : Text) (policy : Policy) (region : Region) (hit : Hit) :
    let matcher := Matcher.fresh other .latin query policy region
    hit ∈ (search installed contacts query policy region).1 ↔
      ∃ contact ∈ contacts,
        (matcher.findsName contact = true ∨ matcher.findsNumber contact = true) ∧
          matcher.hit contact = hit := by
  intro matcher
  simp only [search_eq installed other, List.mem_append, List.mem_map, List.mem_filter,
    ← exists_or]
  refine exists_congr fun contact => ?_
  rw [← or_and_right, ← and_or_left, matcher.named_or_alone_iff, and_assoc]

/-- A search splits the contacts into those found by name and those found by number alone, both in
the order of the list. Each hit is what a new matcher makes of its contact alone, and the tally
counts the contacts and the hits. -/
theorem search_eq_partition (installed other : InstalledRegion) (contacts : List Contact)
    (query : Text) (policy : Policy) (region : Region) :
    let matcher := Matcher.fresh other .latin query policy region
    let named := (contacts.filter matcher.findsName).map matcher.hit
    let numbered := (contacts.filter matcher.findsNumberAlone).map matcher.hit
    let found := search installed contacts query policy region
    found.1 = named ++ numbered ∧
      (∀ hit ∈ named, hit.matchedName = true) ∧ (∀ hit ∈ numbered, hit.matchedName = false) ∧
      (∀ hit ∈ found.1, hit.numberMask.isSome = hit.numberPosition.isSome) ∧
      found.2.scanned = contacts.length ∧ found.2.byName = named.length ∧
      found.2.byNumber = found.1.countP fun hit => hit.numberPosition.isSome := by
  intro matcher named numbered found
  have covers := (Sweep.covers_begin installed other policy region query).foldl contacts
  have hits : found.1 = named ++ numbered := by
    change _ ++ _ = _
    rw [covers.byName, covers.byNumber]
    rfl
  refine ⟨hits, ?_, ?_, ?_, ?_, ?_, ?_⟩
  · intro hit mem
    obtain ⟨contact, kept, rfl⟩ := List.mem_map.mp mem
    rw [matcher.matchedName_hit]
    exact (List.mem_filter.mp kept).2
  · intro hit mem
    obtain ⟨contact, kept, rfl⟩ := List.mem_map.mp mem
    rw [matcher.matchedName_hit]
    have alone := (List.mem_filter.mp kept).2
    simp only [Matcher.findsNumberAlone, Bool.and_eq_true, Bool.not_eq_true'] at alone
    exact alone.1
  · intro hit mem
    rw [hits, ← List.map_append] at mem
    obtain ⟨contact, _, rfl⟩ := List.mem_map.mp mem
    exact matcher.isSome_numberMask_hit contact
  · exact congrArg Tally.scanned covers.tally
  · rw [List.length_map, ← List.countP_eq_length_filter]
    exact congrArg Tally.byName covers.tally
  · rw [hits, List.countP_append, List.countP_map, List.countP_map]
    refine (congrArg Tally.byNumber covers.tally).trans ?_
    exact (matcher.countP_findsNumber contacts).symm

/-- `5646` is typed for `John` and begins the number of `Kim Lee`, who stands before him. -/
theorem search_eq_partition_john_and_kim :
    let john : Contact := ⟨"John Smith".toList, some "555-0199".toList⟩
    let kim : Contact := ⟨"Kim Lee".toList, some "5646 000".toList⟩
    let query := "5646".toList
    let region := Region.ofCountry "US".toList
    let matcher := Matcher.fresh .none .latin query .standard region
    let found := search .none [kim, john] query .standard region
    found.1 = [matcher.hit john, matcher.hit kim] ∧
      (matcher.hit john).matchedName = true ∧ (matcher.hit kim).matchedName = false ∧
      (matcher.hit kim).numberMask.isSome = (matcher.hit kim).numberPosition.isSome ∧
      found.2.byNumber = 1 := by
  intro john kim query region matcher found
  obtain ⟨hits, first, second, masks, _, _, byNumber⟩ :=
    search_eq_partition .none .none [kim, john] query .standard region
  have named : [kim, john].filter matcher.findsName = [john] := by decide +kernel
  have alone : [kim, john].filter matcher.findsNumberAlone = [kim] := by decide +kernel
  change found.1 = ([kim, john].filter matcher.findsName).map matcher.hit ++
    ([kim, john].filter matcher.findsNumberAlone).map matcher.hit at hits
  rw [named, alone] at hits
  refine ⟨hits, first _ ?_, second _ ?_, masks _ ?_, ?_⟩
  · exact List.mem_map_of_mem (by rw [named]; exact List.mem_singleton_self john)
  · exact List.mem_map_of_mem (by rw [alone]; exact List.mem_singleton_self kim)
  · rw [hits]
    exact List.mem_append_right _ (List.mem_singleton_self _)
  · rw [byNumber, hits]
    decide +kernel

end Contact
end Keypad
