import Keypad.Proofs.Contact.Search
import Keypad.Proofs.Name.Acceptance
import Keypad.Proofs.Number.Alignment

/-!
Typing on only narrows a search. A query that is longer by some keys finds no name and no number that
the shorter query does not find, though it may be read in them quite differently, so every hit of the
longer query is a hit of the shorter one at the same place of the list.
-/
namespace Keypad

theorem Name.isSome_search_of_append {layout : Layout} {policy : Policy} {name : Text}
    {query more : Digits} (typed : query ≠ [])
    (found : (search layout policy name (query ++ more)).isSome = true) :
    (search layout policy name query).isSome = true := by
  obtain ⟨_, entry, listed, reads⟩ := (isSome_search_iff layout policy name _).mp found
  apply (isSome_search_iff layout policy name query).mpr
  exact ⟨typed, entry, listed, (List.prefix_append query more).trans reads⟩

theorem Number.isSome_align_of_append {policy : Policy} {region : Region} {number : Text}
    {query more : Digits} {useAreaCode : Bool} (typed : query ≠ [])
    (found : (align policy region number (query ++ more) useAreaCode).isSome = true) :
    (align policy region number query useAreaCode).isSome = true := by
  by_cases empty : number = []
  · -- The policy alone decides about an empty number.
    rw [align_of_empty useAreaCode (.inl empty)] at found ⊢
    exact found
  · have longer : query ++ more ≠ [] := by simp [typed]
    have begins := List.prefix_append query more
    rw [isSome_align_iff useAreaCode empty longer] at found
    rw [isSome_align_iff useAreaCode empty typed]
    rcases found with whole | ⟨coded, behind⟩ | ⟨allowed, behind⟩
    · exact .inl (begins.trans whole)
    · exact .inr (.inl ⟨coded, begins.trans behind⟩)
    · exact .inr (.inr ⟨allowed, begins.trans behind⟩)

namespace Matcher

/-- A matcher that finds no contact, by name or by number, that the other one does not find so. -/
structure Narrows (narrow wide : Matcher) : Prop where
  name : ∀ contact, narrow.findsName contact = true → wide.findsName contact = true
  number : ∀ contact, narrow.findsNumber contact = true → wide.findsNumber contact = true

theorem findsName_iff (matcher : Matcher) (contact : Contact) :
    matcher.findsName contact = true ↔
      (Name.search matcher.layout matcher.policy contact.name matcher.keys).isSome = true := by
  rw [findsName, matchName_eq]

theorem findsNumber_iff (matcher : Matcher) (contact : Contact) :
    matcher.findsNumber contact = true ↔
      ∃ number, contact.number = some number ∧
        (Number.align matcher.policy matcher.region number matcher.keys true).isSome = true := by
  rw [findsNumber, place?]
  cases contact.number with
  | none => simp
  | some number => simp [matchNumber_eq, numberSpan]

theorem narrows_fresh (installed : InstalledRegion) (layout : Layout) (policy : Policy)
    (region : Region) {query : Text} (more : Text) (typed : Text.digits query ≠ []) :
    Narrows (fresh installed layout (query ++ more) policy region)
      (fresh installed layout query policy region) := by
  have longer : (fresh installed layout (query ++ more) policy region).keys =
      Text.digits query ++ Text.digits more := Text.digits_append query more
  constructor
  · intro contact found
    rw [findsName_iff, longer] at found
    rw [findsName_iff]
    exact Name.isSome_search_of_append typed found
  · intro contact found
    rw [findsNumber_iff, longer] at found
    obtain ⟨number, given, aligned⟩ := found
    rw [findsNumber_iff]
    exact ⟨number, given, Number.isSome_align_of_append typed aligned⟩

/-- The hits among the contacts that are picked from a list, each with the place it comes from. -/
def pickHits (matcher : Matcher) (picks : Contact → Bool) (contacts : List Contact) :
    List (Nat × Hit) :=
  (contacts.zipIdx.filter fun entry => picks entry.1).map fun entry =>
    (entry.2, matcher.hit entry.1)

/-- The hits of a matcher in a contact list in the order of a search, each with its place. -/
def placedHits (matcher : Matcher) (contacts : List Contact) : List (Nat × Hit) :=
  matcher.pickHits matcher.findsName contacts ++
    matcher.pickHits matcher.findsNumberAlone contacts

section

variable (matcher : Matcher) (picks : Contact → Bool) (contacts : List Contact)

theorem map_snd_pickHits :
    (matcher.pickHits picks contacts).map (·.2) = (contacts.filter picks).map matcher.hit := by
  conv => rhs; rw [← List.zipIdx_map_fst 0 contacts]
  rw [pickHits, List.filter_map, List.map_map, List.map_map]
  rfl

theorem nodup_map_fst_pickHits : ((matcher.pickHits picks contacts).map (·.1)).Nodup := by
  have places : (contacts.zipIdx.map (·.2)).Nodup := by
    rw [List.zipIdx_map_snd]
    exact List.nodup_range'
  rw [pickHits, List.map_map]
  exact places.sublist (List.filter_sublist.map _)

theorem mem_pickHits_iff {place : Nat} {hit : Hit} :
    (place, hit) ∈ matcher.pickHits picks contacts ↔
      ∃ contact, contacts[place]? = some contact ∧ picks contact = true ∧
        matcher.hit contact = hit := by
  simp only [pickHits, List.mem_map, List.mem_filter, Prod.exists, Prod.mk.injEq,
    List.mem_zipIdx_iff_getElem?]
  constructor
  · rintro ⟨contact, index, ⟨stands, picked⟩, rfl, rfl⟩
    exact ⟨contact, stands, picked, rfl⟩
  · rintro ⟨contact, stands, picked, rfl⟩
    exact ⟨contact, place, ⟨stands, picked⟩, rfl, rfl⟩

theorem mem_placedHits_iff {place : Nat} {hit : Hit} :
    (place, hit) ∈ matcher.placedHits contacts ↔
      ∃ contact, contacts[place]? = some contact ∧
        (matcher.findsName contact = true ∨ matcher.findsNumber contact = true) ∧
        matcher.hit contact = hit := by
  rw [placedHits, List.mem_append, mem_pickHits_iff, mem_pickHits_iff, ← exists_or]
  refine exists_congr fun contact => ?_
  rw [← and_or_left, ← or_and_right, matcher.named_or_alone_iff]

end

end Matcher

/-- Hits with the places at which their contacts stand in the list they were found in. -/
structure Hit.Placed (contacts : List Contact) (hits : List Hit) (placed : List (Nat × Hit)) :
    Prop where
  hits : placed.map (·.2) = hits
  distinct : (placed.map (·.1)).Nodup
  stands : ∀ place hit, (place, hit) ∈ placed → contacts[place]? = some hit.contact

theorem Matcher.distinct_placedHits (matcher : Matcher) (contacts : List Contact) :
    ((matcher.placedHits contacts).map (·.1)).Nodup := by
  rw [placedHits, List.map_append, List.nodup_append]
  refine ⟨matcher.nodup_map_fst_pickHits _ _, matcher.nodup_map_fst_pickHits _ _, ?_⟩
  rintro place named _ alone rfl
  obtain ⟨⟨_, _⟩, listed, rfl⟩ := List.mem_map.mp named
  obtain ⟨⟨_, _⟩, other, same⟩ := List.mem_map.mp alone
  obtain ⟨contact, stands, found, _⟩ := (matcher.mem_pickHits_iff _ _).mp listed
  obtain ⟨twin, there, notNamed, _⟩ := (matcher.mem_pickHits_iff _ _).mp other
  -- One place holds one contact, and it is not found by name and by number alone at once.
  obtain rfl : twin = contact := by
    dsimp only at same
    rw [same, stands] at there
    exact (Option.some.inj there).symm
  simp [findsNumberAlone, found] at notNamed

namespace Contact

theorem placed_search (installed : InstalledRegion) (contacts : List Contact) (query : Text)
    (policy : Policy) (region : Region) :
    Hit.Placed contacts (search installed contacts query policy region).1
      ((Matcher.fresh installed .latin query policy region).placedHits contacts) where
  hits := by
    rw [search_eq installed installed, Matcher.placedHits, List.map_append,
      Matcher.map_snd_pickHits, Matcher.map_snd_pickHits]
  distinct := Matcher.distinct_placedHits _ contacts
  stands place hit mem := by
    obtain ⟨contact, stands, _, rfl⟩ := (Matcher.mem_placedHits_iff _ contacts).mp mem
    exact stands

/-- Every hit of a longer query is a hit of the shorter one at the same place of the list, by name
if it was one by name and by number if it was one by number, and neither count grows. -/
theorem search_narrows (installed : InstalledRegion) (contacts : List Contact)
    (query more : Text) (policy : Policy) (region : Region) (typed : Text.digits query ≠ []) :
    let shorter := search installed contacts query policy region
    let longer := search installed contacts (query ++ more) policy region
    let wide := (Matcher.fresh installed .latin query policy region).placedHits contacts
    let narrow := (Matcher.fresh installed .latin (query ++ more) policy region).placedHits contacts
    Hit.Placed contacts shorter.1 wide ∧ Hit.Placed contacts longer.1 narrow ∧
      (∀ place hit, (place, hit) ∈ narrow →
        ∃ wider, (place, wider) ∈ wide ∧ (hit.matchedName = true → wider.matchedName = true) ∧
          (hit.numberPosition.isSome = true → wider.numberPosition.isSome = true)) ∧
      longer.2.byName ≤ shorter.2.byName ∧ longer.2.byNumber ≤ shorter.2.byNumber := by
  intro shorter longer wide narrow
  have narrows := Matcher.narrows_fresh installed .latin policy region more typed
  refine ⟨placed_search .., placed_search .., ?_, ?_, ?_⟩
  · intro place hit mem
    obtain ⟨contact, stands, found, rfl⟩ := (Matcher.mem_placedHits_iff _ contacts).mp mem
    refine ⟨_, (Matcher.mem_placedHits_iff _ contacts).mpr ⟨contact, stands, ?_, rfl⟩, ?_, ?_⟩
    · exact found.imp (narrows.name contact) (narrows.number contact)
    · rw [Matcher.matchedName_hit, Matcher.matchedName_hit]
      exact narrows.name contact
    · exact narrows.number contact
  · simp only [shorter, longer, search_eq installed installed]
    exact List.countP_mono_left fun contact _ => narrows.name contact
  · simp only [shorter, longer, search_eq installed installed]
    exact List.countP_mono_left fun contact _ => narrows.number contact

/-- `564` finds Kim Lee by number alone, behind John; `5` already finds both of them by name. -/
theorem search_narrows_kim_and_john :
    let kim : Contact := ⟨"Kim Lee".toList, some "5646 000".toList⟩
    let john : Contact := ⟨"John Smith".toList, some "555-0199".toList⟩
    let query : Text := "5".toList
    let more : Text := "-64".toList
    let shorter := search .none [kim, john] query .standard .unknown
    let longer := search .none [kim, john] (query ++ more) .standard .unknown
    let wide := (Matcher.fresh .none .latin query .standard .unknown).placedHits [kim, john]
    Text.digits query ≠ [] ∧ longer.1.map Hit.matchedName = [true, false] ∧
      (∃ wider, (0, wider) ∈ wide ∧ wider.numberPosition.isSome = true) ∧
      (∃ wider, (1, wider) ∈ wide ∧ wider.matchedName = true) ∧
      longer.2.byName ≤ shorter.2.byName ∧ longer.2.byNumber ≤ shorter.2.byNumber := by
  intro kim john query more shorter longer wide
  have typed : Text.digits query ≠ [] := by decide
  obtain ⟨-, -, narrows, counts⟩ :=
    search_narrows .none [kim, john] query more .standard .unknown typed
  let narrow := Matcher.fresh .none .latin (query ++ more) .standard .unknown
  have first : (0, narrow.hit kim) ∈ narrow.placedHits [kim, john] :=
    (narrow.mem_placedHits_iff _).mpr ⟨kim, rfl, .inr (by decide +kernel), rfl⟩
  have second : (1, narrow.hit john) ∈ narrow.placedHits [kim, john] :=
    (narrow.mem_placedHits_iff _).mpr ⟨john, rfl, .inl (by decide +kernel), rfl⟩
  obtain ⟨kimAlso, here, _, numbered⟩ := narrows 0 _ first
  obtain ⟨johnAlso, there, named, _⟩ := narrows 1 _ second
  refine ⟨typed, by decide +kernel, ⟨kimAlso, here, ?_⟩, ⟨johnAlso, there, ?_⟩, counts⟩
  · exact numbered (by decide +kernel)
  · exact named (by decide +kernel)

end Contact
end Keypad
