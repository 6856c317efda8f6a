import Keypad.Proofs.Name.Acceptance
import Keypad.Proofs.Name.Highlight
import Mathlib.Data.Nat.Find

/-!
Whole words come first. A query that can be read through the words of a name from some word on
lights up one span, from the leftmost such word to the last key of the query, whatever the policy
says. Any other match lights up an initial and something behind it, so two spans at least.
-/
namespace Keypad

namespace Name

/-- The tokens of a name from one of them on, put together, start with the query. -/
def ReadsFrom (layout : Layout) (name : Text) (query : Digits) (rank : Nat) : Prop :=
  rank < (tokens layout name).length ∧ query <+: ((tokens layout name).drop rank).flatten

section

variable {layout : Layout} {name : Text} {word : Word} {words later : List Word} {query : Digits}
  {spans : List Span} {policy : Policy} {count rank : Nat}

theorem isSome_read_drop_iff :
    (read ((Name.words layout name).drop rank) query).isSome = true ↔
      ReadsFrom layout name query rank := by
  rw [isSome_read_iff, List.map_drop, keys_words, ne_eq, List.drop_eq_nil_iff, Nat.not_le,
    ReadsFrom, ← keys_words, List.length_map]

theorem readAnywhere_eq_none_iff :
    readAnywhere words query = none ↔ ∀ rank, read (words.drop rank) query = none := by
  induction words with
  | nil => simp [readAnywhere, read]
  | cons word later ih =>
      rw [readAnywhere, Option.or_eq_none_iff, ih]
      constructor
      · rintro ⟨here, after⟩ rank
        cases rank with
        | zero => exact here
        | succ rank => exact after rank
      · exact fun none => ⟨none 0, fun rank => none (rank + 1)⟩

/-- The leftmost reading is the one that counts. -/
theorem readAnywhere_of_first (here : read (words.drop rank) query = some spans)
    (first : ∀ earlier < rank, read (words.drop earlier) query = none) :
    readAnywhere words query = some spans := by
  induction rank generalizing words with
  | zero =>
      cases words with
      | nil => cases here
      | cons word later =>
          rw [List.drop_zero] at here
          rw [readAnywhere, here, Option.some_or]
  | succ rank ih =>
      cases words with
      | nil => cases here
      | cons word later =>
          have skipped := first 0 (Nat.succ_pos rank)
          rw [List.drop_zero] at skipped
          rw [readAnywhere, skipped, Option.none_or]
          exact ih here fun earlier low => first (earlier + 1) (Nat.succ_lt_succ low)

/-- Words of neighbouring rank are read as one span. -/
theorem exists_single_of_read (numbered : Numbered count (word :: later))
    (h : read (word :: later) query = some spans) :
    ∃ span, spans = [span] ∧ span.start = word.start := by
  induction later generalizing word query spans with
  | nil =>
      rcases read_cases word query with inside | ⟨rest, left, rfl⟩ | ⟨inside, past⟩
      · rw [read_of_inside inside] at h
        exact ⟨_, (Option.some.inj h).symm, rfl⟩
      · rw [read_of_past left] at h
        cases h
      · rw [read_of_outside inside past] at h
        cases h
  | cons next later ih =>
      rcases read_cases word query with inside | ⟨rest, left, rfl⟩ | ⟨inside, past⟩
      · rw [read_of_inside inside] at h
        exact ⟨_, (Option.some.inj h).symm, rfl⟩
      · rw [read_of_past left, Option.map_eq_some_iff] at h
        obtain ⟨inner, reads, rfl⟩ := h
        obtain ⟨span, rfl, _⟩ := ih numbered.2 reads
        have rank : next.index = word.index + 1 := by
          have this := numbered.1
          have after := numbered.2.1
          rw [List.length_cons] at this
          omega
        rw [attach, if_pos rank]
        exact ⟨_, rfl, rfl⟩
      · rw [read_of_outside inside past] at h
        cases h

theorem length_le_of_readsFrom (h : ReadsFrom layout name query rank) :
    query.length ≤ name.length :=
  calc query.length ≤ ((tokens layout name).drop rank).flatten.length := h.2.length_le
    _ ≤ (tokens layout name).flatten.length := (List.drop_sublist rank _).flatten.length_le
    _ = (name.filterMap layout.numeral?).length := by rw [flatten_tokens]
    _ ≤ name.length := List.length_filterMap_le _ _

/-- The leftmost word from which the query can be read opens the only span of the match. -/
theorem exists_search_eq_single (typed : query ≠ []) (reads : ReadsFrom layout name query rank)
    (first : ∀ earlier < rank, ¬ ReadsFrom layout name query earlier) :
    ∃ word span, (Name.words layout name)[rank]? = some word ∧ span.start = word.start ∧
      ∀ policy, search layout policy name query = some [span] := by
  have fits := length_le_of_readsFrom reads
  obtain ⟨spans, here⟩ := Option.isSome_iff_exists.mp (isSome_read_drop_iff.mpr reads)
  have anywhere := readAnywhere_of_first here fun earlier low => by
    rw [← Option.not_isSome_iff_eq_none, isSome_read_drop_iff]
    exact first earlier low
  have inside : rank < (Name.words layout name).length := by
    have low := reads.1
    rwa [← keys_words, List.length_map] at low
  have front := List.drop_eq_getElem_cons inside
  have numbered := (numbered_words layout name).of_suffix (List.drop_suffix rank _)
  rw [front] at here numbered
  obtain ⟨span, rfl, start⟩ := exists_single_of_read numbered here
  refine ⟨_, span, List.getElem?_eq_getElem inside, start, fun policy => ?_⟩
  have short : ¬ (query.isEmpty = true ∨ name.length < query.length) := by
    simp only [List.isEmpty_iff, typed, false_or]
    omega
  rw [search, if_neg short, searchWords, anywhere]

theorem Lights.ne_nil (h : Lights layout name words query spans) (typed : query ≠ []) :
    spans ≠ [] := by
  rintro rfl
  exact typed h.typed.symm

/-- An initial that used up the query would be a reading of its word. -/
theorem drop_ne_nil_of_mem_openings {length : Nat} (whole : read (word :: later) query = none)
    (h : length ∈ openings policy count word query) : query.drop length ≠ [] := by
  intro done
  unfold openings at h
  split at h
  · obtain ⟨_, _, agreed⟩ := mem_initialLengths_iff.mp h
    obtain ⟨_, _, same⟩ := (le_agreement_iff _ _ _).mp agreed
    have used : query = word.keys.take length := by
      rw [same]
      exact (List.take_of_length_le (List.drop_eq_nil_iff.mp done)).symm
    rw [read_of_inside (used ▸ List.take_prefix length word.keys)] at whole
    cases whole
  · cases h

/-- Where no word can be read, something follows every initial. -/
theorem two_le_length_of_mem_candidates (spaced : Spaced layout name words)
    (whole : readAnywhere words query = none) (h : spans ∈ candidates policy count words query) :
    2 ≤ spans.length := by
  induction words with
  | nil => cases h
  | cons word later ih =>
      cases later with
      | nil => cases h
      | cons next later =>
          rw [readAnywhere, Option.or_eq_none_iff] at whole
          rw [candidates_cons] at h
          rcases List.mem_append.mp h with opened | after
          · obtain ⟨length, listed, made⟩ := List.mem_flatMap.mp opened
            obtain ⟨rest, continued, rfl⟩ := List.mem_map.mp made
            have left := drop_ne_nil_of_mem_openings whole.1 listed
            have lit := lights_of_mem_continuations spaced.tail
              (lights_of_mem_candidates spaced.tail) continued
            have more := List.length_pos_iff.mpr (lit.ne_nil left)
            rw [List.length_cons]
            omega
          · exact ih spaced.tail whole.2 after

theorem two_le_length_of_search (typed : ∀ rank, ¬ ReadsFrom layout name query rank)
    (h : search layout policy name query = some spans) : 2 ≤ spans.length := by
  have whole : readAnywhere (Name.words layout name) query = none := by
    rw [readAnywhere_eq_none_iff]
    intro rank
    rw [← Option.not_isSome_iff_eq_none, isSome_read_drop_iff]
    exact typed rank
  unfold search at h
  split at h
  · cases h
  · rw [searchWords_eq_head? policy query (numbered_words layout name), List.head?_append,
      ← readAnywhere_eq_head?, whole, Option.none_or] at h
    split at h
    · exact two_le_length_of_mem_candidates (spaced_words layout name) whole (List.mem_of_head? h)
    · cases h

end

end Name

namespace Matcher

/-- The one span of a query that can be read through the words of a name. -/
theorem exists_nameSpans_single (matcher : Matcher) {name query : Text} {rank : Nat}
    (typed : Text.digits query ≠ [])
    (here : Name.ReadsFrom matcher.layout name (Text.digits query) rank)
    (first : ∀ earlier < rank, ¬ Name.ReadsFrom matcher.layout name (Text.digits query) earlier) :
    ∃ word span, (Name.words matcher.layout name)[rank]? = some word ∧
      span.start = word.start ∧
      Name.Highlights matcher.layout name (Text.digits query) [span] ∧
      ∀ policy, (matcher.withPolicy policy).nameSpans name query = some [span] := by
  obtain ⟨word, span, ranked, start, found⟩ := Name.exists_search_eq_single typed here first
  obtain ⟨_, lit⟩ := Name.lights_of_search (found matcher.policy)
  exact ⟨word, span, ranked, start, lit.highlights typed, found⟩

/-- When a query can be read through the words of a name, every matcher lights up one span, which
opens with the leftmost word from which it can be read and ends on its last key; the policy plays no
part. When it cannot, every match lights up two spans or more. -/
theorem whole_words_first (matcher : Matcher) (name query : Text)
    (typed : Text.digits query ≠ []) :
    let reads := Name.ReadsFrom matcher.layout name (Text.digits query)
    (∀ rank, reads rank → (∀ earlier < rank, ¬ reads earlier) →
      ∃ word span, (Name.words matcher.layout name)[rank]? = some word ∧
        span.start = word.start ∧
        Name.Highlights matcher.layout name (Text.digits query) [span] ∧
        ∀ policy, (matcher.withPolicy policy).nameSpans name query = some [span]) ∧
      ((∀ rank, ¬ reads rank) → ∀ spans, matcher.nameSpans name query = some spans →
        2 ≤ spans.length) ∧
      ((∃ span, matcher.nameSpans name query = some [span]) ↔ ∃ rank, reads rank) := by
  intro reads
  have several : (∀ rank, ¬ reads rank) → ∀ spans, matcher.nameSpans name query = some spans →
      2 ≤ spans.length := fun none spans found => Name.two_le_length_of_search none found
  refine ⟨fun rank here first => matcher.exists_nameSpans_single typed here first, several, ?_, ?_⟩
  · rintro ⟨span, found⟩
    by_contra none
    have two := several (fun rank here => none ⟨rank, here⟩) [span] found
    exact absurd two (by simp)
  · intro some
    classical
    obtain ⟨_, span, _, _, _, found⟩ := matcher.exists_nameSpans_single typed (Nat.find_spec some)
      fun _ low => Nat.find_min some low
    exact ⟨span, found matcher.policy⟩

/-- In `Al Bo Bob` the keys `262` can be read from `Bob` and, across the space, from `Bo`, which
stands further left. -/
theorem whole_words_first_al_bo_bob :
    let matcher : Matcher := ⟨.latin, .standard, .unknown, [], [], [], [], []⟩
    let name := "Al Bo Bob".toList
    (∀ policy, (matcher.withPolicy policy).nameSpans name "262".toList = some [⟨3, 7⟩]) ∧
      Name.Highlights .latin name "262".toList [⟨3, 7⟩] := by
  intro matcher name
  have here : Name.ReadsFrom .latin name "262".toList 1 := by
    unfold Name.ReadsFrom
    decide +kernel
  have first : ∀ earlier < 1, ¬ Name.ReadsFrom .latin name "262".toList earlier := by
    intro earlier low
    obtain rfl := Nat.lt_one_iff.mp low
    unfold Name.ReadsFrom
    decide +kernel
  obtain ⟨leftmost, _, _⟩ := whole_words_first matcher name "262".toList (by decide)
  obtain ⟨_, span, _, _, lit, found⟩ := leftmost 1 here first
  have run : matcher.nameSpans name "262".toList = some [⟨3, 7⟩] := by decide +kernel
  obtain rfl : span = ⟨3, 7⟩ := by simpa using (found .standard).symm.trans run
  exact ⟨found, lit⟩

end Matcher
end Keypad
