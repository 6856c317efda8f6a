import Keypad.Matcher
import Keypad.Proofs.Name.Chains
import Keypad.Proofs.Name.Search
import Keypad.Proofs.Name.Words

/-!
The matcher and the index agree. A query reads through some words of a name exactly when it is the
beginning of their keys, initials included, so a name is found by a query exactly when the query is
the beginning of a key sequence under which the name is indexed.
-/
namespace Keypad.Name

theorem isSome_read_iff (words : List Word) (query : Digits) :
    (read words query).isSome = true ↔
      words ≠ [] ∧ query <+: (words.map fun word => word.keys).flatten := by
  induction words generalizing query with
  | nil => simp [read]
  | cons word later ih =>
      simp only [List.map_cons, List.flatten_cons, ne_eq, List.cons_ne_nil, not_false_eq_true,
        true_and]
      rcases read_cases word query with inside | ⟨rest, left, rfl⟩ | ⟨inside, past⟩
      · rw [read_of_inside inside]
        simp only [Option.isSome_some, true_iff]
        exact List.prefix_append_of_prefix inside
      · rw [read_of_past left, Option.isSome_map, ih, List.prefix_append_right_inj]
        refine and_iff_right_of_imp ?_
        rintro reads rfl
        -- With no word left there would be nothing to read the rest from.
        exact left (List.prefix_nil.mp reads)
      · rw [read_of_outside inside past]
        simp only [Option.isSome_none, Bool.false_eq_true, false_iff]
        intro reads
        rcases List.prefix_or_prefix_of_prefix reads (List.prefix_append _ _) with h | h
        · exact inside h
        · exact past h

theorem append_ne_nil_iff {near far : List (List Span)} :
    near ++ far ≠ [] ↔ near ≠ [] ∨ far ≠ [] := by
  rw [ne_eq, List.append_eq_nil_iff, Classical.not_and_iff_not_or_not]

theorem readings_ne_nil_iff (words : List Word) (query : Digits) :
    readings words query ≠ [] ↔
      ∃ chain ∈ tailChains (words.map fun word => word.keys), query <+: chain := by
  induction words with
  | nil => simp [readings, tailChains]
  | cons word later ih =>
      have front : (read (word :: later) query).toList ≠ [] ↔
          query <+: ((word :: later).map fun word => word.keys).flatten := by
        rw [ne_eq, Option.toList_eq_nil_iff, ← Option.not_isSome_iff_eq_none, Decidable.not_not,
          isSome_read_iff, and_iff_right (List.cons_ne_nil _ _)]
      rw [readings, append_ne_nil_iff, List.map_cons, tailChains]
      simp only [List.mem_cons, exists_eq_or_imp]
      exact or_congr front ih

theorem mem_beginnings_iff {limit : Nat} {token initial : Digits} :
    initial ∈ beginnings limit token ↔
      ∃ length, 0 < length ∧ length ≤ limit ∧ length ≤ token.length ∧
        token.take length = initial := by
  simp only [beginnings, List.mem_map, List.mem_range]
  constructor
  · rintro ⟨n, low, rfl⟩
    exact ⟨n + 1, by omega, by omega, by omega, rfl⟩
  · rintro ⟨length, low, limited, inside, rfl⟩
    exact ⟨length - 1, by omega, by rw [Nat.sub_add_cancel low]⟩

/-- A query begins one of the entries with an initial in front exactly when some opening length,
cut short where the query ends, leaves the beginning of an entry. -/
theorem exists_initialLengths_iff (policy : Policy) (word : Word) (query : Digits)
    (entries : List Digits) :
    (∃ length ∈ initialLengths policy word query, ∃ entry ∈ entries, query.drop length <+: entry) ↔
      query ≠ [] ∧ ∃ initial ∈ beginnings policy.initialLimit word.keys,
        ∃ entry ∈ entries, query <+: initial ++ entry := by
  constructor
  · rintro ⟨length, mem, entry, listed, reads⟩
    obtain ⟨low, limited, agreed⟩ := mem_initialLengths_iff.mp mem
    obtain ⟨inside, short, same⟩ := (le_agreement_iff _ _ _).mp agreed
    refine ⟨?_, word.keys.take length, mem_beginnings_iff.mpr ⟨length, low, limited, inside, rfl⟩,
      entry, listed, ?_⟩
    · rintro rfl
      exact Nat.not_lt.mpr short low
    · have whole := (List.prefix_append_right_inj (query.take length)).mpr reads
      rwa [List.take_append_drop, ← same] at whole
  · rintro ⟨typed, initial, mem, entry, listed, reads⟩
    obtain ⟨length, low, limited, inside, rfl⟩ := mem_beginnings_iff.mp mem
    obtain ⟨tail, whole⟩ := reads
    have front : (word.keys.take length).length = length := by
      rw [List.length_take, Nat.min_eq_left inside]
    have filled : 0 < query.length := List.length_pos_iff.mpr typed
    -- The query may end inside the initial; then a shorter initial uses it up.
    have agreed : word.keys.take (min length query.length) =
        query.take (min length query.length) := by
      have taken := congrArg (List.take (min length query.length)) whole
      rw [List.take_append_of_le_length (by omega), List.take_append_of_le_length (by omega),
        List.take_take, Nat.min_eq_left (Nat.min_le_left _ _)] at taken
      exact taken.symm
    refine ⟨min length query.length, mem_initialLengths_iff.mpr ⟨by omega, by omega, ?_⟩, entry,
      listed, ?_⟩
    · exact (le_agreement_iff _ _ _).mpr ⟨by omega, by omega, agreed⟩
    · by_cases short : query.length ≤ length
      · rw [Nat.min_eq_right short, List.drop_length]
        exact List.nil_prefix
      · have long : length ≤ query.length := by omega
        have dropped := congrArg (List.drop length) whole
        rw [List.drop_append_of_le_length long, List.drop_left' front] at dropped
        rw [Nat.min_eq_left long, ← dropped]
        exact List.prefix_append _ _

theorem exists_abbreviations_iff (limit : Nat) (token : Digits) (later : List Digits)
    (query : Digits) :
    (∃ entry ∈ abbreviations limit (token :: later), query <+: entry) ↔
      (∃ initial ∈ beginnings limit token,
        ∃ entry ∈ (tailChains later).reverse ++ abbreviations limit later,
          query <+: initial ++ entry) ∨
      ∃ entry ∈ abbreviations limit later, query <+: entry := by
  rw [abbreviations]
  generalize (tailChains later).reverse ++ abbreviations limit later = entries
  constructor
  · rintro ⟨entry, mem, reads⟩
    rcases List.mem_append.mp mem with old | new
    · exact .inr ⟨entry, old, reads⟩
    · obtain ⟨initial, begins, made⟩ := List.mem_flatMap.mp new
      obtain ⟨chain, listed, rfl⟩ := List.mem_map.mp made
      exact .inl ⟨initial, begins, chain, listed, reads⟩
  · rintro (⟨initial, begins, chain, listed, reads⟩ | ⟨entry, old, reads⟩)
    · refine ⟨initial ++ chain, List.mem_append_right _ (List.mem_flatMap.mpr ?_), reads⟩
      exact ⟨initial, begins, List.mem_map_of_mem listed⟩
    · exact ⟨entry, List.mem_append_left _ old, reads⟩

/-- The keys of the words that may be read after initials. -/
def chainKeys (policy : Policy) (count : Nat) (words : List Word) : List Digits :=
  (words.filter (inChain policy count)).map fun word => word.keys

section

variable {policy : Policy} {count : Nat} {words later : List Word} {word next : Word}

theorem inChain_last (h : Numbered count [word]) : inChain policy count word = true := by
  have rank : word.index + 1 = count := h.1
  rw [inChain, rank, beq_self_eq_true, Bool.true_or]

theorem inChain_cons (h : Numbered count (word :: next :: later)) :
    inChain policy count word = policy.allowsInitial word.index count := by
  have rank : word.index + (later.length + 1) + 1 = count := h.1
  rw [inChain, beq_eq_false_iff_ne.mpr (by omega), Bool.false_or]

theorem chainKeys_ne_nil (policy : Policy) (h : Numbered count words) (filled : words ≠ []) :
    chainKeys policy count words ≠ [] := by
  induction words with
  | nil => exact absurd rfl filled
  | cons word later ih =>
      cases later with
      | nil => simp [chainKeys, inChain_last h]
      | cons next later =>
          intro empty
          apply ih h.2 (List.cons_ne_nil _ _)
          rw [chainKeys, List.map_eq_nil_iff, List.filter_eq_nil_iff] at empty ⊢
          exact fun other mem => empty other (List.mem_cons_of_mem _ mem)

/-- Some reading goes on after an initial exactly when what is left begins a chain of the later
words, with or without further initials. -/
theorem continuations_ne_nil_iff {rest : Digits} (h : Numbered count later) (filled : later ≠ [])
    (further : candidates policy count later rest ≠ [] ↔
      rest ≠ [] ∧ ∃ entry ∈ abbreviations policy.initialLimit (chainKeys policy count later),
        rest <+: entry) :
    continuations policy count later rest ≠ [] ↔
      ∃ entry ∈ (tailChains (chainKeys policy count later)).reverse ++
        abbreviations policy.initialLimit (chainKeys policy count later), rest <+: entry := by
  by_cases done : rest = []
  · subst done
    simp only [continuations, List.isEmpty_nil, if_true, ne_eq, List.cons_ne_nil, not_false_eq_true,
      List.nil_prefix, and_true, true_iff]
    obtain ⟨token, tokens, keys⟩ := List.exists_cons_of_ne_nil
      (chainKeys_ne_nil policy h filled)
    rw [keys]
    exact ⟨_, List.mem_append_left _ (List.mem_reverse.mpr List.mem_cons_self)⟩
  · rw [continuations, if_neg (by simpa using done), append_ne_nil_iff]
    simp only [List.mem_append, List.mem_reverse, or_and_right, exists_or]
    refine or_congr (readings_ne_nil_iff _ _) (further.trans ?_)
    exact and_iff_right done

/-- The enumeration lists a reading exactly when the query begins a chain with initials in front. -/
theorem candidates_ne_nil_iff (h : Numbered count words) (query : Digits) :
    candidates policy count words query ≠ [] ↔
      query ≠ [] ∧ ∃ entry ∈ abbreviations policy.initialLimit (chainKeys policy count words),
        query <+: entry := by
  induction words generalizing query with
  | nil => simp [candidates, chainKeys, abbreviations]
  | cons word later ih =>
      cases later with
      | nil => simp [candidates, chainKeys, inChain_last h, abbreviations, tailChains]
      | cons next later =>
          have rest := fun left =>
            continuations_ne_nil_iff h.2 (List.cons_ne_nil _ _) (ih h.2 left)
          have keys : chainKeys policy count (word :: next :: later) =
              if policy.allowsInitial word.index count then
                word.keys :: chainKeys policy count (next :: later)
              else chainKeys policy count (next :: later) := by
            rw [chainKeys, List.filter_cons, inChain_cons h]
            split <;> rfl
          rw [candidates_cons, append_ne_nil_iff, ih h.2, keys, openings]
          generalize chainKeys policy count (next :: later) = tokens at rest ⊢
          by_cases allowed : policy.allowsInitial word.index count = true
          · have opened : (initialLengths policy word query).flatMap (fun length =>
                (continuations policy count (next :: later) (query.drop length)).map
                  (word.initial length :: ·)) ≠ [] ↔
                query ≠ [] ∧ ∃ initial ∈ beginnings policy.initialLimit word.keys,
                  ∃ entry ∈ (tailChains tokens).reverse ++
                    abbreviations policy.initialLimit tokens, query <+: initial ++ entry := by
              rw [← exists_initialLengths_iff]
              simp only [ne_eq, List.flatMap_eq_nil_iff, List.map_eq_nil_iff,
                Classical.not_forall, exists_prop]
              exact exists_congr fun length => and_congr_right fun _ => rest (query.drop length)
            rw [if_pos allowed, if_pos allowed, opened, ← and_or_left, exists_abbreviations_iff]
          · simp [allowed]

end

/-- The words of a name carry its tokens. -/
theorem keys_words (layout : Layout) (name : Text) :
    (words layout name).map (fun word => word.keys) = tokens layout name := by
  rw [tokens_eq_keys, ← toRun_words, List.map_map]
  rfl

theorem chainKeys_words (layout : Layout) (policy : Policy) (name : Text) :
    chainKeys policy (words layout name).length (words layout name) =
      windowChain policy (tokens layout name) := by
  rw [windowChain, tokens_eq_keys, chainKeys, words, List.length_mapIdx, List.length_map,
    List.mapIdx_eq_zipIdx_map, List.zipIdx_map, List.filter_map, List.filter_map, List.map_map,
    List.map_map]
  rfl

section

variable (layout : Layout) (policy : Policy) (name : Text) (query : Digits)

theorem isSome_searchWords_iff :
    (searchWords policy (words layout name) query).1.isSome = true ↔
      (∃ chain ∈ tailChains (tokens layout name), query <+: chain) ∨
      policy.allowInitials = true ∧ query ≠ [] ∧
        ∃ entry ∈ abbreviations policy.initialLimit (windowChain policy (tokens layout name)),
          query <+: entry := by
  rw [searchWords_eq_head? policy query (numbered_words layout name), List.isSome_head?,
    append_ne_nil_iff, readings_ne_nil_iff, keys_words]
  refine or_congr_right ?_
  cases policy.allowInitials with
  | true =>
      rw [if_pos rfl, candidates_ne_nil_iff (numbered_words layout name), chainKeys_words]
      exact (and_iff_right rfl).symm
  | false => simp

theorem exists_mem_index_iff :
    (∃ entry ∈ index layout policy name, query <+: entry) ↔
      (∃ chain ∈ tailChains (tokens layout name), query <+: chain) ∨
      policy.allowInitials = true ∧
        ∃ entry ∈ abbreviations policy.initialLimit (windowChain policy (tokens layout name)),
          query <+: entry := by
  rw [index_eq]
  cases policy.allowInitials with
  | true => simp only [List.mem_append, List.mem_reverse, or_and_right, exists_or, if_true, true_and]
  | false => simp

/-- An entry has no more keys than the name has characters. -/
theorem length_le_of_mem_index {entry : Digits} (h : entry ∈ index layout policy name) :
    entry.length ≤ name.length :=
  calc entry.length ≤ (tokens layout name).flatten.length := (sublist_of_mem_index h).length_le
    _ = (name.filterMap layout.numeral?).length := by rw [flatten_tokens]
    _ ≤ name.length := List.length_filterMap_le _ _

/-- A name is found by a query exactly when the query is not empty and begins an entry of the
index. -/
theorem isSome_search_iff :
    (search layout policy name query).isSome = true ↔
      query ≠ [] ∧ ∃ entry ∈ index layout policy name, query <+: entry := by
  unfold search
  by_cases empty : query = []
  · simp [empty]
  by_cases long : name.length < query.length
  · -- The length alone refuses the query, and no entry is so long.
    have absent : ¬ ∃ entry ∈ index layout policy name, query <+: entry := by
      rintro ⟨entry, mem, reads⟩
      have fits := length_le_of_mem_index layout policy name mem
      have := reads.length_le
      omega
    simp [long, absent]
  · rw [if_neg (by simp [empty, long]), isSome_searchWords_iff, exists_mem_index_iff]
    simp [empty]

end

end Keypad.Name

namespace Keypad.Matcher

/-- A matcher finds a name by a query exactly when what is typed of the query begins an entry of the
index of that name; an empty query finds nothing. -/
theorem isSome_nameSpans_iff (matcher : Matcher) (name query : Text) :
    (matcher.nameSpans name query).isSome = true ↔
      Text.digits query ≠ [] ∧
        ∃ entry ∈ Name.index matcher.layout matcher.policy name, Text.digits query <+: entry :=
  Name.isSome_search_iff matcher.layout matcher.policy name (Text.digits query)

end Keypad.Matcher
