import Keypad.Matcher
import Keypad.Proofs.Name.Acceptance

/-!
Looser policies. A policy that allows initials where another one does, and longer ones, keeps every
entry of the index and every name that was found. A limit that no token reaches is no limit: above
the longest token all limits list the same entries and highlight the same spans.
-/
namespace Keypad

namespace Policy

/-- Two policies with the same windows. -/
structure SameWindows (a b : Policy) : Prop where
  leading : a.leadingWords = b.leadingWords
  trailing : a.trailingWords = b.trailingWords

/-- The second policy allows initials in the same windows as the first one, and at least as long
ones. -/
structure Loosens (tight loose : Policy) : Prop extends SameWindows tight loose where
  switch : loose.allowInitials = true ∨ loose.allowInitials = tight.allowInitials
  limit : tight.initialLimit ≤ loose.initialLimit

namespace SameWindows

variable {a b : Policy}

theorem allowsInitial_eq (same : SameWindows a b) (index count : Nat) :
    a.allowsInitial index count = b.allowsInitial index count := by
  rw [allowsInitial, allowsInitial, same.leading, same.trailing]

theorem windowChain_eq (same : SameWindows a b) (tokens : List Digits) :
    Name.windowChain a tokens = Name.windowChain b tokens := by
  simp only [Name.windowChain, same.allowsInitial_eq]

theorem inChain_eq (same : SameWindows a b) (count : Nat) :
    Name.inChain a count = Name.inChain b count := by
  funext word
  rw [Name.inChain, Name.inChain, same.allowsInitial_eq]

end SameWindows

theorem Loosens.allowInitials {tight loose : Policy} (h : Loosens tight loose)
    (allowed : tight.allowInitials = true) : loose.allowInitials = true := by
  rcases h.switch with on | same
  · exact on
  · exact same.trans allowed

end Policy

namespace Name

/-! ## What a larger limit keeps -/

theorem beginnings_subset {limit larger : Nat} (le : limit ≤ larger) (token : Digits) :
    beginnings limit token ⊆ beginnings larger token := by
  intro initial mem
  obtain ⟨length, low, limited, rest⟩ := mem_beginnings_iff.mp mem
  exact mem_beginnings_iff.mpr ⟨length, low, Nat.le_trans limited le, rest⟩

theorem abbreviations_subset {limit larger : Nat} (le : limit ≤ larger) (tokens : List Digits) :
    abbreviations limit tokens ⊆ abbreviations larger tokens := by
  induction tokens with
  | nil => exact List.Subset.refl _
  | cons token later ih =>
      intro entry mem
      rcases List.mem_append.mp mem with old | new
      · exact List.mem_append_left _ (ih old)
      · obtain ⟨initial, begins, made⟩ := List.mem_flatMap.mp new
        obtain ⟨chain, listed, rfl⟩ := List.mem_map.mp made
        refine List.mem_append_right _ (List.mem_flatMap.mpr ⟨initial, ?_, ?_⟩)
        · exact beginnings_subset le token begins
        · refine List.mem_map_of_mem (List.mem_append.mpr ?_)
          exact (List.mem_append.mp listed).imp_right fun short => ih short

section

variable {tight loose : Policy}

theorem index_subset (h : tight.Loosens loose) (layout : Layout) (name : Text) :
    index layout tight name ⊆ index layout loose name := by
  rw [index_eq, index_eq, ← h.windowChain_eq]
  refine List.append_subset.mpr ⟨List.subset_append_left _ _, ?_⟩
  by_cases allowed : tight.allowInitials = true
  · rw [if_pos allowed, if_pos (h.allowInitials allowed)]
    exact List.Subset.trans (abbreviations_subset h.limit _) (List.subset_append_right _ _)
  · rw [if_neg allowed]
    exact List.nil_subset _

theorem isSome_search_of_loosens (h : tight.Loosens loose) {layout : Layout} {name : Text}
    {query : Digits} (found : (search layout tight name query).isSome = true) :
    (search layout loose name query).isSome = true := by
  rw [isSome_search_iff] at found ⊢
  obtain ⟨typed, entry, listed, begins⟩ := found
  exact ⟨typed, entry, index_subset h layout name listed, begins⟩

end

/-! ## Limits that no token reaches -/

section

variable {a b : Policy}

theorem beginnings_of_le {limit : Nat} {token : Digits} (fits : token.length ≤ limit) :
    beginnings limit token = beginnings token.length token := by
  rw [beginnings, beginnings, Nat.min_eq_right fits, Nat.min_self]

theorem abbreviations_of_le {limit other : Nat} {tokens : List Digits}
    (fits : ∀ token ∈ tokens, token.length ≤ limit)
    (fitsOther : ∀ token ∈ tokens, token.length ≤ other) :
    abbreviations limit tokens = abbreviations other tokens := by
  induction tokens with
  | nil => rfl
  | cons token later ih =>
      have rest := ih (fun t mem => fits t (List.mem_cons_of_mem _ mem))
        (fun t mem => fitsOther t (List.mem_cons_of_mem _ mem))
      rw [abbreviations, abbreviations, rest, beginnings_of_le (fits token List.mem_cons_self),
        beginnings_of_le (fitsOther token List.mem_cons_self)]

theorem index_of_le (same : a.SameWindows b) (switch : a.allowInitials = b.allowInitials)
    {layout : Layout} {name : Text} (fits : ∀ token ∈ tokens layout name,
      token.length ≤ a.initialLimit)
    (fitsOther : ∀ token ∈ tokens layout name, token.length ≤ b.initialLimit) :
    index layout a name = index layout b name := by
  have chained : ∀ token ∈ windowChain b (tokens layout name), token ∈ tokens layout name :=
    fun _ mem => (windowChain_sublist b _).subset mem
  rw [index_eq, index_eq, switch, same.windowChain_eq,
    abbreviations_of_le (fun token mem => fits token (chained token mem))
      (fun token mem => fitsOther token (chained token mem))]

/-- A word offers a query as many initials as it shares keys with it. -/
theorem initialLengths_of_le {policy : Policy} {word : Word}
    (fits : word.keys.length ≤ policy.initialLimit) (query : Digits) :
    initialLengths policy word query = List.range' 1 (agreement word.keys query) := by
  have shared : agreement word.keys query ≤ word.keys.length :=
    ((le_agreement_iff _ _ _).mp (Nat.le_refl _)).1
  rw [initialLengths, Nat.min_eq_right (Nat.le_trans shared fits)]

theorem candidates_of_le (same : a.SameWindows b) (count : Nat) {words : List Word}
    (fits : ∀ word ∈ words, word.keys.length ≤ a.initialLimit)
    (fitsOther : ∀ word ∈ words, word.keys.length ≤ b.initialLimit) (query : Digits) :
    candidates a count words query = candidates b count words query := by
  induction words generalizing query with
  | nil => rfl
  | cons word later ih =>
      cases later with
      | nil => rfl
      | cons next later =>
          have further := ih (fun w mem => fits w (List.mem_cons_of_mem _ mem))
            (fun w mem => fitsOther w (List.mem_cons_of_mem _ mem))
          have opened : openings a count word query = openings b count word query := by
            rw [openings, openings, same.allowsInitial_eq,
              initialLengths_of_le (fits word List.mem_cons_self),
              initialLengths_of_le (fitsOther word List.mem_cons_self)]
          simp only [candidates_cons, opened, continuations, same.inChain_eq, further]

theorem search_of_le (same : a.SameWindows b) (switch : a.allowInitials = b.allowInitials)
    {layout : Layout} {name : Text} (fits : ∀ token ∈ tokens layout name,
      token.length ≤ a.initialLimit)
    (fitsOther : ∀ token ∈ tokens layout name, token.length ≤ b.initialLimit) (query : Digits) :
    search layout a name query = search layout b name query := by
  have listed : ∀ word ∈ words layout name, word.keys ∈ tokens layout name := by
    intro word mem
    rw [← keys_words]
    exact List.mem_map_of_mem mem
  have further := candidates_of_le same (words layout name).length
    (fun word mem => fits _ (listed word mem)) (fun word mem => fitsOther _ (listed word mem)) query
  rw [search, search, searchWords_eq_head? a query (numbered_words layout name),
    searchWords_eq_head? b query (numbered_words layout name), switch, further]

end

end Name

namespace Matcher

/-- Loosening a policy keeps every match and every entry of the index. When both policies allow
initials, or neither does, and their limits reach the longest token, they list the same entries and
highlight the same spans. -/
theorem loosening_keeps_matches (matcher : Matcher) (name : Text) {tight loose : Policy}
    (h : tight.Loosens loose) :
    (∀ query, ((matcher.withPolicy tight).nameSpans name query).isSome = true →
      ((matcher.withPolicy loose).nameSpans name query).isSome = true) ∧
    (∀ entry ∈ Name.index matcher.layout tight name, entry ∈ Name.index matcher.layout loose name) ∧
    (tight.allowInitials = loose.allowInitials →
      (∀ token ∈ Name.tokens matcher.layout name,
        token.length ≤ tight.initialLimit ∧ token.length ≤ loose.initialLimit) →
      Name.index matcher.layout tight name = Name.index matcher.layout loose name ∧
        ∀ query, (matcher.withPolicy tight).nameSpans name query =
          (matcher.withPolicy loose).nameSpans name query) := by
  refine ⟨?_, ?_, ?_⟩
  · intro query found
    exact Name.isSome_search_of_loosens h found
  · exact Name.index_subset h matcher.layout name
  · intro switch fits
    have low := fun token mem => (fits token mem).1
    have high := fun token mem => (fits token mem).2
    refine ⟨Name.index_of_le h.toSameWindows switch low high, fun query => ?_⟩
    exact Name.search_of_le h.toSameWindows switch low high (Text.digits query)

/-- With one key for an initial `2726` finds `Al Bo Sam` by `2` and `726`, and with two keys it still
does; limits of three and nine keys are alike for words of at most three letters. -/
theorem loosening_keeps_matches_al_bo_sam :
    let name := "Al Bo Sam".toList
    let matcher := Matcher.new .none .latin []
    let limited (limit : Nat) : Policy := ⟨true, limit, 2, 2, false⟩
    (limited 1).Loosens (limited 2) ∧
      ((matcher.withPolicy (limited 1)).nameSpans name "2726".toList).isSome = true ∧
      ((matcher.withPolicy (limited 2)).nameSpans name "2726".toList).isSome = true ∧
      "2726".toList ∈ Name.index .latin (limited 2) name ∧
      Name.index .latin (limited 3) name = Name.index .latin (limited 9) name := by
  intro name matcher limited
  have longer : (limited 1).Loosens (limited 2) := ⟨⟨rfl, rfl⟩, .inl rfl, by decide⟩
  have beyond : (limited 3).Loosens (limited 9) := ⟨⟨rfl, rfl⟩, .inl rfl, by decide⟩
  have found : ((matcher.withPolicy (limited 1)).nameSpans name "2726".toList).isSome = true := by
    decide +kernel
  obtain ⟨matches_, entries, -⟩ := loosening_keeps_matches matcher name longer
  refine ⟨longer, found, matches_ _ found, entries _ (by decide +kernel), ?_⟩
  exact ((loosening_keeps_matches matcher name beyond).2.2 rfl (by decide +kernel)).1

/-- Between a policy without initials and one with them the limits do not make up for the switch. Both
limits reach both words of `John Smith`, and only with initials he is listed under `576484` and found
by `57`. -/
theorem switch_tells_john_smith_apart :
    let name := "John Smith".toList
    let matcher := Matcher.new .none .latin []
    let off : Policy := ⟨false, 9, 2, 2, false⟩
    let on : Policy := ⟨true, 9, 2, 2, false⟩
    off.Loosens on ∧
      (∀ token ∈ Name.tokens .latin name, token.length ≤ off.initialLimit ∧
        token.length ≤ on.initialLimit) ∧
      Name.index .latin off name = ["76484".toList, "564676484".toList] ∧
      Name.index .latin on name = ["76484".toList, "564676484".toList, "576484".toList,
        "5676484".toList, "56476484".toList, "564676484".toList] ∧
      (matcher.withPolicy off).nameSpans name "57".toList = none ∧
      ((matcher.withPolicy on).nameSpans name "57".toList).isSome = true := by
  refine ⟨⟨⟨rfl, rfl⟩, .inl rfl, by decide⟩, ?_, ?_, ?_, ?_, ?_⟩ <;> decide +kernel

end Matcher
end Keypad
