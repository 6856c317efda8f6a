import Keypad.Proofs.Name.Acceptance

/-!
When initials matter. They need a length, and a window that holds a word with another one behind it:
the last word of a name has no initial of its own. Every policy that validation refuses leaves no
initial, and so does one more, whose only window holds the last word alone.
-/
namespace Keypad

namespace Name

theorem beginnings_zero (token : Digits) : beginnings 0 token = [] := by
  rw [beginnings, Nat.zero_min, List.range_zero, List.map_nil]

theorem abbreviations_zero (tokens : List Digits) : abbreviations 0 tokens = [] := by
  induction tokens with
  | nil => rfl
  | cons token later ih =>
      rw [abbreviations, ih, beginnings_zero, List.flatMap_nil, List.append_nil]

theorem abbreviations_singleton (limit : Nat) (token : Digits) :
    abbreviations limit [token] = [] := by
  simp [abbreviations, tailChains]

/-- An initial before one more token is an entry of its own. -/
theorem take_append_mem_abbreviations {limit length : Nat} {token last : Digits}
    (low : 0 < length) (limited : length ≤ limit) (inside : length ≤ token.length) :
    token.take length ++ last ∈ abbreviations limit [token, last] := by
  rw [abbreviations, abbreviations_singleton, List.nil_append, List.append_nil]
  refine List.mem_flatMap.mpr ⟨token.take length, ?_, ?_⟩
  · exact mem_beginnings_iff.mpr ⟨length, low, limited, inside, rfl⟩
  · simp [tailChains]

end Name

namespace Policy

/-- The same policy with initials switched off. -/
def withoutInitials (policy : Policy) : Policy := { policy with allowInitials := false }

/-- Whether a word that is not the last one of its name may lie in a window. -/
def reachesEarlier (policy : Policy) : Prop := 0 < policy.leadingWords ∨ 1 < policy.trailingWords

/-- Whether a matcher with this policy finds a name by a query on the Latin keypad. -/
def finds (policy : Policy) (name query : Text) : Bool :=
  (((Matcher.new .none .latin []).withPolicy policy).nameSpans name query).isSome

section

variable {policy : Policy}

theorem exists_validate_error_iff (allowed : policy.allowInitials = true) :
    (∃ fault, policy.validate = .error fault) ↔
      policy.initialLimit = 0 ∨ policy.leadingWords = 0 ∧ policy.trailingWords = 0 := by
  unfold validate
  simp only [allowed, true_and]
  split
  · rename_i short
    simp [short]
  · rename_i long
    split
    · rename_i none
      simp [none]
    · rename_i some
      simp [long, some]

theorem validate_eq_ok_iff :
    policy.validate = .ok () ↔ ¬ ∃ fault, policy.validate = .error fault := by
  cases policy.validate <;> simp

theorem allowsInitial_of_not_reachesEarlier {index count : Nat} (h : ¬ policy.reachesEarlier)
    (early : index + 1 < count) : policy.allowsInitial index count = false := by
  unfold reachesEarlier at h
  simp only [allowsInitial, Bool.or_eq_false_iff, decide_eq_false_iff_not]
  omega

theorem windowChain_of_not_reachesEarlier (h : ¬ policy.reachesEarlier) (tokens : List Digits)
    (last : Digits) : Name.windowChain policy (tokens ++ [last]) = [last] := by
  have none : tokens.zipIdx.filter
      (fun entry => policy.allowsInitial entry.2 (tokens.length + 1)) = [] := by
    rw [List.filter_eq_nil_iff]
    intro entry mem
    have low : entry.2 < tokens.length := by simpa using List.snd_lt_of_mem_zipIdx mem
    rw [allowsInitial_of_not_reachesEarlier h (by omega)]
    exact Bool.false_ne_true
  rw [Name.windowChain_append, none, List.map_nil, List.nil_append]

/-- Without a length, or without a window that reaches an earlier word, a name is indexed as if
initials were switched off. -/
theorem index_withoutInitials (h : policy.initialLimit = 0 ∨ ¬ policy.reachesEarlier)
    (layout : Layout) (name : Text) :
    Name.index layout policy name = Name.index layout policy.withoutInitials name := by
  have none : Name.abbreviations policy.initialLimit
      (Name.windowChain policy (Name.tokens layout name)) = [] := by
    rcases h with short | narrow
    · rw [short, Name.abbreviations_zero]
    · rcases List.eq_nil_or_concat (Name.tokens layout name) with empty | ⟨earlier, last, whole⟩
      · rw [empty]
        rfl
      · rw [whole, List.concat_eq_append, windowChain_of_not_reachesEarlier narrow,
          Name.abbreviations_singleton]
  rw [Name.index_eq, Name.index_eq, none, ite_self]
  rfl

theorem finds_iff (policy : Policy) (name query : Text) :
    policy.finds name query = true ↔
      Text.digits query ≠ [] ∧
        ∃ entry ∈ Name.index .latin policy name, Text.digits query <+: entry :=
  Name.isSome_search_iff .latin policy name (Text.digits query)

theorem finds_withoutInitials (h : policy.initialLimit = 0 ∨ ¬ policy.reachesEarlier)
    (name query : Text) : policy.finds name query = policy.withoutInitials.finds name query := by
  rw [Bool.eq_iff_iff, finds_iff, finds_iff, index_withoutInitials h]

theorem tokens_john_smith :
    Name.tokens .latin "John Smith".toList = ["5646".toList, "76484".toList] := by
  decide +kernel

/-- With a length and a window that reaches an earlier word, the initials of two words are found. -/
theorem finds_john_smith (allowed : policy.allowInitials = true) (long : 0 < policy.initialLimit)
    (reaches : policy.reachesEarlier) :
    policy.finds "John Smith".toList "57".toList = true := by
  have opens : policy.allowsInitial 0 2 = true := by
    unfold reachesEarlier at reaches
    simp only [allowsInitial, Bool.or_eq_true, decide_eq_true_eq]
    omega
  have chain : Name.windowChain policy ["5646".toList, "76484".toList] =
      ["5646".toList, "76484".toList] := by
    rw [← List.singleton_append, Name.windowChain_append]
    simp [opens]
  rw [finds_iff, Name.index_eq, tokens_john_smith, if_pos allowed, chain]
  refine ⟨by decide, "5".toList ++ "76484".toList, List.mem_append_right _ ?_, by decide⟩
  exact Name.take_append_mem_abbreviations Nat.one_pos long (by decide)

theorem not_finds_john_smith (policy : Policy) :
    policy.withoutInitials.finds "John Smith".toList "57".toList = false := by
  have off : ¬ policy.withoutInitials.allowInitials = true := Bool.false_ne_true
  rw [← Bool.not_eq_true, finds_iff, Name.index_eq, tokens_john_smith, if_neg off]
  rintro ⟨_, absent⟩
  revert absent
  decide

/-- Initials find something just when they have a length and a window that reaches an earlier
word. -/
theorem exists_finds_iff (allowed : policy.allowInitials = true) :
    (∃ name query, policy.finds name query = true ∧
      policy.withoutInitials.finds name query = false) ↔
      0 < policy.initialLimit ∧ policy.reachesEarlier := by
  constructor
  · rintro ⟨name, query, found, lost⟩
    refine Classical.byContradiction fun idle => ?_
    have none : policy.initialLimit = 0 ∨ ¬ policy.reachesEarlier := by
      rw [← Nat.le_zero, ← Nat.not_lt]
      exact Classical.not_and_iff_not_or_not.mp idle
    rw [finds_withoutInitials none, lost] at found
    cases found
  · rintro ⟨long, reaches⟩
    exact ⟨_, _, finds_john_smith allowed long reaches, not_finds_john_smith policy⟩

end

/-- Initials that are allowed find nothing just when validation refuses the policy, or when its only
window holds the last word of a name. Under every other policy some name is found by some query only
thanks to initials. -/
theorem initials_idle_iff (policy : Policy) (allowed : policy.allowInitials = true) :
    ((∀ name query, policy.finds name query = policy.withoutInitials.finds name query) ↔
      (∃ fault, policy.validate = .error fault) ∨
        policy.leadingWords = 0 ∧ policy.trailingWords = 1) ∧
    ((∃ name query, policy.finds name query = true ∧
        policy.withoutInitials.finds name query = false) ↔
      policy.validate = .ok () ∧ ¬ (policy.leadingWords = 0 ∧ policy.trailingWords = 1)) := by
  have matter := exists_finds_iff allowed
  constructor
  · rw [exists_validate_error_iff allowed]
    constructor
    · intro same
      have idle : ¬ (0 < policy.initialLimit ∧ policy.reachesEarlier) := by
        rw [← matter]
        rintro ⟨name, query, found, lost⟩
        rw [same, lost] at found
        cases found
      unfold reachesEarlier at idle
      omega
    · intro idle name query
      refine finds_withoutInitials ?_ name query
      unfold reachesEarlier
      omega
  · rw [matter, validate_eq_ok_iff, exists_validate_error_iff allowed, reachesEarlier]
    omega

/-- The standard policy finds some name only thanks to initials. -/
theorem initials_idle_iff_standard :
    standard.allowInitials = true ∧ ∃ name query, standard.finds name query = true ∧
      standard.withoutInitials.finds name query = false :=
  ⟨rfl, (initials_idle_iff standard rfl).2.mpr ⟨rfl, by decide⟩⟩

/-- With a window for the last word alone a policy is accepted, and its initials find nothing. -/
theorem idle_last_word_window :
    let policy : Policy := ⟨true, 1, 0, 1, false⟩
    policy.validate = .ok () ∧
      ∀ name query, policy.finds name query = policy.withoutInitials.finds name query :=
  ⟨rfl, finds_withoutInitials (.inr (by unfold reachesEarlier; decide))⟩

end Policy
end Keypad
