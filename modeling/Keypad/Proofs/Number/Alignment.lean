import Keypad.Matcher
import Keypad.Number.Parts
import Keypad.Proofs.Text

/-!
A number is found by a query exactly when the query begins an entry of the index of that number. An
alignment passes over formatting, the index drops it, and both end with the digits from a place on.
-/
namespace Keypad

namespace Number

/-- Nothing of a region but its numbering plan has a part in the reading of a number. -/
theorem parts_congr {a b : Region} (same : a.inNumberingPlan = b.inNumberingPlan) (number : Text) :
    parts a number = parts b number := by
  simp only [parts, callingCode, areaCodeEnd, same]

theorem align_congr {a b : Region} (same : a.inNumberingPlan = b.inNumberingPlan)
    (policy : Policy) (number : Text) (query : Digits) (useAreaCode : Bool) :
    align policy a number query useAreaCode = align policy b number query useAreaCode := by
  simp only [align, parts_congr same]

theorem isSome_consume_iff (place : Nat) (text : Text) (query : Digits) :
    (consume place text query).isSome = true ↔ query <+: Text.digits text := by
  induction text generalizing place query with
  | nil =>
      cases query with
      | nil => simp [consume]
      | cons key keys => simp [consume, Text.digits]
  | cons c rest ih =>
      cases query with
      | nil => simp [consume]
      | cons key keys =>
          rw [consume]
          by_cases digit : c.isDigit = true
          · rw [if_pos digit, Text.digits_cons_of_isDigit digit, List.cons_prefix_cons]
            by_cases same : c = key
            · simp [same, ih]
            · simp [same, Ne.symm same]
          · rw [if_neg digit, Text.digits_cons_of_not digit]
            exact ih (place + 1) (key :: keys)

section

variable {policy : Policy} {region : Region} {number : Text} {query : Digits}

theorem alignAt_of_typed (typed : query ≠ []) (place : Nat) :
    alignAt policy number query place =
      (consume place (number.drop place) query).map fun stop =>
        ⟨if place = 0 then 0
          else place + ((number.drop place).takeWhile (!·.isDigit)).length, stop⟩ :=
  if_neg (by simpa using typed)

theorem isSome_alignAt_iff (typed : query ≠ []) (place : Nat) :
    (alignAt policy number query place).isSome = true ↔ query <+: digitsFrom place number := by
  rw [alignAt_of_typed typed, Option.isSome_map]
  exact isSome_consume_iff place (number.drop place) query

theorem isSome_align_iff (useAreaCode : Bool) (filled : number ≠ []) (typed : query ≠ []) :
    (align policy region number query useAreaCode).isSome = true ↔
      query <+: digitsFrom 0 number ∨
      ((parts region number).callingCodeEnd ≠ 0 ∧
        query <+: digitsFrom (parts region number).callingCodeEnd number) ∨
      (useAreaCode = true ∧ (parts region number).areaCodeEnd ≠ 0) ∧
        query <+: digitsFrom (parts region number).areaCodeEnd number := by
  have guarded : ∀ (tried : Prop) [Decidable tried] (place : Nat),
      (if tried then alignAt policy number query place else none).isSome = true ↔
        tried ∧ query <+: digitsFrom place number := by
    intro tried _ place
    by_cases h : tried
    · simp [h, isSome_alignAt_iff typed]
    · simp [h]
  rw [align, if_neg (by simpa using filled)]
  simp only [Option.isSome_or, Bool.or_eq_true, isSome_alignAt_iff typed, guarded]

/-- Without a number or a query the policy alone decides. With a number and no query that is found
out at the start of the number, and where it is not found there it is found nowhere. -/
theorem align_of_empty (useAreaCode : Bool) (empty : number = [] ∨ query = []) :
    align policy region number query useAreaCode =
      if policy.matchEmpty then some ⟨0, 0⟩ else none := by
  rcases empty with rfl | rfl
  · rfl
  · have untyped : ∀ place, alignAt policy number [] place =
        if policy.matchEmpty then some ⟨place, place⟩ else none := fun _ => rfl
    simp only [align, untyped]
    cases policy.matchEmpty <;> simp

theorem exists_mem_index_iff (filled : number ≠ []) :
    (∃ entry ∈ index region number, query <+: entry) ↔
      query <+: digitsFrom 0 number ∨
      ((parts region number).callingCodeEnd ≠ 0 ∧
        query <+: digitsFrom (parts region number).callingCodeEnd number) ∨
      (parts region number).areaCodeEnd ≠ 0 ∧
        query <+: digitsFrom (parts region number).areaCodeEnd number := by
  have guarded : ∀ place, (∃ entry ∈ (if place ≠ 0 then [digitsFrom place number] else []),
      query <+: entry) ↔ place ≠ 0 ∧ query <+: digitsFrom place number := by
    intro place
    by_cases h : place = 0
    · simp [h]
    · simp [h]
  rw [index, if_neg (by simpa using filled)]
  simp only [List.mem_append, List.mem_singleton, or_and_right, exists_or, exists_eq_left, guarded,
    or_assoc]

end

end Number

namespace Matcher

/-- The index of a number lists exactly the ways to find it by a query, and without the area code
only the alignments with the whole number and behind its calling code count. Without a number or a
query the policy alone decides. -/
theorem isSome_numberSpan_iff (matcher : Matcher) (number : Text) :
    (number ≠ [] → matcher.keys ≠ [] →
      ((matcher.numberSpan number true).isSome = true ↔
        ∃ entry ∈ Number.index matcher.region number, matcher.keys <+: entry) ∧
      ((matcher.numberSpan number false).isSome = true ↔
        matcher.keys <+: Number.digitsFrom 0 number ∨
        (Number.parts matcher.region number).callingCodeEnd ≠ 0 ∧
          matcher.keys <+: Number.digitsFrom
            (Number.parts matcher.region number).callingCodeEnd number)) ∧
    (number = [] ∨ matcher.keys = [] → ∀ useAreaCode,
      matcher.numberSpan number useAreaCode =
        if matcher.policy.matchEmpty then some ⟨0, 0⟩ else none) := by
  refine ⟨?_, ?_⟩
  · intro filled typed
    constructor
    · rw [numberSpan, Number.isSome_align_iff true filled typed,
        Number.exists_mem_index_iff filled]
      simp
    · rw [numberSpan, Number.isSome_align_iff false filled typed]
      simp
  · intro empty useAreaCode
    exact Number.align_of_empty useAreaCode empty

/-- The local digits of a number of the plan are found only with the area code skipped. -/
theorem isSome_numberSpan_iff_local :
    let matcher : Matcher := ⟨.latin, .standard, ⟨none, true⟩, "1234".toList, "1234".toList, [], [], []⟩
    let number := "+1 (555) 123-4567".toList
    ((matcher.numberSpan number true).isSome = true ∧
      ∃ entry ∈ Number.index matcher.region number, matcher.keys <+: entry) ∧
    matcher.numberSpan number false = none ∧ matcher.numberSpan [] true = none := by
  intro matcher number
  obtain ⟨agree, empty⟩ := isSome_numberSpan_iff matcher number
  obtain ⟨whole, _⟩ := agree (by decide) (by decide)
  have found : (matcher.numberSpan number true).isSome = true := by decide +kernel
  refine ⟨⟨found, whole.mp found⟩, by decide +kernel, ?_⟩
  exact (isSome_numberSpan_iff matcher []).2 (.inl rfl) true

end Matcher
end Keypad
