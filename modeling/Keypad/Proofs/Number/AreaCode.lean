import Keypad.Proofs.Number.CallingCode

/-!
Where the area code of a number ends. The area code is known from the bare digits, but its end is the
end of the first unbroken stretch that reads like it. That is the end of the area code exactly when
formatting does not break the area code; otherwise the same three digits may turn up later on.
-/
namespace Keypad

namespace Number

theorem of_areaCode?_eq_some {code : Text} {digits area : Digits}
    (h : areaCode? code digits = some area) :
    digits.length = code.length + 10 ∧ area = (digits.drop code.length).take 3 := by
  unfold areaCode? at h
  split at h
  · rename_i ten
    obtain ⟨rfl, length⟩ := ten
    exact ⟨length, (Option.some.inj h).symm⟩
  · split at h
    · rename_i eleven
      obtain ⟨rfl, length⟩ := eleven
      exact ⟨length, (Option.some.inj h).symm⟩
    · cases h

namespace Parts

/-- The three digits behind the calling code. -/
def area (found : Parts) (number : Text) : Digits :=
  (digitsFrom found.callingCodeEnd number).take 3

/-- The area code stands in the number without formatting inside. -/
def Unbroken (found : Parts) (number : Text) : Prop :=
  found.area number <+: (number.drop found.callingCodeEnd).dropWhile (!·.isDigit)

/-- The calling code and the area code stand before the end of the area code, the seven local digits
behind it. -/
structure Splits (found : Parts) (number : Text) : Prop where
  before : Text.digits (number.take found.areaCodeEnd) =
    found.callingCode ++ ((Text.digits number).drop found.callingCode.length).take 3
  after : digitsFrom found.areaCodeEnd number =
    (Text.digits number).drop ((Text.digits number).length - 7)
  beyond : found.callingCodeEnd < found.areaCodeEnd

/-- The digits of the area code stand together `passed` characters behind the calling code, and
nowhere before. -/
structure Located (found : Parts) (number : Text) (passed : Nat) : Prop where
  total : (Text.digits number).length = found.callingCode.length + 10
  code : Text.digits (number.take found.callingCodeEnd) = found.callingCode
  stop : found.areaCodeEnd = found.callingCodeEnd + passed + 3
  stands : found.area number <+: (number.drop found.callingCodeEnd).drop passed
  first : ∀ earlier < passed,
    ¬ found.area number <+: (number.drop found.callingCodeEnd).drop earlier

namespace Located

variable {found : Parts} {number : Text} {passed : Nat}

theorem digitsFrom_eq (h : found.Located number passed) :
    digitsFrom found.callingCodeEnd number =
      (Text.digits number).drop found.callingCode.length := by
  rw [Number.digitsFrom_eq, h.code]

theorem length_area (h : found.Located number passed) : (found.area number).length = 3 := by
  have total := h.total
  rw [area, h.digitsFrom_eq, List.length_take, List.length_drop]
  omega

theorem digits_area : Text.digits (found.area number) = found.area number :=
  Text.digits_eq_self fun _ mem => Text.isDigit_of_mem_digits (List.mem_of_mem_take mem)

/-- Before the end of the area code stand the calling code, the digits passed over, and the area
code. -/
theorem digits_before (h : found.Located number passed) :
    Text.digits (number.take found.areaCodeEnd) =
      found.callingCode ++ Text.digits ((number.drop found.callingCodeEnd).take passed) ++
        found.area number := by
  have stretch : ((number.drop found.callingCodeEnd).drop passed).take 3 = found.area number := by
    rw [← h.length_area]
    exact (List.prefix_iff_eq_take.mp h.stands).symm
  rw [h.stop, Nat.add_assoc, List.take_add, List.take_add, stretch, Text.digits_append,
    Text.digits_append, digits_area, h.code, List.append_assoc]

theorem unbroken_iff (h : found.Located number passed) :
    found.Unbroken number ↔
      Text.digits ((number.drop found.callingCodeEnd).take passed) = [] := by
  have filled : found.area number ≠ [] := by
    intro empty
    have length := h.length_area
    rw [empty] at length
    cases length
  exact Text.prefix_dropWhile_iff filled digits_area h.stands h.first

theorem splits_iff (h : found.Located number passed) :
    found.Splits number ↔
      Text.digits ((number.drop found.callingCodeEnd).take passed) = [] := by
  have total := h.total
  have area : ((Text.digits number).drop found.callingCode.length).take 3 = found.area number := by
    rw [← h.digitsFrom_eq]
    rfl
  constructor
  · intro splits
    have lengths := congrArg List.length splits.before
    rw [h.digits_before, area] at lengths
    simp only [List.length_append] at lengths
    exact List.length_eq_zero_iff.mp (by omega)
  · intro silent
    have before := h.digits_before
    rw [silent, List.append_nil] at before
    refine ⟨by rw [before, area], ?_, by rw [h.stop]; omega⟩
    rw [Number.digitsFrom_eq, before, List.length_append, h.length_area]
    congr 1
    omega

end Located

end Parts

theorem of_areaCodeEnd_ne_zero {region : Region} {code number : Text} {codeEnd : Nat}
    (h : areaCodeEnd region code codeEnd number ≠ 0) :
    ∃ area passed, areaCode? code (Text.digits number) = some area ∧
      Text.find? area (number.drop codeEnd) = some passed ∧
      areaCodeEnd region code codeEnd number = codeEnd + passed + area.length := by
  unfold areaCodeEnd at h ⊢
  split at h
  · rename_i plan
    rw [if_pos plan]
    split at h
    · rename_i area known
      split at h
      · rename_i passed found
        exact ⟨area, passed, known, found, rfl⟩
      · exact absurd rfl h
    · exact absurd rfl h
  · exact absurd rfl h

theorem exists_located {region : Region} {number : Text}
    (h : (parts region number).areaCodeEnd ≠ 0) :
    ∃ passed, (parts region number).Located number passed := by
  unfold parts at h ⊢
  rcases codes : callingCode region number with ⟨code, codeEnd⟩
  simp only [codes] at h ⊢
  obtain ⟨area, passed, known, found, stop⟩ := of_areaCodeEnd_ne_zero h
  obtain ⟨total, rfl⟩ := of_areaCode?_eq_some known
  obtain ⟨stands, first⟩ := Text.of_find?_eq_some found
  have front := digits_take_callingCode codes
  have behind : digitsFrom codeEnd number = (Text.digits number).drop code.length := by
    rw [digitsFrom_eq, front]
  refine ⟨passed, total, front, ?_, ?_, ?_⟩
  · change areaCodeEnd region code codeEnd number = codeEnd + passed + 3
    rw [stop, List.length_take, List.length_drop]
    omega
  · change (digitsFrom codeEnd number).take 3 <+: _
    rwa [behind]
  · change ∀ earlier < passed, ¬ (digitsFrom codeEnd number).take 3 <+: _
    rwa [behind]

/-- The end of the area code is where it is said to be exactly when formatting does not break the
area code. It always lies behind the calling code. -/
theorem splits_iff_unbroken {region : Region} {number : Text}
    (h : (parts region number).areaCodeEnd ≠ 0) :
    (parts region number).callingCodeEnd < (parts region number).areaCodeEnd ∧
      ((parts region number).Splits number ↔ (parts region number).Unbroken number) := by
  obtain ⟨passed, located⟩ := exists_located h
  refine ⟨?_, located.splits_iff.trans located.unbroken_iff.symm⟩
  rw [located.stop]
  omega

/-- With the usual formatting the area code ends behind its closing bracket. -/
theorem splits_unbroken_number :
    let number := "+1 (555) 123-4567".toList
    let found := parts (.ofCountry "US".toList) number
    found.areaCodeEnd = 7 ∧ found.Splits number := by
  intro number found
  have stop : found.areaCodeEnd = 7 := by decide +kernel
  have unbroken : found.Unbroken number := by
    unfold Parts.Unbroken
    decide +kernel
  exact ⟨stop, (splits_iff_unbroken (by rw [stop]; decide)).2.mpr unbroken⟩

/-- Here formatting breaks the area code, and its digits stand together only at the very end. -/
theorem not_splits_broken_number :
    let number := "55-5123-4555".toList
    let found := parts (.ofCountry "US".toList) number
    found.areaCodeEnd = 12 ∧ ¬ found.Splits number := by
  intro number found
  have stop : found.areaCodeEnd = 12 := by decide +kernel
  refine ⟨stop, fun splits => ?_⟩
  have after := splits.after
  revert after
  decide +kernel

end Number
end Keypad
