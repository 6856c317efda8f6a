import Keypad.Proofs.Number.Alignment
import Keypad.Proofs.Number.AreaCode

/-!
Formatting of a number. Two numbers with the same digits, neither of which opens with a plus, have
the same calling code and the same digits behind it. What is made of their area codes can differ, as
an area code that formatting breaks is not found where it stands. They are indexed and found alike
exactly as far as the ends of their area codes are reached over the same digits, which is so whenever
formatting leaves both area codes whole.
-/
namespace Keypad

namespace Number

/-- Two ways to write the same digits without a plus in front. -/
structure Reformatted (a b : Text) : Prop where
  filled : a ≠ [] ∧ b ≠ []
  bare : a.head? ≠ some '+' ∧ b.head? ≠ some '+'
  digits : Text.digits a = Text.digits b

/-- A place in either number is there or not, and the same digits stand behind it. -/
structure Agree (a b : Text) (i j : Nat) : Prop where
  found : i = 0 ↔ j = 0
  behind : digitsFrom i a = digitsFrom j b

/-- A place that is not the start stands behind some digit. -/
def Marks (number : Text) (place : Nat) : Prop :=
  Text.digits (number.take place) = [] → place = 0

section

variable {a b : Text} {i j : Nat}

theorem Marks.eq_zero_iff (h : Marks a i) : i = 0 ↔ Text.digits (a.take i) = [] := by
  constructor
  · rintro rfl
    rfl
  · exact h

theorem agree_iff (same : Text.digits a = Text.digits b) (marksA : Marks a i) (marksB : Marks b j) :
    Agree a b i j ↔ Text.digits (a.take i) = Text.digits (b.take j) := by
  have left := Text.digits_take_append_drop a i
  have right := Text.digits_take_append_drop b j
  rw [← same] at right
  constructor
  · intro agree
    have behind : Text.digits (a.drop i) = Text.digits (b.drop j) := agree.behind
    rw [← left, behind] at right
    exact (List.append_cancel_right right).symm
  · intro before
    refine ⟨?_, ?_⟩
    · rw [marksA.eq_zero_iff, marksB.eq_zero_iff, before]
    · rw [← left, before] at right
      exact (List.append_cancel_left right).symm

/-- The calling code that the digits of a number without a plus begin with. -/
def bareCode (region : Region) (digits : Digits) : Text :=
  if digits.length = 11 ∧ digits.head? = some '1' ∧ region.inNumberingPlan then ['1'] else []

theorem bareCode_eq (region : Region) (digits : Digits) :
    bareCode region digits = [] ∨ bareCode region digits = ['1'] := by
  rw [bareCode]
  split
  · exact .inr rfl
  · exact .inl rfl

section

variable (region : Region) (bare : a.head? ≠ some '+')

include bare

theorem callingCode_of_bare :
    (parts region a).callingCode = bareCode region (Text.digits a) := by
  change (callingCode region a).1 = _
  rw [callingCode, bareCode, if_neg bare]
  split <;> rfl

theorem digits_take_callingCodeEnd :
    Text.digits (a.take (parts region a).callingCodeEnd) = bareCode region (Text.digits a) := by
  rw [← callingCode_of_bare region bare]
  exact digits_take_callingCode rfl

theorem marks_callingCodeEnd : Marks a (parts region a).callingCodeEnd := by
  intro empty
  rw [digits_take_callingCodeEnd region bare, bareCode] at empty
  change (callingCode region a).2 = 0
  rw [callingCode, if_neg bare]
  split
  · rename_i eleven
    rw [if_pos eleven] at empty
    cases empty
  · rfl

end

theorem Reformatted.callingCode_agree (region : Region) (h : Reformatted a b) :
    Agree a b (parts region a).callingCodeEnd (parts region b).callingCodeEnd := by
  apply (agree_iff h.digits (marks_callingCodeEnd region h.bare.1)
    (marks_callingCodeEnd region h.bare.2)).mpr
  rw [digits_take_callingCodeEnd region h.bare.1, digits_take_callingCodeEnd region h.bare.2,
    h.digits]

theorem marks_areaCodeEnd (region : Region) (number : Text) :
    Marks number (parts region number).areaCodeEnd := by
  intro empty
  refine Decidable.byContradiction fun found => ?_
  obtain ⟨passed, located⟩ := exists_located found
  have area := located.length_area
  rw [located.digits_before, List.append_eq_nil_iff] at empty
  rw [empty.2] at area
  cases area

/-- The digits over which the end of the area code is reached; there are none when none is found. -/
def reached (region : Region) (number : Text) : Digits :=
  Text.digits (number.take (parts region number).areaCodeEnd)

theorem Reformatted.areaCode_agree_iff (region : Region) (h : Reformatted a b) :
    Agree a b (parts region a).areaCodeEnd (parts region b).areaCodeEnd ↔
      reached region a = reached region b :=
  agree_iff h.digits (marks_areaCodeEnd region a) (marks_areaCodeEnd region b)

theorem Reformatted.index_eq_iff (region : Region) (h : Reformatted a b) :
    index region a = index region b ↔ reached region a = reached region b := by
  have whole : digitsFrom 0 a = digitsFrom 0 b := h.digits
  have code := h.callingCode_agree region
  rw [← h.areaCode_agree_iff, index, index, if_neg (by simpa using h.filled.1),
    if_neg (by simpa using h.filled.2)]
  simp only [whole, code.found, code.behind, ne_eq, List.append_cancel_left_eq]
  generalize (parts region a).areaCodeEnd = i
  generalize (parts region b).areaCodeEnd = j
  constructor
  · intro entries
    by_cases here : i = 0
    · by_cases there : j = 0
      · exact ⟨iff_of_true here there, by rw [here, there, whole]⟩
      · simp [here, there] at entries
    · by_cases there : j = 0
      · simp [here, there] at entries
      · exact ⟨iff_of_false here there, by simpa [here, there] using entries⟩
  · intro agree
    simp only [agree.found, agree.behind]

theorem Reformatted.isSome_align_eq (policy : Policy) (region : Region) (query : Digits)
    {useAreaCode : Bool} (h : Reformatted a b)
    (alike : useAreaCode = true → reached region a = reached region b) :
    (align policy region a query useAreaCode).isSome =
      (align policy region b query useAreaCode).isSome := by
  by_cases typed : query = []
  · rw [align_of_empty _ (.inr typed), align_of_empty _ (.inr typed)]
  · have whole : digitsFrom 0 a = digitsFrom 0 b := h.digits
    have code := h.callingCode_agree region
    rw [Bool.eq_iff_iff, isSome_align_iff _ h.filled.1 typed, isSome_align_iff _ h.filled.2 typed,
      whole, code.behind, ne_eq, code.found]
    refine or_congr_right (or_congr_right ?_)
    cases useAreaCode with
    | false => simp
    | true =>
        have area := (h.areaCode_agree_iff region).mpr (alike rfl)
        rw [ne_eq, area.found, area.behind]

/-- Whether an area code is looked for behind a calling code. -/
def LooksForArea (region : Region) (code : Text) (digits : Digits) : Prop :=
  region.inNumberingPlan = true ∧ digits.length = code.length + 10

theorem areaCode?_eq_some {code : Text} {digits : Digits} (plan : code = [] ∨ code = ['1'])
    (total : digits.length = code.length + 10) :
    areaCode? code digits = some ((digits.drop code.length).take 3) := by
  rcases plan with rfl | rfl
  · exact if_pos ⟨rfl, total⟩
  · rw [areaCode?, if_neg (by simp), if_pos ⟨rfl, total⟩]
    rfl

theorem areaCodeEnd_eq_zero {region : Region} {code number : Text} {codeEnd : Nat}
    (h : ¬ LooksForArea region code (Text.digits number)) :
    areaCodeEnd region code codeEnd number = 0 := by
  refine Decidable.byContradiction fun found => h ?_
  obtain ⟨area, _, known, _⟩ := of_areaCodeEnd_ne_zero found
  refine ⟨?_, (of_areaCode?_eq_some known).1⟩
  exact Decidable.byContradiction fun off => found (if_neg off)

theorem areaCodeEnd_ne_zero {region : Region} {code number : Text} {codeEnd : Nat}
    (plan : code = [] ∨ code = ['1']) (h : LooksForArea region code (Text.digits number))
    (unbroken : ((Text.digits number).drop code.length).take 3 <+:
      (number.drop codeEnd).dropWhile (!·.isDigit)) :
    areaCodeEnd region code codeEnd number ≠ 0 := by
  obtain ⟨formatting, whole⟩ := List.dropWhile_suffix (!·.isDigit) (l := number.drop codeEnd)
  have stands : ((Text.digits number).drop code.length).take 3 <+:
      (number.drop codeEnd).drop formatting.length := by
    rwa [← whole, List.drop_left]
  obtain ⟨place, found⟩ := Option.ne_none_iff_exists'.mp (Text.find?_ne_none stands)
  have total := h.2
  rw [areaCodeEnd, if_pos h.1, areaCode?_eq_some plan total]
  simp only [found, List.length_take, List.length_drop]
  omega

/-- Formatting leaves the area code of a number whole, if one is looked for. -/
def Whole (region : Region) (number : Text) : Prop :=
  LooksForArea region (parts region number).callingCode (Text.digits number) →
    (parts region number).Unbroken number

/-- The end of a whole area code is reached over the calling code and the three digits behind it. -/
theorem reached_of_whole {region : Region} (bare : a.head? ≠ some '+') (whole : Whole region a)
    (looks : LooksForArea region (bareCode region (Text.digits a)) (Text.digits a)) :
    reached region a = bareCode region (Text.digits a) ++
      ((Text.digits a).drop (bareCode region (Text.digits a)).length).take 3 := by
  have code := callingCode_of_bare region bare
  have before := digits_take_callingCodeEnd region bare
  have unbroken : (parts region a).Unbroken a := whole (code ▸ looks)
  have found : areaCodeEnd region (parts region a).callingCode (parts region a).callingCodeEnd a ≠
      0 := by
    rw [code]
    apply areaCodeEnd_ne_zero (bareCode_eq region _) looks
    rw [← before, ← digitsFrom_eq]
    exact unbroken
  obtain ⟨passed, located⟩ := exists_located found
  rw [← code]
  exact (located.splits_iff.mpr (located.unbroken_iff.mp unbroken)).before

theorem Reformatted.reached_eq {region : Region} (h : Reformatted a b) (wholeA : Whole region a)
    (wholeB : Whole region b) : reached region a = reached region b := by
  by_cases looks : LooksForArea region (bareCode region (Text.digits a)) (Text.digits a)
  · rw [reached_of_whole h.bare.1 wholeA looks, h.digits]
    rw [h.digits] at looks
    rw [reached_of_whole h.bare.2 wholeB looks]
  · have off : ∀ number, number.head? ≠ some '+' → Text.digits number = Text.digits a →
        reached region number = [] := by
      intro number bare same
      have code := callingCode_of_bare region bare
      have none : (parts region number).areaCodeEnd = 0 := by
        apply areaCodeEnd_eq_zero
        change ¬ LooksForArea region (parts region number).callingCode _
        rwa [code, same]
      rw [reached, none]
      rfl
    rw [off a h.bare.1 rfl, off b h.bare.2 h.digits.symm]

end

end Number

namespace Matcher

/-- Two ways to write a number without a plus are indexed alike exactly when the ends of their area
codes are reached over the same digits, and then they are also found alike; without the area code
they are always found alike. The ends are so reached when both area codes are left whole. -/
theorem formatting_ignored_iff {a b : Text} (h : Number.Reformatted a b) (matcher : Matcher) :
    let alike := Number.reached matcher.region a = Number.reached matcher.region b
    (Number.index matcher.region a = Number.index matcher.region b ↔ alike) ∧
      (alike → (matcher.numberSpan a true).isSome = (matcher.numberSpan b true).isSome) ∧
      (matcher.numberSpan a false).isSome = (matcher.numberSpan b false).isSome ∧
      (Number.Whole matcher.region a → Number.Whole matcher.region b → alike) := by
  intro alike
  refine ⟨h.index_eq_iff matcher.region, ?_, ?_, h.reached_eq⟩
  · intro same
    exact h.isSome_align_eq matcher.policy matcher.region matcher.keys fun _ => same
  · exact h.isSome_align_eq matcher.policy matcher.region matcher.keys (by simp)

/-- The usual ways to write a number leave its area code whole. -/
theorem formatting_ignored_usual :
    let matcher := Matcher.new ⟨some (.ofCountry "US".toList)⟩ .latin "1234567".toList
    let plain := "15551234567".toList
    let usual := "1 (555) 123-4567".toList
    Number.Reformatted plain usual ∧ Number.Whole matcher.region plain ∧
      Number.Whole matcher.region usual ∧
      Number.index matcher.region plain = Number.index matcher.region usual ∧
      (matcher.numberSpan usual true).isSome = true := by
  intro matcher plain usual
  have reformatted : Number.Reformatted plain usual := by
    refine ⟨?_, ?_, ?_⟩ <;> decide +kernel
  have wholePlain : Number.Whole matcher.region plain := by
    unfold Number.Whole Number.Parts.Unbroken
    intro _
    decide +kernel
  have wholeUsual : Number.Whole matcher.region usual := by
    unfold Number.Whole Number.Parts.Unbroken
    intro _
    decide +kernel
  obtain ⟨indexed, found, _, whole⟩ := formatting_ignored_iff reformatted matcher
  have alike := whole wholePlain wholeUsual
  refine ⟨reformatted, wholePlain, wholeUsual, indexed.mpr alike, ?_⟩
  rw [← found alike]
  decide +kernel

/-- Written in pairs, the area code is broken: the local digits are not indexed any more, and the
number is no longer found by them. -/
theorem pairs_hide_local_digits :
    let matcher := Matcher.new ⟨some (.ofCountry "US".toList)⟩ .latin "1234567".toList
    let pairs := "55 51 23 45 67".toList
    let usual := "(555) 123-4567".toList
    Number.Reformatted pairs usual ∧
      Number.index matcher.region pairs ≠ Number.index matcher.region usual ∧
      (matcher.numberSpan pairs true).isSome ≠ (matcher.numberSpan usual true).isSome := by
  intro matcher pairs usual
  refine ⟨⟨?_, ?_, ?_⟩, ?_, ?_⟩ <;> decide +kernel

end Matcher
end Keypad
