import Keypad.Proofs.Builtin.Json.Reading
import Keypad.Proofs.Text

/-!
Counts are read back exactly. The decimal digits of a count are a numeral by themselves: they start
with zero only for zero, and no fraction and no exponent is read behind them. Every digit of a count
below 2 to the 64th goes into the significand, so the numeral is far from too large.
-/
namespace Keypad.Json

open Source (before before_cons)

theorem Source.digits_of_ends {rest : Source} (ends : rest.Ends) : rest.digits = ([], .all rest) := by
  cases ends with
  | finished => rfl
  | mark rest h => rcases h with rfl | rfl | rfl <;> rfl
  | blank rest h => rcases h with rfl | rfl | rfl | rfl <;> rfl

theorem Source.digits_before {digits : Digits} {rest : Source} (ends : rest.digits = ([], .all rest))
    (all : ∀ c ∈ digits, c.isDigit = true) :
    ∃ le, (before digits rest).digits = (digits, ⟨rest, le⟩) := by
  induction digits with
  | nil => exact ⟨Nat.le_refl _, ends⟩
  | cons c digits ih =>
      obtain ⟨le, found⟩ := ih fun c mem => all c (List.mem_cons_of_mem _ mem)
      rw [before_cons, Source.digits, if_pos (all c List.mem_cons_self), found]
      exact ⟨_, rfl⟩

namespace Numeral

theorem fractionDigits_of_ends {rest : Source} (ends : rest.Ends) (short : Ending → Fault) :
    fractionDigits short rest = .ok (none, .all rest) := by
  cases ends with
  | finished => rfl
  | mark rest h => rcases h with rfl | rfl | rfl <;> rfl
  | blank rest h => rcases h with rfl | rfl | rfl | rfl <;> rfl

theorem exponentDigits_of_ends {rest : Source} (ends : rest.Ends) (short : Ending → Fault) :
    exponentDigits short rest = .ok (none, .all rest) := by
  cases ends with
  | finished => rfl
  | mark rest h => rcases h with rfl | rfl | rfl <;> rfl
  | blank rest h => rcases h with rfl | rfl | rfl | rfl <;> rfl

/-- The numeral a count is written as. -/
def ofCount (n : Nat) : Numeral := ⟨false, Text.ofNat n, none, none⟩

theorem absorb_of_lt {digits : Digits} {significand : Nat}
    (h : Text.toNatFrom significand digits < Text.countBound) :
    absorb significand digits = (Text.toNatFrom significand digits, digits.length) := by
  induction digits generalizing significand with
  | nil => rfl
  | cons c rest ih =>
      rw [Text.toNatFrom_cons] at h ⊢
      have fits := Nat.lt_of_le_of_lt (Text.le_toNatFrom _ rest) h
      rw [absorb, if_pos fits, ih h]
      rfl

theorem absorb_ofNat {n : Nat} (h : n < Text.countBound) :
    absorb 0 (Text.ofNat n) = (n, (Text.ofNat n).length) := by
  have value : Text.toNatFrom 0 (Text.ofNat n) = n := Text.toNat_ofNat n
  rw [absorb_of_lt (by rwa [value]), value]

theorem scientific_ofCount {n : Nat} (h : n < Text.countBound) : (ofCount n).scientific = (n, 0) := by
  rw [scientific, ofCount, absorb_ofNat h]
  simp [absorb]

/-- Rounding to 53 bits less than doubles a number. -/
theorem round53_le (value : Nat) : round53 value ≤ 2 * value := by
  rw [round53]
  split
  · omega
  · rename_i large
    have filled : value ≠ 0 := by
      rintro rfl
      exact large (by decide)
    have unit : 1 <<< (value.log2 + 1 - 53) ≤ value := by
      rw [Nat.one_shiftLeft]
      exact Nat.le_trans (Nat.pow_le_pow_right (by decide) (by omega)) (Nat.log2_self_le filled)
    have whole := Nat.div_mul_le_self value (1 <<< (value.log2 + 1 - 53))
    simp only [roundBits]
    split
    · rw [Nat.succ_mul]
      omega
    · omega

theorem isInfinite_ofCount {n : Nat} (h : n < Text.countBound) :
    (ofCount n).isInfinite = false := by
  have small : 2 * Text.countBound ≤ 1 <<< 1024 - 1 <<< 970 := by decide
  have one : round53 (Nat.pow 10 (0 : Int).toNat) = 1 := by decide
  have rounded := round53_le n
  rw [isInfinite, scientific_ofCount h]
  simp only [one, Nat.mul_one]
  split
  · rfl
  · rw [if_neg (by decide)]
    simp only [decide_eq_false_iff_not]
    omega

theorem count?_ofCount {n : Nat} (h : n < Text.countBound) : (ofCount n).count? = some n := by
  rw [count?, ofCount, Text.toNat_ofNat]
  simp [h]

theorem reads_someDigits {digits : Digits} {rest : Source} (ends : rest.digits = ([], .all rest))
    (filled : digits ≠ []) (all : ∀ c ∈ digits, c.isDigit = true) (short : Ending → Fault) :
    Reads (someDigits short (before digits rest)) digits rest := by
  obtain ⟨c, more, rfl⟩ := List.exists_cons_of_ne_nil filled
  obtain ⟨le, found⟩ := Source.digits_before ends fun d mem => all d (List.mem_cons_of_mem c mem)
  rw [before_cons, someDigits, if_pos (all c List.mem_cons_self), found]
  exact ⟨_, rfl⟩

/-- Digits are a whole number when they do not start with zero, or are a zero and nothing else. -/
theorem reads_wholeDigits {digits : Digits} {rest : Source} (ends : rest.digits = ([], .all rest))
    (filled : digits ≠ []) (all : ∀ c ∈ digits, c.isDigit = true)
    (single : digits.head? = some '0' → digits = ['0']) (short : Ending → Fault) :
    Reads (wholeDigits short (before digits rest)) digits rest := by
  obtain ⟨lt, found⟩ := reads_someDigits ends filled all short
  refine ⟨lt, ?_⟩
  rw [wholeDigits, found]
  exact if_neg fun ⟨start, long⟩ => long (single start)

theorem reads_unsigned {n : Nat} {rest : Source} (ends : rest.Ends) (short : Ending → Fault)
    {refused : Numeral → Bool} (taken : refused (ofCount n) = false) :
    Reads (unsigned short refused false (before (Text.ofNat n) rest)) (ofCount n) rest := by
  have single : (Text.ofNat n).head? = some '0' → Text.ofNat n = ['0'] := by
    intro start
    rw [Text.head?_ofNat start]
    rfl
  obtain ⟨lt, whole⟩ := reads_wholeDigits (Source.digits_of_ends ends) (Text.ofNat_ne_nil n)
    (fun _ mem => Text.isDigit_of_mem_ofNat mem) single short
  -- Digits before a break are refused, since more might have come; no such rest is allowed here.
  have intact : rest ≠ .stop .interrupted := by
    rintro rfl
    cases ends
  rw [unsigned, whole]
  simp only [bind, Except.bind, fractionDigits_of_ends ends, exponentDigits_of_ends ends,
    Remainder.all]
  rw [if_neg, if_neg intact]
  · exact ⟨_, rfl⟩
  · rw [← ofCount, taken]
    decide

/-- The digits of a count are scanned as its numeral, unless the scan refuses it. -/
theorem reads_scan {n : Nat} {rest : Source} (ends : rest.Ends) (short : Ending → Fault)
    (refused : Numeral → Bool) (taken : refused (ofCount n) = false) :
    Reads (scan short refused (before (Text.ofNat n) rest)) (ofCount n) rest := by
  have read := reads_unsigned ends short taken
  obtain ⟨c, more, digits, digit⟩ := Text.exists_ofNat_eq_cons n
  rw [digits, before_cons] at read ⊢
  rw [scan]
  · exact read
  · intro _ minus
    cases minus
    exact absurd digit (by decide)

theorem reads_read {n : Nat} {rest : Source} (h : n < Text.countBound) (ends : rest.Ends) :
    Reads (read (before (Text.ofNat n) rest)) (ofCount n) rest := by
  obtain ⟨lt, found⟩ := reads_scan ends Ending.fault isBeyond rfl
  refine ⟨lt, ?_⟩
  rw [read, found]
  simp only [bind, Except.bind, isInfinite_ofCount h]
  rfl

end Numeral

theorem Decoder.mem_openers_of_isDigit {c : Char} (h : c.isDigit = true) : c ∈ openers := by
  have all : ∀ k : Fin 10, Char.ofNat (48 + k) ∈ openers := by decide
  have bounds : 48 ≤ c.toNat ∧ c.toNat ≤ 57 := Char.isDigit_iff_toNat.mp h
  have digit : 48 + (c.toNat - 48) = c.toNat := by omega
  have mem := all ⟨c.toNat - 48, by omega⟩
  rwa [digit, Char.ofNat_toNat] at mem

theorem Decoder.count_restores {n : Nat} (h : n < Text.countBound) :
    count.Restores (Text.ofNat n) n := by
  obtain ⟨c, more, digits, digit⟩ := Text.exists_ofNat_eq_cons n
  rw [digits]
  refine restores_ofFirst (mem_openers_of_isDigit digit) fun rest ends => ?_
  have read := Numeral.reads_read h ends
  rw [digits, before_cons] at read
  obtain ⟨lt, found⟩ := read
  simp only [digit, or_true, if_true, found, Numeral.count?_ofCount h]
  exact ⟨_, rfl⟩

end Keypad.Json
