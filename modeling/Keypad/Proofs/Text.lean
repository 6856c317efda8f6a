import Keypad.Text

/-!
The digits of a text, and where digits and given stretches stand in it first. The digits that a count
is written with denote the count, and start with zero only for zero.
-/
namespace Keypad.Text

theorem digits_cons_of_isDigit {c : Char} (h : c.isDigit = true) (rest : Text) :
    digits (c :: rest) = c :: digits rest :=
  List.filter_cons_of_pos h

theorem digits_cons_of_not {c : Char} (h : ¬ c.isDigit = true) (rest : Text) :
    digits (c :: rest) = digits rest :=
  List.filter_cons_of_neg h

theorem digits_append (front back : Text) : digits (front ++ back) = digits front ++ digits back :=
  List.filter_append front back

theorem digits_take_append_drop (text : Text) (place : Nat) :
    digits (text.take place) ++ digits (text.drop place) = digits text := by
  rw [← digits_append, List.take_append_drop]

theorem digits_eq_nil_iff {text : Text} : digits text = [] ↔ ∀ c ∈ text, c.isDigit = false := by
  simp [digits]

theorem digits_eq_self {text : Text} (h : ∀ c ∈ text, c.isDigit = true) : digits text = text :=
  List.filter_eq_self.mpr h

theorem isDigit_of_mem_digits {text : Text} {c : Char} (h : c ∈ digits text) : c.isDigit = true :=
  (List.mem_filter.mp h).2

/-- Leading formatting holds no digit. -/
theorem isDigit_of_mem_takeWhile {text : Text} {c : Char}
    (h : c ∈ text.takeWhile (!·.isDigit)) : c.isDigit = false := by
  simpa using List.all_eq_true.mp List.all_takeWhile c h

/-- The first stretch stands where it is said to, and none stands before it. -/
theorem of_find?_eq_some {needle text : Text} {place : Nat} (h : find? needle text = some place) :
    needle <+: text.drop place ∧ ∀ earlier < place, ¬ needle <+: text.drop earlier := by
  induction text generalizing place with
  | nil =>
      rw [find?] at h
      split at h
      · rename_i empty
        obtain rfl := Option.some.inj h
        rw [List.isEmpty_iff.mp empty]
        exact ⟨List.nil_prefix, by simp⟩
      · cases h
  | cons c rest ih =>
      rw [find?] at h
      split at h
      · rename_i here
        obtain rfl := Option.some.inj h
        exact ⟨List.isPrefixOf_iff_prefix.mp here, by simp⟩
      · rename_i here
        obtain ⟨later, found, rfl⟩ := Option.map_eq_some_iff.mp h
        obtain ⟨stands, first⟩ := ih found
        refine ⟨stands, ?_⟩
        intro earlier low
        cases earlier with
        | zero => exact fun stretch => here (List.isPrefixOf_iff_prefix.mpr stretch)
        | succ earlier => exact first earlier (Nat.lt_of_succ_lt_succ low)

/-- A stretch that stands somewhere is found, there or before. -/
theorem find?_ne_none {needle text : Text} {place : Nat} (h : needle <+: text.drop place) :
    find? needle text ≠ none := by
  induction text generalizing place with
  | nil =>
      rw [List.drop_nil] at h
      rw [find?, List.prefix_nil.mp h]
      exact Option.some_ne_none 0
  | cons c rest ih =>
      rw [find?]
      split
      · exact Option.some_ne_none 0
      · rename_i absent
        cases place with
        | zero => exact absurd (List.isPrefixOf_iff_prefix.mpr h) absent
        | succ place =>
            rw [ne_eq, Option.map_eq_none_iff]
            exact ih h

/-- The first place of a stretch of digits is that of the first digit exactly when only formatting
stands before it. -/
theorem prefix_dropWhile_iff {stretch text : Text} {place : Nat} (filled : stretch ≠ [])
    (bare : digits stretch = stretch) (stands : stretch <+: text.drop place)
    (first : ∀ earlier < place, ¬ stretch <+: text.drop earlier) :
    stretch <+: text.dropWhile (!·.isDigit) ↔ digits (text.take place) = [] := by
  constructor
  · intro leading
    have whole : text.takeWhile (!·.isDigit) ++ text.dropWhile (!·.isDigit) = text :=
      List.takeWhile_append_dropWhile
    rw [← whole] at first ⊢
    -- The stretch also stands behind the leading formatting, so its first place is not later.
    have low : place ≤ (text.takeWhile (!·.isDigit)).length := by
      refine Nat.le_of_not_lt fun early => first _ early ?_
      rw [List.drop_left]
      exact leading
    rw [List.take_append_of_le_length low, digits_eq_nil_iff]
    intro c mem
    exact isDigit_of_mem_takeWhile (List.mem_of_mem_take mem)
  · intro silent
    obtain ⟨tail, split⟩ := stands
    obtain ⟨c, more, rfl⟩ := List.exists_cons_of_ne_nil filled
    have digit : c.isDigit = true := by
      apply isDigit_of_mem_digits
      rw [bare]
      exact List.mem_cons_self
    have lead : ∀ c ∈ text.take place, (!c.isDigit) = true := by
      intro c mem
      rw [digits_eq_nil_iff.mp silent c mem]
      rfl
    rw [← List.take_append_drop place text, List.dropWhile_append_of_pos lead, ← split,
      List.cons_append, List.dropWhile_cons_of_neg (by simp [digit])]
    exact ⟨tail, rfl⟩

/-- Before the first digit there is only formatting. -/
theorem of_findIdx?_eq_some {text : Text} {place : Nat}
    (h : text.findIdx? Char.isDigit = some place) :
    digits (text.take place) = [] ∧ ∃ c rest, c.isDigit = true ∧ text.drop place = c :: rest := by
  obtain ⟨inside, digit, silent⟩ := List.findIdx?_eq_some_iff_getElem.mp h
  constructor
  · rw [digits_eq_nil_iff]
    intro c mem
    obtain ⟨index, low, rfl⟩ := List.getElem_of_mem mem
    rw [List.length_take] at low
    rw [List.getElem_take]
    simpa using silent index (by omega)
  · exact ⟨text[place], text.drop (place + 1), digit, List.drop_eq_getElem_cons inside⟩

/-- A text that is not all formatting shows its first digit right behind the leading formatting. -/
theorem exists_first_digit {text : Text} (h : digits text ≠ []) :
    ∃ c rest, c.isDigit = true ∧ text = text.takeWhile (!·.isDigit) ++ c :: rest := by
  have whole : text.takeWhile (!·.isDigit) ++ text.dropWhile (!·.isDigit) = text :=
    List.takeWhile_append_dropWhile
  cases behind : text.dropWhile (!·.isDigit) with
  | nil =>
      rw [behind, List.append_nil] at whole
      refine absurd (digits_eq_nil_iff.mpr ?_) h
      intro c mem
      rw [← whole] at mem
      exact isDigit_of_mem_takeWhile mem
  | cons c rest =>
      have stops := List.head?_dropWhile_not (fun c : Char => !c.isDigit) text
      simp only [behind, List.head?_cons, Bool.not_eq_false'] at stops
      rw [behind] at whole
      exact ⟨c, rest, stops, whole.symm⟩

theorem findIdx?_ne_none {text : Text} (h : digits text ≠ []) :
    text.findIdx? Char.isDigit ≠ none := by
  intro none
  rw [List.findIdx?_eq_none_iff] at none
  exact h (digits_eq_nil_iff.mpr none)

/-! ## Counts -/

/-- The number that digits denote when they go on from a number. -/
def toNatFrom (value : Nat) (digits : Digits) : Nat :=
  digits.foldl (fun value c => value * 10 + (c.toNat - 0x30)) value

theorem toNatFrom_cons (value : Nat) (c : Char) (rest : Digits) :
    toNatFrom value (c :: rest) = toNatFrom (value * 10 + (c.toNat - 0x30)) rest :=
  List.foldl_cons ..

theorem le_toNatFrom (value : Nat) (digits : Digits) : value ≤ toNatFrom value digits := by
  induction digits generalizing value with
  | nil => exact Nat.le_refl value
  | cons c rest ih =>
      have grown : value ≤ value * 10 + (c.toNat - 0x30) := by omega
      exact Nat.le_trans grown (ih _)

theorem toNat_ofNat (n : Nat) : toNat (ofNat n) = n := by
  rw [toNat, ofNat]
  simp only [Nat.mul_comm _ 10]
  exact Nat.ofDigitChars_ten_toDigits

theorem ofNat_ne_nil (n : Nat) : ofNat n ≠ [] := Nat.toDigits_ne_nil

theorem isDigit_of_mem_ofNat {n : Nat} {c : Char} (h : c ∈ ofNat n) : c.isDigit = true :=
  Nat.isDigit_of_mem_toDigits (by decide) (by decide) h

theorem exists_ofNat_eq_cons (n : Nat) : ∃ c more, ofNat n = c :: more ∧ c.isDigit = true := by
  obtain ⟨c, more, digits⟩ := List.exists_cons_of_ne_nil (ofNat_ne_nil n)
  exact ⟨c, more, digits, isDigit_of_mem_ofNat (digits ▸ List.mem_cons_self)⟩

theorem head?_ofNat {n : Nat} (h : (ofNat n).head? = some '0') : n = 0 := by
  induction n using Nat.strongRecOn with
  | ind n ih =>
      rw [ofNat, Nat.toDigits_eq_if (by decide)] at h
      split at h
      · exact Nat.digitChar_eq_zero.mp (Option.some.inj h)
      · rename_i large
        obtain ⟨c, more, tenth, _⟩ := exists_ofNat_eq_cons (n / 10)
        have start : (ofNat (n / 10)).head? = some '0' := by
          rw [← ofNat, tenth] at h
          rw [tenth]
          exact h
        have zero := ih (n / 10) (by omega) start
        omega

end Keypad.Text
