import Keypad.Layout

/-!
Coherence of the keypad layouts. On every layout, however deep it is nested, a character is
dialable exactly when it has a key, a dialable character becomes the numeral of its key, and
normalizing a character leaves its key as it was.
-/
namespace Keypad

theorem isLower_iff_toNat {c : Char} : c.isLower = true ↔ 97 ≤ c.toNat ∧ c.toNat ≤ 122 := by
  change (decide (c.val ≥ 'a'.val) && decide (c.val ≤ 'z'.val)) = true ↔ _
  rw [Bool.and_eq_true, decide_eq_true_iff, decide_eq_true_iff]
  exact Iff.rfl

theorem isUpper_iff_toNat {c : Char} : c.isUpper = true ↔ 65 ≤ c.toNat ∧ c.toNat ≤ 90 := by
  change decide (c.val ≥ 'A'.val ∧ c.val ≤ 'Z'.val) = true ↔ _
  exact decide_eq_true_iff

theorem isDigit_iff_toNat {c : Char} : c.isDigit = true ↔ 48 ≤ c.toNat ∧ c.toNat ≤ 57 :=
  Char.isDigit_iff_toNat

theorem isUpper_eq_false {c : Char} (h : c.toNat < 65 ∨ 90 < c.toNat) : c.isUpper = false := by
  refine Bool.eq_false_iff.mpr fun upper => ?_
  have := isUpper_iff_toNat.mp upper
  omega

theorem isDigit_eq_false {c : Char} (h : c.toNat < 48 ∨ 57 < c.toNat) : c.isDigit = false := by
  refine Bool.eq_false_iff.mpr fun digit => ?_
  have := isDigit_iff_toNat.mp digit
  omega

theorem isDigit_of_isLower {c : Char} (h : c.isLower = true) : c.isDigit = false := by
  have := isLower_iff_toNat.mp h
  exact isDigit_eq_false (by omega)

theorem isLower_of_isDigit {c : Char} (h : c.isDigit = true) : c.isLower = false := by
  refine Bool.eq_false_iff.mpr fun lower => ?_
  rw [isDigit_of_isLower lower] at h
  cases h

theorem isLower_toLower {c : Char} (h : c.isUpper = true) : c.toLower.isLower = true := by
  obtain ⟨low, high⟩ := isUpper_iff_toNat.mp h
  have shifted : c.toLower.toNat = c.toNat + 32 := by
    unfold Char.toLower
    rw [dif_pos (of_decide_eq_true h), Char.toNat_mk, UInt32.toNat_add]
    exact Nat.mod_eq_of_lt (by simp; omega)
  exact isLower_iff_toNat.mpr (by omega)

/-- A table is silent about a character that lies outside each of its rows. -/
theorem LetterTable.letter?_eq_none {table : LetterTable} {c : Char}
    (h : ∀ row ∈ table, c.toNat < row.first ∨ row.first + row.letters.length ≤ c.toNat) :
    table.letter? c = none := by
  refine List.findSome?_eq_none_iff.mpr ?_
  intro row mem
  rcases h row mem with before | after
  · exact if_neg (Nat.not_le.mpr before)
  · have past : row.letters[c.toNat - row.first]? = none := List.getElem?_eq_none (by omega)
    simp only [LetterRow.letter?, past, Option.filter_none, ite_self]

namespace Latin

theorem accented_bounds :
    ∀ row ∈ accented, 0xC0 ≤ row.first ∧ row.first + row.letters.length ≤ 0x180 := by
  decide

/-- Only capitals and the characters from U+00C0 to U+017F fold to another character. -/
theorem fold_eq_self {c : Char} (upper : c.isUpper = false)
    (h : c.toNat < 0xC0 ∨ 0x180 ≤ c.toNat) : fold c = c := by
  have silent : accented.letter? c = none := by
    refine LetterTable.letter?_eq_none ?_
    intro row mem
    have bounds := accented_bounds row mem
    omega
  simp only [fold, upper, silent, Option.getD_none, Bool.false_eq_true, if_false]

theorem fold_of_isLower {c : Char} (h : c.isLower = true) : fold c = c := by
  have bounds := isLower_iff_toNat.mp h
  exact fold_eq_self (isUpper_eq_false (by omega)) (by omega)

theorem fold_of_isDigit {c : Char} (h : c.isDigit = true) : fold c = c := by
  have bounds := isDigit_iff_toNat.mp h
  exact fold_eq_self (isUpper_eq_false (by omega)) (by omega)

theorem isLower_fold {c : Char} (h : fold c ≠ c) : (fold c).isLower = true := by
  unfold fold at h ⊢
  split
  · exact isLower_toLower ‹_›
  · rename_i upper
    rw [if_neg upper] at h
    cases found : accented.letter? c with
    | none => exact absurd (by rw [found, Option.getD_none]) h
    | some letter => exact LetterTable.isLower_of_letter? found

@[simp] theorem fold_fold (c : Char) : fold (fold c) = fold c := by
  by_cases h : fold c = c
  · rw [h, h]
  · exact fold_of_isLower (isLower_fold h)

theorem toNat_lt_of_isLower_fold {c : Char} (h : (fold c).isLower = true) : c.toNat < 0x180 := by
  refine Nat.lt_of_not_le fun high => ?_
  rw [fold_eq_self (isUpper_eq_false (by omega)) (.inr high)] at h
  have := isLower_iff_toNat.mp h
  omega

end Latin

namespace Key

theorem char_of_ofDigit? {c : Char} {key : Key} (h : ofDigit? c = some key) : key.char = c := by
  unfold ofDigit? at h
  split at h
  · rename_i digit
    have bounds := isDigit_iff_toNat.mp digit
    obtain rfl := Option.some.inj h
    have value : (Fin.ofNat 10 (c.toNat - '0'.toNat)).val = c.toNat - 48 :=
      Nat.mod_eq_of_lt (by simp; omega)
    have total : '0'.toNat + (c.toNat - 48) = c.toNat := by simp; omega
    rw [char, value, total, Char.ofNat_toNat]
  · cases h

theorem isSome_ofDigit? (c : Char) : (ofDigit? c).isSome = c.isDigit := by
  unfold ofDigit?
  split <;> simp_all

theorem ofDigit?_of_not {c : Char} (h : c.isDigit = false) : ofDigit? c = none := by
  simp only [ofDigit?, h, Bool.false_eq_true, if_false]

/-- Folding that leaves digits alone and otherwise yields small letters keeps the digit keys. -/
theorem ofDigit?_congr {c folded : Char} (digit : c.isDigit = true → folded = c)
    (lower : folded ≠ c → folded.isLower = true) : ofDigit? folded = ofDigit? c := by
  by_cases same : folded = c
  · rw [same]
  · have old : c.isDigit = false := Bool.eq_false_iff.mpr fun h => same (digit h)
    rw [ofDigit?_of_not old, ofDigit?_of_not (isDigit_of_isLower (lower same))]

theorem isSome_ofLetter? (c : Char) : (ofLetter? c).isSome = c.isLower := by
  unfold ofLetter?
  split
  · rename_i lower
    have bounds := isLower_iff_toNat.mp lower
    have inside : c.toNat - 'a'.toNat < letterKeys.length := by
      change c.toNat - 97 < 26
      omega
    rw [List.getElem?_eq_getElem inside, lower, Option.isSome_some]
  · rename_i lower
    rw [Option.isSome_none, Bool.eq_false_iff.mpr lower]

theorem ofLetter?_of_not {c : Char} (h : c.isLower = false) : ofLetter? c = none := by
  simp only [ofLetter?, h, Bool.false_eq_true, if_false]

end Key

theorem Russian.isSome_key? (c : Char) : (Russian.key? c).isSome = Russian.isLetter c := by
  unfold Russian.key?
  split <;> simp_all

namespace Russian

/-- The capitals are the characters from U+0410 to U+042F and fold 32 places up. -/
theorem toNat_fold_of_capital {c : Char} (h : 'А' ≤ c ∧ c ≤ 'Я') :
    0x430 ≤ (fold c).toNat ∧ (fold c).toNat ≤ 0x44F := by
  have low : 0x410 ≤ c.toNat := h.1
  have high : c.toNat ≤ 0x42F := h.2
  have valid : (c.toNat + 0x20).isValidChar := .inl (by omega)
  have value : (Char.ofNat (c.toNat + 0x20)).toNat = c.toNat + 0x20 := by
    rw [Char.ofNat, dif_pos valid]
    rfl
  rw [fold, if_pos h, value]
  omega

theorem fold_eq_self_or (c : Char) :
    fold c = c ∨ 0x430 ≤ (fold c).toNat ∧ (fold c).toNat ≤ 0x44F := by
  by_cases capital : 'А' ≤ c ∧ c ≤ 'Я'
  · exact .inr (toNat_fold_of_capital capital)
  · rw [fold, if_neg capital]
    split
    · exact .inr (by decide)
    · exact .inl rfl

@[simp] theorem fold_fold (c : Char) : fold (fold c) = fold c := by
  rcases fold_eq_self_or c with same | ⟨low, high⟩
  · rw [same, same]
  · have notCapital : ¬ ('А' ≤ fold c ∧ fold c ≤ 'Я') := fun h => by
      have capital : (fold c).toNat ≤ 0x42F := h.2
      omega
    have notYo : ¬ (fold c = 'Ё' ∨ fold c = 'ё') := fun h => by
      rcases h with h | h <;> rw [h] at low high <;> revert low high <;> decide
    rw [fold, if_neg notCapital, if_neg notYo]

theorem fold_of_isDigit {c : Char} (h : c.isDigit = true) : fold c = c := by
  have bounds := isDigit_iff_toNat.mp h
  have notCapital : ¬ ('А' ≤ c ∧ c ≤ 'Я') := fun h => by
    have capital : 0x410 ≤ c.toNat := h.1
    omega
  have notYo : ¬ (c = 'Ё' ∨ c = 'ё') := fun h => by
    rcases h with rfl | rfl <;> revert bounds <;> decide
  rw [fold, if_neg notCapital, if_neg notYo]

end Russian

namespace Layout

theorem isSome_digit_or_letter (c letter : Char) :
    ((Key.ofDigit? c).or (Key.ofLetter? letter)).isSome = (c.isDigit || letter.isLower) := by
  rw [Option.isSome_or, Key.isSome_ofDigit?, Key.isSome_ofLetter?]

theorem key?_of_isDigit (layout : Layout) {c : Char} (h : c.isDigit = true) :
    layout.key? c = Key.ofDigit? c := by
  have some := (Key.isSome_ofDigit? c).trans h
  cases layout <;> simp only [key?, Option.or_of_isSome, some]

theorem isSome_key? (layout : Layout) (c : Char) :
    (layout.key? c).isSome = layout.isDialable c := by
  induction layout with
  | latin => exact (isSome_digit_or_letter c _).trans (Bool.or_comm _ _)
  | russian =>
      rw [key?, Option.isSome_or, Key.isSome_ofDigit?, Russian.isSome_key?, Bool.or_comm]
      rfl
  | romanizedBy table => exact (isSome_digit_or_letter c _).trans (Bool.or_comm _ _)
  | latinOnly => exact (isSome_digit_or_letter c _).trans (Bool.or_comm _ _)
  | latinThen secondary ih =>
      rw [key?, Option.isSome_or, isSome_digit_or_letter, ih]
      simp only [isDialable, isAlphabetic, isNumeric]
      cases c.isDigit <;> simp

/-- A character that is no letter of a layout has a key only as a digit. -/
theorem key?_of_not_isAlphabetic {layout : Layout} {c : Char}
    (h : layout.isAlphabetic c = false) : layout.key? c = Key.ofDigit? c := by
  cases digit : c.isDigit with
  | true => exact key?_of_isDigit layout digit
  | false =>
      have silent : (layout.key? c).isSome = false := by
        rw [isSome_key?, isDialable, h, isNumeric, digit, Bool.or_self]
      rw [Key.ofDigit?_of_not digit, Option.isNone_iff_eq_none.mp (Option.isSome_eq_false_iff.mp silent)]

theorem digitChar_of_key? {layout : Layout} {c : Char} {key : Key} (h : layout.key? c = some key) :
    layout.digitChar c = key.char := by
  unfold digitChar
  split
  · rw [h, Option.map_some, Option.getD_some]
  · rename_i letter
    rw [key?_of_not_isAlphabetic (Bool.eq_false_iff.mpr letter)] at h
    exact (Key.char_of_ofDigit? h).symm

theorem key?_latin_fold (c : Char) : Layout.latin.key? (Latin.fold c) = Layout.latin.key? c := by
  rw [key?, key?, Latin.fold_fold, Key.ofDigit?_congr Latin.fold_of_isDigit Latin.isLower_fold]

theorem normalize_romanized_of_isLower {table : LetterTable} {c : Char} (h : c.isLower = true) :
    (Layout.romanizedBy table).normalize c = c := by
  have bounds := isLower_iff_toNat.mp h
  rw [normalize, if_pos (.inr (by omega)), Latin.fold_of_isLower h]

theorem normalize_romanized_of_fold_ne {table : LetterTable} {c : Char} (h : Latin.fold c ≠ c) :
    (Layout.romanizedBy table).normalize c = Latin.fold c := by
  rw [normalize, if_pos (.inl h)]

theorem normalize_romanized_of_isDigit {table : LetterTable} {c : Char} (h : c.isDigit = true) :
    (Layout.romanizedBy table).normalize c = c := by
  have bounds := isDigit_iff_toNat.mp h
  rw [normalize, if_pos (.inr (by omega)), Latin.fold_of_isDigit h]

theorem isLower_normalize_romanized {table : LetterTable} {c : Char}
    (h : (Layout.romanizedBy table).normalize c ≠ c) :
    ((Layout.romanizedBy table).normalize c).isLower = true := by
  by_cases folded : Latin.fold c = c
  · simp only [normalize, folded, ne_eq, not_true_eq_false, false_or] at h ⊢
    split at h
    · exact absurd rfl h
    · rename_i wide
      rw [if_neg wide]
      cases found : table.letter? c with
      | none => exact absurd (by rw [found, Option.getD_none]) h
      | some letter => exact LetterTable.isLower_of_letter? found
  · rw [normalize_romanized_of_fold_ne folded]
    exact Latin.isLower_fold folded

theorem normalize_romanized_normalize (table : LetterTable) (c : Char) :
    (Layout.romanizedBy table).normalize ((Layout.romanizedBy table).normalize c) =
      (Layout.romanizedBy table).normalize c := by
  by_cases same : (Layout.romanizedBy table).normalize c = c
  · rw [same, same]
  · exact normalize_romanized_of_isLower (isLower_normalize_romanized same)

theorem key?_romanized_normalize (table : LetterTable) (c : Char) :
    (Layout.romanizedBy table).key? ((Layout.romanizedBy table).normalize c) =
      (Layout.romanizedBy table).key? c := by
  rw [key?, key?, normalize_romanized_normalize,
    Key.ofDigit?_congr normalize_romanized_of_isDigit isLower_normalize_romanized]

theorem normalize_latinOnly (c : Char) : Layout.latinOnly.normalize c = Latin.fold c := by
  simp only [normalize]
  split
  · rfl
  · rename_i h
    exact (Decidable.not_not.mp fun changed => h (.inl changed)).symm

/-- A layered layout folds the letters of the Latin keypad. -/
theorem normalize_latinThen_of_isLower {secondary : Layout} {c : Char}
    (h : (Latin.fold c).isLower = true) :
    (Layout.latinThen secondary).normalize c = Latin.fold c := by
  rw [normalize, Latin.fold_fold, if_pos (.inr h)]

/-- A layered layout leaves all other characters to the layout behind the Latin one. -/
theorem normalize_latinThen_of_not {secondary : Layout} {c : Char}
    (h : (Latin.fold c).isLower = false) :
    (Layout.latinThen secondary).normalize c = secondary.normalize c := by
  have same : Latin.fold c = c := Decidable.not_not.mp fun changed => by
    rw [Latin.isLower_fold changed] at h
    cases h
  rw [normalize, Latin.fold_fold, if_neg (by simp [same ▸ h, same])]

theorem ofDigit?_russian_fold (c : Char) : Key.ofDigit? (Russian.fold c) = Key.ofDigit? c := by
  rcases Russian.fold_eq_self_or c with same | cyrillic
  · rw [same]
  · have new : (Russian.fold c).isDigit = false := isDigit_eq_false (by omega)
    have old : c.isDigit = false := Bool.eq_false_iff.mpr fun h => by
      rw [Russian.fold_of_isDigit h, h] at new
      cases new
    rw [Key.ofDigit?_of_not new, Key.ofDigit?_of_not old]

/-- Every layout but the bare Russian one gives the letters of the Latin keypad their Latin key. -/
theorem key?_of_latin {layout : Layout} {c : Char} {key : Key} (h : layout ≠ .russian)
    (found : Layout.latin.key? c = some key) : layout.key? c = some key := by
  cases layout with
  | latin => exact found
  | russian => exact absurd rfl h
  | romanizedBy table =>
      cases letter : (Latin.fold c).isLower with
      | true =>
          have same : (Layout.romanizedBy table).normalize c = Latin.fold c := by
            by_cases folded : Latin.fold c = c
            · rw [folded] at letter ⊢
              exact normalize_romanized_of_isLower letter
            · exact normalize_romanized_of_fold_ne folded
          rw [key?, same]
          exact found
      | false =>
          rw [key?, Key.ofLetter?_of_not letter, Option.or_none] at found
          rw [key?, found, Option.some_or]
  | latinOnly => exact found
  | latinThen secondary =>
      change (Layout.latin.key? c).or _ = some key
      rw [found, Option.some_or]

/-- Behind the Latin layout no layout turns an unknown character into one whose Latin key differs
from its own. -/
theorem key?_of_latin_normalize {layout : Layout} {c : Char} {key : Key}
    (h : (Latin.fold c).isLower = false)
    (found : Layout.latin.key? (layout.normalize c) = some key) :
    layout.key? (layout.normalize c) = some key := by
  by_cases russian : layout = .russian
  · subst russian
    change Layout.latin.key? (Russian.fold c) = some key at found
    change Layout.russian.key? (Russian.fold c) = some key
    have silent : (Latin.fold (Russian.fold c)).isLower = false := by
      rcases Russian.fold_eq_self_or c with same | cyrillic
      · rw [same, h]
      · refine Bool.eq_false_iff.mpr fun letter => ?_
        have := Latin.toNat_lt_of_isLower_fold letter
        omega
    rw [key?, Key.ofLetter?_of_not silent, Option.or_none] at found
    rw [key?, found, Option.some_or]
  · exact key?_of_latin russian found

/-- Normalizing a character leaves its key as it was. -/
@[simp] theorem key?_normalize (layout : Layout) (c : Char) :
    layout.key? (layout.normalize c) = layout.key? c := by
  induction layout with
  | latin => exact key?_latin_fold c
  | russian =>
      change Layout.russian.key? (Russian.fold c) = _
      rw [key?, key?, Russian.fold_fold, ofDigit?_russian_fold]
  | romanizedBy table => exact key?_romanized_normalize table c
  | latinOnly =>
      rw [normalize_latinOnly]
      exact key?_latin_fold c
  | latinThen secondary ih =>
      change (Layout.latin.key? _).or (secondary.key? _) =
        (Layout.latin.key? c).or (secondary.key? c)
      cases letter : (Latin.fold c).isLower with
      | true =>
          have known : (Layout.latin.key? c).isSome = true := by
            rw [isSome_key?, isDialable, isAlphabetic, letter, Bool.true_or]
          rw [normalize_latinThen_of_isLower letter, key?_latin_fold,
            Option.or_of_isSome known, Option.or_of_isSome known]
      | false =>
          -- Whatever the Latin layout makes of either character, the other layout agrees with it.
          have here : (Layout.latin.key? c).or (secondary.key? c) = secondary.key? c := by
            rw [key?, Key.ofLetter?_of_not letter, Option.or_none]
            cases digit : c.isDigit with
            | true => rw [key?_of_isDigit secondary digit, Option.or_self]
            | false => rw [Key.ofDigit?_of_not digit, Option.none_or]
          rw [normalize_latinThen_of_not letter, here, ← ih]
          cases found : Layout.latin.key? (secondary.normalize c) with
          | none => rw [Option.none_or]
          | some key => rw [key?_of_latin_normalize letter found, Option.some_or]

@[simp] theorem isDialable_normalize (layout : Layout) (c : Char) :
    layout.isDialable (layout.normalize c) = layout.isDialable c := by
  rw [← isSome_key?, ← isSome_key?, key?_normalize]

end Layout
end Keypad
