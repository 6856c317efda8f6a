import Keypad.Proofs.Layout

/-!
The laws of keypad layouts. Whatever layouts are layered, and by whatever table other scripts are
romanized: a character normalizes only once, every question about it has the same answer before and
after, letters and numerals are kept apart, and the Latin keys keep their place.
-/
namespace Keypad

theorem Key.toNat_char (key : Key) : key.char.toNat = '0'.toNat + key.val := by
  revert key
  decide

theorem Latin.isLower_fold_of_isDigit {c : Char} (h : c.isDigit = true) :
    (Latin.fold c).isLower = false := by
  rw [Latin.fold_of_isDigit h, isLower_of_isDigit h]

namespace Layout

theorem normalize_of_isDigit (layout : Layout) {c : Char} (h : c.isDigit = true) :
    layout.normalize c = c := by
  induction layout with
  | latin => exact Latin.fold_of_isDigit h
  | russian => exact Russian.fold_of_isDigit h
  | romanizedBy table => exact normalize_romanized_of_isDigit h
  | latinOnly => exact (normalize_latinOnly c).trans (Latin.fold_of_isDigit h)
  | latinThen secondary ih =>
      exact (normalize_latinThen_of_not (Latin.isLower_fold_of_isDigit h)).trans ih

/-- A character that changes becomes a small letter, either a basic one or a Cyrillic one. -/
theorem normalize_cases (layout : Layout) (c : Char) :
    layout.normalize c = c ∨ (layout.normalize c).isLower = true ∨
      0x430 ≤ (layout.normalize c).toNat := by
  induction layout with
  | latin => exact (Decidable.em (Latin.fold c = c)).imp_right fun h => .inl (Latin.isLower_fold h)
  | russian => exact (Russian.fold_eq_self_or c).imp_right fun cyrillic => .inr cyrillic.1
  | romanizedBy table =>
      exact (Decidable.em ((romanizedBy table).normalize c = c)).imp_right
        fun h => .inl (isLower_normalize_romanized h)
  | latinOnly =>
      rw [normalize_latinOnly]
      exact (Decidable.em (Latin.fold c = c)).imp_right fun h => .inl (Latin.isLower_fold h)
  | latinThen secondary ih =>
      cases letter : (Latin.fold c).isLower with
      | true =>
          rw [normalize_latinThen_of_isLower letter]
          exact .inr (.inl letter)
      | false =>
          rw [normalize_latinThen_of_not letter]
          exact ih

theorem isDigit_normalize (layout : Layout) (c : Char) :
    (layout.normalize c).isDigit = c.isDigit := by
  cases digit : c.isDigit with
  | true => rw [normalize_of_isDigit layout digit, digit]
  | false =>
      rcases normalize_cases layout c with same | lower | cyrillic
      · rw [same, digit]
      · exact isDigit_of_isLower lower
      · exact isDigit_eq_false (by omega)

/-- Behind the Latin layout a character that is no Latin letter either stays one or becomes a small
basic letter. -/
theorem fold_normalize_of_isLower {layout : Layout} {c : Char}
    (foreign : (Latin.fold c).isLower = false)
    (letter : (Latin.fold (layout.normalize c)).isLower = true) :
    Latin.fold (layout.normalize c) = layout.normalize c := by
  rcases normalize_cases layout c with same | lower | cyrillic
  · rw [same, foreign] at letter
    cases letter
  · exact Latin.fold_of_isLower lower
  · have := Latin.toNat_lt_of_isLower_fold letter
    omega

@[simp] theorem normalize_normalize (layout : Layout) (c : Char) :
    layout.normalize (layout.normalize c) = layout.normalize c := by
  induction layout with
  | latin => exact Latin.fold_fold c
  | russian => exact Russian.fold_fold c
  | romanizedBy table => exact normalize_romanized_normalize table c
  | latinOnly => rw [normalize_latinOnly, normalize_latinOnly, Latin.fold_fold]
  | latinThen secondary ih =>
      cases letter : (Latin.fold c).isLower with
      | true =>
          have again : (Latin.fold (Latin.fold c)).isLower = true := by rw [Latin.fold_fold, letter]
          rw [normalize_latinThen_of_isLower letter, normalize_latinThen_of_isLower again,
            Latin.fold_fold]
      | false =>
          rw [normalize_latinThen_of_not letter]
          -- The layout behind may make a Latin letter of a character; then it is a small one.
          cases became : (Latin.fold (secondary.normalize c)).isLower with
          | true =>
              rw [normalize_latinThen_of_isLower became]
              exact fold_normalize_of_isLower letter became
          | false => rw [normalize_latinThen_of_not became, ih]

theorem isAlphabetic_of_isDigit (layout : Layout) {c : Char} (h : c.isDigit = true) :
    layout.isAlphabetic c = false := by
  have foreign := Latin.isLower_fold_of_isDigit h
  induction layout with
  | latin => exact foreign
  | russian =>
      have digit := isDigit_iff_toNat.mp h
      rw [isAlphabetic, Russian.fold_of_isDigit h]
      refine Bool.eq_false_iff.mpr fun letter => ?_
      have low : 0x430 ≤ c.toNat := of_decide_eq_true (Bool.and_eq_true_iff.mp letter).1
      omega
  | romanizedBy table =>
      rw [isAlphabetic, normalize_romanized_of_isDigit h, isLower_of_isDigit h]
  | latinOnly => exact foreign
  | latinThen secondary ih => rw [isAlphabetic, foreign, ih, Bool.or_self]

/-- The letters of a layout are the characters with a key that are no numerals. -/
theorem isAlphabetic_eq (layout : Layout) (c : Char) :
    layout.isAlphabetic c = ((layout.key? c).isSome && !c.isDigit) := by
  rw [isSome_key?, isDialable, isNumeric]
  cases digit : c.isDigit with
  | true => rw [isAlphabetic_of_isDigit layout digit, Bool.not_true, Bool.and_false]
  | false => rw [Bool.or_false, Bool.not_false, Bool.and_true]

@[simp] theorem isAlphabetic_normalize (layout : Layout) (c : Char) :
    layout.isAlphabetic (layout.normalize c) = layout.isAlphabetic c := by
  rw [isAlphabetic_eq, isAlphabetic_eq, key?_normalize, isDigit_normalize]

theorem digitChar_of_key?_eq_none {layout : Layout} {c : Char} (h : layout.key? c = none) :
    layout.digitChar c = c := by
  rw [digitChar, h, Option.map_none, Option.getD_none, ite_self]

/-- What users of a layout rely on at a character. -/
structure Coherent (layout : Layout) (c : Char) : Prop where
  settles : layout.normalize (layout.normalize c) = layout.normalize c
  sameKey : layout.key? (layout.normalize c) = layout.key? c
  sameLetter : layout.isAlphabetic (layout.normalize c) = layout.isAlphabetic c
  sameDialable : layout.isDialable (layout.normalize c) = layout.isDialable c
  dialable_iff : layout.isDialable c = true ↔ (layout.key? c).isSome = true
  apart : ¬ (layout.isAlphabetic c = true ∧ layout.isNumeric c = true)
  typed : ∀ key, layout.key? c = some key → (layout.digitChar c).toNat = '0'.toNat + key.val
  stays : layout.key? c = none → layout.digitChar c = c
  keepsLatin : layout ≠ .russian →
    ∀ key, Layout.latin.key? c = some key → layout.key? c = some key

/-- Every layout is coherent at every character. -/
theorem coherent (layout : Layout) (c : Char) : layout.Coherent c where
  settles := normalize_normalize layout c
  sameKey := key?_normalize layout c
  sameLetter := isAlphabetic_normalize layout c
  sameDialable := isDialable_normalize layout c
  dialable_iff := by rw [isSome_key?]
  apart := by
    rintro ⟨letter, digit⟩
    rw [isAlphabetic_of_isDigit layout digit] at letter
    cases letter
  typed key found := by rw [digitChar_of_key? found, Key.toNat_char]
  stays := digitChar_of_key?_eq_none
  keepsLatin foreign _ found := key?_of_latin foreign found

/-- Behind two Latin layouts a table still reads `Ж` as `z`, and `É` keeps its Latin key. -/
theorem coherent_layered :
    let layout : Layout := .latinThen (.latinThen (.romanizedBy [⟨0x416, ['z']⟩]))
    (layout.normalize 'Ж' = 'z' ∧ layout.digitChar 'Ж' = '9' ∧ layout.Coherent 'Ж') ∧
      layout.key? 'É' = some 3 := by
  intro layout
  refine ⟨⟨by decide +kernel, by decide +kernel, coherent layout 'Ж'⟩, ?_⟩
  exact (coherent layout 'É').keepsLatin (by decide) 3 (by decide +kernel)

end Layout
end Keypad
