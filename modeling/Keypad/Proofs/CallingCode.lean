import Keypad.CallingCode
import Mathlib.Data.List.Chain

/-!
The table of calling codes. Where two of its entries first differ, the earlier one has the lesser
numeral. So the table is in order and no entry begins another one, and halving it finds an entry
exactly when there is one.
-/
namespace Keypad.CallingCode

/-- Whether two texts differ at some place, and the first one has the lesser character there. -/
def precedes : Text → Text → Bool
  | a :: as, b :: bs => decide (a < b) || a == b && precedes as bs
  | _, _ => false

theorem precedes_cons_iff {a b : Char} {as bs : Text} :
    precedes (a :: as) (b :: bs) = true ↔ a < b ∨ a = b ∧ precedes as bs = true := by
  simp only [precedes, Bool.or_eq_true, decide_eq_true_eq, Bool.and_eq_true, beq_iff_eq]

theorem precedes_self (text : Text) : precedes text text = false := by
  induction text with
  | nil => rfl
  | cons c rest ih => simp [precedes, ih]

theorem precedes_trans {first second third : Text} (left : precedes first second = true)
    (right : precedes second third = true) : precedes first third = true := by
  induction first generalizing second third with
  | nil => cases left
  | cons a as ih =>
      cases second with
      | nil => cases left
      | cons b bs =>
          cases third with
          | nil => cases right
          | cons c cs =>
              rw [precedes_cons_iff] at left right ⊢
              rcases left with less | ⟨rfl, left⟩
              · rcases right with more | ⟨rfl, -⟩
                · exact .inl (Char.lt_trans less more)
                · exact .inl less
              · rcases right with more | ⟨rfl, right⟩
                · exact .inl more
                · exact .inr ⟨rfl, ih left right⟩

/-- What follows two texts does not matter when they differ. -/
theorem precedes_append {a b : Text} (h : precedes a b = true) (as bs : Text) :
    precedes (a ++ as) (b ++ bs) = true := by
  induction a generalizing b with
  | nil => cases h
  | cons c a ih =>
      cases b with
      | nil => cases h
      | cons d b => exact precedes_cons_iff.mpr ((precedes_cons_iff.mp h).imp_right (.imp_right ih))

theorem append_ne_of_precedes {a b : Text} (h : precedes a b = true) (as bs : Text) :
    a ++ as ≠ b ++ bs := by
  intro same
  have whole := precedes_append h as bs
  rw [same, precedes_self] at whole
  cases whole

theorem compare_of_precedes {a b : Text} (h : precedes a b = true) :
    compare a b = .lt ∧ compare b a = .gt := by
  induction a generalizing b with
  | nil => cases h
  | cons c a ih =>
      cases b with
      | nil => cases h
      | cons d b =>
          rcases precedes_cons_iff.mp h with less | ⟨rfl, rest⟩
          · simp [compare, less, Char.lt_asymm less]
          · simpa [compare, Char.lt_irrefl] using ih rest

theorem compare_eq_eq_iff {a b : Text} : compare a b = .eq ↔ a = b := by
  induction a generalizing b with
  | nil => cases b <;> simp [compare]
  | cons c a ih =>
      cases b with
      | nil => simp [compare]
      | cons d b =>
          rw [compare]
          split
          · rename_i less
            simp [Char.ne_of_lt less]
          · rename_i notLess
            split
            · rename_i more
              simp [(Char.ne_of_lt more).symm]
            · rename_i notMore
              rw [ih, Char.le_antisymm (Char.not_lt.mp notMore) (Char.not_lt.mp notLess)]
              simp

section

variable {sorted : Array Text} {a b text : Text} {i j : Nat}

theorem precedes_of_lt (ascending : sorted.toList.Pairwise fun a b => precedes a b = true)
    (left : sorted[i]? = some a) (right : sorted[j]? = some b) (order : i < j) :
    precedes a b = true := by
  obtain ⟨low, rfl⟩ := Array.getElem?_eq_some_iff.mp left
  obtain ⟨high, rfl⟩ := Array.getElem?_eq_some_iff.mp right
  exact List.pairwise_iff_getElem.mp ascending i j low high order

/-- Entries of a sorted table compare as their places do. -/
theorem compare_eq_of_places (ascending : sorted.toList.Pairwise fun a b => precedes a b = true)
    (left : sorted[i]? = some a) (right : sorted[j]? = some b) :
    compare a b = Ord.compare i j := by
  rcases Nat.lt_trichotomy i j with less | rfl | more
  · rw [(compare_of_precedes (precedes_of_lt ascending left right less)).1,
      Nat.compare_eq_lt.mpr less]
  · rw [compare_eq_eq_iff.mpr (Option.some.inj (left.symm.trans right)), Nat.compare_eq_eq.mpr rfl]
  · rw [(compare_of_precedes (precedes_of_lt ascending right left more)).2,
      Nat.compare_eq_gt.mpr more]

/-- Two entries of a sorted table that begin the same text are one. -/
theorem eq_of_append_eq (ascending : sorted.toList.Pairwise fun a b => precedes a b = true)
    (left : a ∈ sorted) (right : b ∈ sorted) {as bs : Text} (same : a ++ as = b ++ bs) :
    a = b := by
  obtain ⟨i, left⟩ := Array.mem_iff_getElem?.mp left
  obtain ⟨j, right⟩ := Array.mem_iff_getElem?.mp right
  rcases Nat.lt_trichotomy i j with less | rfl | more
  · exact absurd same (append_ne_of_precedes (precedes_of_lt ascending left right less) as bs)
  · exact Option.some.inj (left.symm.trans right)
  · exact absurd same.symm (append_ne_of_precedes (precedes_of_lt ascending right left more) bs as)

/-- Halving a stretch of a sorted table finds a text exactly when it stands there. -/
theorem holds_iff (ascending : sorted.toList.Pairwise fun a b => precedes a b = true)
    (text : Text) {low high : Nat} (inside : high ≤ sorted.size) :
    holds sorted text low high = true ↔
      ∃ place, low ≤ place ∧ place < high ∧ sorted[place]? = some text := by
  fun_induction holds sorted text low high with
  | case1 low high stretch middle missing =>
      have := Array.getElem?_eq_none_iff.mp missing
      omega
  | case2 low high stretch middle entry found equal =>
      rw [compare_eq_eq_iff.mp equal]
      simp only [true_iff]
      exact ⟨middle, by omega, by omega, found⟩
  | case3 low high stretch middle entry found less ih =>
      rw [ih (by omega)]
      refine exists_congr fun place => and_congr_right fun _ => ?_
      constructor
      · exact fun ⟨early, here⟩ => ⟨by omega, here⟩
      · rintro ⟨-, here⟩
        rw [compare_eq_of_places ascending here found, Nat.compare_eq_lt] at less
        exact ⟨less, here⟩
  | case4 low high stretch middle entry found more ih =>
      rw [ih inside]
      refine exists_congr fun place => ?_
      constructor
      · exact fun ⟨late, rest⟩ => ⟨by omega, rest⟩
      · rintro ⟨-, early, here⟩
        rw [compare_eq_of_places ascending here found, Nat.compare_eq_gt] at more
        exact ⟨more, early, here⟩
  | case5 low high empty =>
      simp only [Bool.false_eq_true, false_iff]
      rintro ⟨place, late, early, -⟩
      omega

end

theorem table_ascending : table.toList.Pairwise fun a b => precedes a b = true := by
  have steps : table.toList.IsChain fun a b => precedes a b = true := by decide +kernel
  have : IsTrans Text fun a b => precedes a b = true := ⟨fun _ _ _ => precedes_trans⟩
  exact List.isChain_iff_pairwise.mp steps

/-- A calling code is known exactly when the table lists it. -/
theorem isKnown_iff (code : Text) : isKnown code = true ↔ code ∈ table := by
  rw [isKnown, holds_iff table_ascending code (Nat.le_refl _), Array.mem_iff_getElem?]
  refine exists_congr fun place => ?_
  constructor
  · exact fun ⟨_, _, here⟩ => here
  · intro here
    obtain ⟨inside, _⟩ := Array.getElem?_eq_some_iff.mp here
    exact ⟨Nat.zero_le _, inside, here⟩

/-- Calling codes are typed with one to three numerals. -/
theorem digits_of_mem_table {code : Text} (h : code ∈ table) :
    Text.digits code = code ∧ code.length ∈ [1, 2, 3] := by
  have all : ∀ code ∈ table.toList, Text.digits code = code ∧ code.length ∈ [1, 2, 3] := by
    decide +kernel
  exact all code (Array.mem_toList_iff.mpr h)

end Keypad.CallingCode
