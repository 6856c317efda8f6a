import Keypad.Text

/-!
Tables that give a basic Latin letter to a character. A table is a list of rows; a row names its
first character and lists the letters of the following ones, with a point where there is none.
Whatever a table holds, a look-up yields a small basic letter or nothing, and every such assignment
is that of some table.
-/
namespace Keypad

structure LetterRow where
  first : Nat
  letters : Text
  deriving DecidableEq, Repr

abbrev LetterTable := List LetterRow

namespace LetterRow

def letter? (row : LetterRow) (c : Char) : Option Char :=
  if row.first ≤ c.toNat then
    row.letters[c.toNat - row.first]?.filter Char.isLower
  else
    none

theorem isLower_of_letter? {row : LetterRow} {c letter : Char}
    (h : row.letter? c = some letter) : letter.isLower = true := by
  unfold letter? at h
  split at h
  · exact (Option.filter_eq_some_iff.mp h).2
  · cases h

end LetterRow

namespace LetterTable

/-- The letter of the first row that has one. -/
def letter? (table : LetterTable) (c : Char) : Option Char :=
  table.findSome? (·.letter? c)

theorem isLower_of_letter? {table : LetterTable} {c letter : Char}
    (h : table.letter? c = some letter) : letter.isLower = true := by
  obtain ⟨row, _, hrow⟩ := List.exists_of_findSome?_eq_some h
  exact LetterRow.isLower_of_letter? hrow

/-- Every assignment of small basic letters is that of some table, so what holds for every table holds
for every assignment. -/
theorem exists_letter?_eq {assign : Char → Option Char}
    (h : ∀ c letter, assign c = some letter → letter.isLower = true) :
    ∃ table : LetterTable, table.letter? = assign := by
  obtain ⟨size, bound⟩ : ∃ size, ∀ c : Char, c.toNat < size := ⟨_, fun c => c.val.toNat_lt⟩
  -- One row for all characters does, with a point where nothing is assigned.
  refine ⟨[⟨0, (List.range size).map fun n => (assign (Char.ofNat n)).getD '.'⟩], ?_⟩
  funext c
  have here : LetterRow.letter?
      ⟨0, (List.range size).map fun n => (assign (Char.ofNat n)).getD '.'⟩ c = assign c := by
    rw [LetterRow.letter?, if_pos (Nat.zero_le _), Nat.sub_zero, List.getElem?_map,
      List.getElem?_range (bound c), Option.map_some, Char.ofNat_toNat]
    cases found : assign c with
    | none => rfl
    | some letter => rw [Option.getD_some, Option.filter_some, if_pos (h c letter found)]
  rw [letter?, List.findSome?_cons, here]
  cases assign c <;> rfl

end LetterTable
end Keypad
