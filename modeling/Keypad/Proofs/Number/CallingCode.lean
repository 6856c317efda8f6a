import Keypad.Number.Parts
import Keypad.Proofs.CallingCode
import Keypad.Proofs.Text

/-!
The calling code of a number. Behind a plus it is the one entry of the table that stands there with
something behind it, in whatever order the lengths are tried. Whether it comes behind a plus or is
the leading `1` of a number of the plan, the digits of a number are its calling code and then the
digits behind it.
-/
namespace Keypad.Number

theorem digitsFrom_eq (place : Nat) (number : Text) :
    digitsFrom place number =
      (Text.digits number).drop (Text.digits (number.take place)).length := by
  rw [← Text.digits_take_append_drop number place, List.drop_left]
  rfl

theorem exists_secondDigit? (number : Text) (h : 2 ≤ (Text.digits number).length) :
    ∃ place, secondDigit? number = some place ∧ 0 < place ∧ place < number.length ∧
      Text.digits (number.take place) = (Text.digits number).take 1 := by
  have typed : Text.digits number ≠ [] := by
    intro empty
    simp [empty] at h
  obtain ⟨first, found⟩ := Option.ne_none_iff_exists'.mp (Text.findIdx?_ne_none typed)
  obtain ⟨silent, c, rest, digit, here⟩ := Text.of_findIdx?_eq_some found
  have digits : Text.digits number = c :: Text.digits rest := by
    rw [← Text.digits_take_append_drop number first, silent, here, List.nil_append,
      Text.digits_cons_of_isDigit digit]
  have after : number.drop (first + 1) = rest := by
    rw [← List.drop_drop, here]
    rfl
  have more : Text.digits rest ≠ [] := by
    intro empty
    simp [digits, empty] at h
  obtain ⟨second, next⟩ := Option.ne_none_iff_exists'.mp (Text.findIdx?_ne_none more)
  obtain ⟨quiet, d, tail, -, there⟩ := Text.of_findIdx?_eq_some next
  refine ⟨first + 1 + second, ?_, by omega, ?_, ?_⟩
  · simp [secondDigit?, found, after, next]
  · refine Nat.lt_of_not_le fun past => ?_
    rw [← after, List.drop_drop, List.drop_eq_nil_of_le past] at there
    cases there
  · have front : number.take (first + 1) = number.take first ++ [c] := by
      rw [List.take_add, here]
      rfl
    rw [List.take_add, after, Text.digits_append, quiet, front, Text.digits_append, silent, digits,
      Text.digits_cons_of_isDigit digit]
    rfl

/-- A number carries a calling code: the code stands right behind its plus and something follows. -/
structure Carries (number code : Text) : Prop where
  listed : code ∈ CallingCode.table
  stands : ∃ c rest, number = '+' :: (code ++ c :: rest)

/-- The calling code of a given length behind the plus of a number, if such a code is there. -/
def codeOfLength? (number : Text) (length : Nat) : Option Text :=
  let code := (number.drop 1).take length
  if length + 1 < number.length ∧ CallingCode.isKnown code then some code else none

section

variable {number code other : Text} {length : Nat} {order : List Nat}

/-- No two calling codes stand in the same place. -/
theorem Carries.unique (h : Carries number code) (g : Carries number other) : code = other := by
  obtain ⟨c, rest, rfl⟩ := h.stands
  obtain ⟨d, more, same⟩ := g.stands
  exact CallingCode.eq_of_append_eq CallingCode.table_ascending h.listed g.listed
    (List.cons.inj same).2

theorem codeOfLength?_eq_some_iff (plus : number.head? = some '+') :
    codeOfLength? number length = some code ↔ Carries number code ∧ code.length = length := by
  obtain ⟨tail, rfl⟩ := List.head?_eq_some_iff.mp plus
  simp only [codeOfLength?, List.drop_succ_cons, List.drop_zero, List.length_cons]
  constructor
  · intro found
    split at found
    · rename_i fits
      obtain rfl := Option.some.inj found
      have behind : tail.drop length ≠ [] := List.drop_eq_nil_iff.not.mpr (by omega)
      obtain ⟨c, rest, last⟩ := List.exists_cons_of_ne_nil behind
      have listed := (CallingCode.isKnown_iff _).mp fits.2
      refine ⟨⟨listed, c, rest, ?_⟩, List.length_take_of_le (by omega)⟩
      rw [← last, List.take_append_drop]
    · cases found
  · rintro ⟨⟨listed, c, rest, same⟩, rfl⟩
    obtain rfl := (List.cons.inj same).2
    rw [List.take_left]
    exact if_pos ⟨by simp, (CallingCode.isKnown_iff code).mpr listed⟩

/-- Trying all lengths finds the calling code behind a plus, in whatever order they are tried. -/
theorem findSome?_codeOfLength?_eq_some_iff (plus : number.head? = some '+')
    (all : order.Perm [1, 2, 3]) :
    order.findSome? (codeOfLength? number) = some code ↔ Carries number code := by
  constructor
  · intro found
    obtain ⟨length, -, tried⟩ := List.exists_of_findSome?_eq_some found
    exact ((codeOfLength?_eq_some_iff plus).mp tried).1
  · intro carries
    have fits : codeOfLength? number code.length = some code :=
      (codeOfLength?_eq_some_iff plus).mpr ⟨carries, rfl⟩
    have mem : code.length ∈ order := all.mem_iff.mpr
      (CallingCode.digits_of_mem_table carries.listed).2
    cases found : order.findSome? (codeOfLength? number) with
    | none =>
        have silent := List.findSome?_eq_none_iff.mp found code.length mem
        rw [fits] at silent
        cases silent
    | some other =>
        obtain ⟨length, -, tried⟩ := List.exists_of_findSome?_eq_some found
        rw [((codeOfLength?_eq_some_iff plus).mp tried).1.unique carries]

theorem plusCode?_eq_some_iff (plus : number.head? = some '+') :
    plusCode? number = some code ↔ Carries number code :=
  findSome?_codeOfLength?_eq_some_iff plus (.refl [1, 2, 3])

theorem findSome?_codeOfLength?_eq_plusCode? (plus : number.head? = some '+')
    (all : order.Perm [1, 2, 3]) : order.findSome? (codeOfLength? number) = plusCode? number := by
  refine Option.ext fun code => ?_
  rw [findSome?_codeOfLength?_eq_some_iff plus all, plusCode?_eq_some_iff plus]

theorem callingCode_of_carries (region : Region) (h : Carries number code) :
    callingCode region number = (code, code.length + 1) := by
  have plus : number.head? = some '+' := by
    obtain ⟨c, rest, rfl⟩ := h.stands
    rfl
  rw [callingCode, if_pos plus, (plusCode?_eq_some_iff plus).mpr h]

theorem callingCode_of_not_carries (region : Region) (plus : number.head? = some '+')
    (h : ∀ code, ¬ Carries number code) : callingCode region number = ([], 0) := by
  have none : plusCode? number = none :=
    Option.eq_none_iff_forall_ne_some.mpr fun code found =>
      h code ((plusCode?_eq_some_iff plus).mp found)
  rw [callingCode, if_pos plus, none]

theorem callingCode_eq_iff (region : Region) (plus : number.head? = some '+') :
    callingCode region number = (code, code.length + 1) ↔ Carries number code := by
  constructor
  · intro found
    by_cases carried : ∃ other, Carries number other
    · obtain ⟨other, carries⟩ := carried
      rw [callingCode_of_carries region carries] at found
      rwa [(Prod.mk.inj found).1] at carries
    · rw [callingCode_of_not_carries region plus (not_exists.mp carried)] at found
      cases (Prod.mk.inj found).2
  · exact callingCode_of_carries region

end

/-- What is taken for the calling code of a number: nothing, or a code that is typed by what stands
before a place inside the number. -/
theorem callingCode_cases (region : Region) (number : Text) :
    callingCode region number = ([], 0) ∨
      ∃ code place, callingCode region number = (code, place) ∧ code ≠ [] ∧ 0 < place ∧
        place < number.length ∧ Text.digits (number.take place) = code := by
  by_cases plus : number.head? = some '+'
  · by_cases carried : ∃ code, Carries number code
    · obtain ⟨code, carries⟩ := carried
      obtain ⟨bare, length⟩ := CallingCode.digits_of_mem_table carries.listed
      have filled : code ≠ [] := by
        rintro rfl
        revert length
        decide
      refine .inr ⟨code, code.length + 1, callingCode_of_carries region carries, filled, by omega,
        ?_, ?_⟩
      · obtain ⟨c, rest, rfl⟩ := carries.stands
        simp
      · obtain ⟨c, rest, rfl⟩ := carries.stands
        rw [List.take_succ_cons, List.take_left, Text.digits_cons_of_not (by decide), bare]
    · exact .inl (callingCode_of_not_carries region plus (not_exists.mp carried))
  · by_cases eleven : (Text.digits number).length = 11 ∧ (Text.digits number).head? = some '1' ∧
        region.inNumberingPlan = true
    · obtain ⟨place, found, low, inside, front⟩ := exists_secondDigit? number (by omega)
      obtain ⟨rest, digits⟩ := List.head?_eq_some_iff.mp eleven.2.1
      refine .inr ⟨['1'], place, ?_, List.cons_ne_nil _ _, low, inside, by rw [front, digits]; rfl⟩
      rw [callingCode, if_neg plus, if_pos eleven, found, Option.getD_some]
    · exact .inl (by rw [callingCode, if_neg plus, if_neg eleven])

/-- What stands before the end of a calling code is typed with that code. -/
theorem digits_take_callingCode {region : Region} {number code : Text} {codeEnd : Nat}
    (h : callingCode region number = (code, codeEnd)) :
    Text.digits (number.take codeEnd) = code := by
  rcases callingCode_cases region number with none | ⟨_, _, found, -, -, -, front⟩
  · obtain ⟨rfl, rfl⟩ := Prod.mk.inj (h.symm.trans none)
    rfl
  · obtain ⟨rfl, rfl⟩ := Prod.mk.inj (h.symm.trans found)
    exact front

theorem callingCodeEnd_ne_zero_iff (region : Region) (number : Text) :
    (parts region number).callingCodeEnd ≠ 0 ↔ (parts region number).callingCode ≠ [] := by
  change (callingCode region number).2 ≠ 0 ↔ (callingCode region number).1 ≠ []
  rcases callingCode_cases region number with none | ⟨code, place, found, filled, low, -, -⟩
  · simp [none]
  · simp [found, filled, Nat.pos_iff_ne_zero.mp low]

theorem callingCodeEnd_lt {region : Region} {number : Text}
    (h : (parts region number).callingCodeEnd ≠ 0) :
    (parts region number).callingCodeEnd < number.length := by
  change (callingCode region number).2 ≠ 0 at h
  change (callingCode region number).2 < number.length
  rcases callingCode_cases region number with none | ⟨code, place, found, -, -, inside, -⟩
  · rw [none] at h
    exact absurd rfl h
  · rwa [found]

/-- Behind the full digits of a number its index lists the digits behind the calling code. -/
theorem index_of_callingCodeEnd {region : Region} {number : Text}
    (h : (parts region number).callingCodeEnd ≠ 0) :
    index region number =
      digitsFrom 0 number :: digitsFrom (parts region number).callingCodeEnd number ::
        if (parts region number).areaCodeEnd ≠ 0 then
          [digitsFrom (parts region number).areaCodeEnd number]
        else [] := by
  have filled : number ≠ [] :=
    List.ne_nil_of_length_pos (Nat.zero_lt_of_lt (callingCodeEnd_lt h))
  rw [index, if_neg (by simpa using filled)]
  dsimp only
  rw [if_pos h]
  rfl

/-- A calling code is known by its place, which lies inside the number, and the digits of a number
are its calling code and then the digits behind it. So the second entry of the index is the first
one without the calling code. -/
theorem callingCode_splits_digits (region : Region) (number : Text) :
    let found := parts region number
    (found.callingCodeEnd ≠ 0 ↔ found.callingCode ≠ []) ∧
      (found.callingCodeEnd ≠ 0 → found.callingCodeEnd < number.length) ∧
      digitsFrom 0 number = found.callingCode ++ digitsFrom found.callingCodeEnd number ∧
      (found.callingCode ≠ [] → ∃ whole behind more,
        index region number = whole :: behind :: more ∧ whole = found.callingCode ++ behind) := by
  intro found
  have placed := callingCodeEnd_ne_zero_iff region number
  have split : digitsFrom 0 number =
      found.callingCode ++ digitsFrom found.callingCodeEnd number := by
    have codes : callingCode region number = (found.callingCode, found.callingCodeEnd) := rfl
    have parted := Text.digits_take_append_drop number found.callingCodeEnd
    rw [digits_take_callingCode codes] at parted
    exact parted.symm
  refine ⟨placed, callingCodeEnd_lt, split, fun coded => ?_⟩
  exact ⟨_, _, _, index_of_callingCodeEnd (placed.mpr coded), split⟩

/-- The leading `1` of a number of the plan is its calling code, and the formatting around it is
passed over. -/
theorem callingCode_splits_digits_plan :
    let region : Region := .ofCountry "US".toList
    let number := "(1) 555-123-4567".toList
    let found := parts region number
    found.callingCode = ['1'] ∧ found.callingCodeEnd = 4 ∧
      digitsFrom 0 number = ['1'] ++ digitsFrom 4 number ∧
      ∃ whole behind more, index region number = whole :: behind :: more ∧
        whole = ['1'] ++ behind := by
  intro region number found
  have code : found.callingCode = ['1'] := by decide +kernel
  have place : found.callingCodeEnd = 4 := by decide +kernel
  obtain ⟨-, -, split, second⟩ := callingCode_splits_digits region number
  obtain ⟨whole, behind, more, entries, parted⟩ := second (by rw [code]; decide)
  exact ⟨code, place, code ▸ place ▸ split, whole, behind, more, entries, code ▸ parted⟩

/-- Halving finds a calling code exactly when the table lists it, and behind a plus a number has
the calling code that it carries. It carries at most one, so the lengths may be tried in any order,
and a number that carries none has none. -/
theorem plus_code_exact :
    (∀ code, CallingCode.isKnown code = true ↔ code ∈ CallingCode.table) ∧
      ∀ (region : Region) (number : Text), number.head? = some '+' →
        (∀ code, ((parts region number).callingCode = code ∧
          (parts region number).callingCodeEnd = code.length + 1) ↔ Carries number code) ∧
        (∀ code other, Carries number code → Carries number other → code = other) ∧
        (∀ order : List Nat, order.Perm [1, 2, 3] →
          order.findSome? (codeOfLength? number) = plusCode? number) ∧
        ((∀ code, ¬ Carries number code) →
          (parts region number).callingCode = [] ∧ (parts region number).callingCodeEnd = 0) := by
  refine ⟨CallingCode.isKnown_iff, fun region number plus => ⟨fun code => ?_, ?_, ?_, ?_⟩⟩
  · rw [← callingCode_eq_iff region plus, Prod.ext_iff]
    rfl
  · exact fun _ _ first second => first.unique second
  · exact fun _ all => findSome?_codeOfLength?_eq_plusCode? plus all
  · intro absent
    exact Prod.mk.inj (callingCode_of_not_carries region plus absent)

/-- Behind the plus of `+49 30` stands the code of length two, whether short or long codes are tried
first. -/
theorem plus_code_exact_germany :
    let number := "+49 30".toList
    (parts .unknown number).callingCode = "49".toList ∧
      [3, 2, 1].findSome? (codeOfLength? number) = plusCode? number := by
  intro number
  obtain ⟨known, plus⟩ := plus_code_exact
  obtain ⟨exact, -, orders, -⟩ := plus .unknown number (by decide +kernel)
  have listed : "49".toList ∈ CallingCode.table := (known _).mp (by decide +kernel)
  have carries : Carries number "49".toList := ⟨listed, ' ', "30".toList, by decide +kernel⟩
  exact ⟨((exact _).mpr carries).1, orders [3, 2, 1] (by decide)⟩

end Keypad.Number
