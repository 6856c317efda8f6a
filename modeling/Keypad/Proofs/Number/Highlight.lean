import Keypad.Proofs.Number.Alignment
import Keypad.Proofs.Span

/-!
What a query lights up in a number. The first place from which the digits of the number start with
the query decides; from there the span holds just the digits of the query, ends on the last of them
and, unless it starts with the number itself, opens on the first of them.
-/
namespace Keypad

namespace Number

/-- The places a query is laid on, in their order. -/
def places (region : Region) (number : Text) (useAreaCode : Bool) : List Nat :=
  let found := parts region number
  0 :: ((if found.callingCodeEnd ≠ 0 then [found.callingCodeEnd] else []) ++
    if useAreaCode ∧ found.areaCodeEnd ≠ 0 then [found.areaCodeEnd] else [])

/-- The first place behind which the digits of the number start with the query. -/
def firstPlace? (region : Region) (number : Text) (query : Digits) (useAreaCode : Bool) :
    Option Nat :=
  (places region number useAreaCode).find? fun place =>
    query.isPrefixOf (digitsFrom place number)

/-- The front of a text that is typed with a query and ends on the last key. -/
structure Taken (text : Text) (query : Digits) (front : Text) : Prop where
  leads : front <+: text
  typed : Text.digits front = query
  ends : ∀ last ∈ front.getLast?, last.isDigit = true

theorem Taken.nil (text : Text) : Taken text [] [] :=
  ⟨List.nil_prefix, rfl, by simp⟩

variable {text front : Text} {query : Digits} {c : Char}

/-- A character in front of a taken stretch is a key of its own, or formatting before another. -/
theorem Taken.cons (h : Taken text query front) (last : front = [] → c.isDigit = true) :
    Taken (c :: text) (Text.digits [c] ++ query) (c :: front) where
  leads := List.cons_prefix_cons.mpr ⟨rfl, h.leads⟩
  typed := by rw [← List.singleton_append, Text.digits_append, h.typed]
  ends final mem := by
    cases front with
    | nil =>
        obtain rfl := Option.some.inj mem
        exact last rfl
    | cons d front =>
        rw [List.getLast?_cons_cons] at mem
        exact h.ends final mem

theorem exists_taken {place stop : Nat} (h : consume place text query = some stop) :
    ∃ front, Taken text query front ∧ stop = place + front.length := by
  induction text generalizing place query with
  | nil =>
      cases query with
      | nil => exact ⟨[], Taken.nil _, (Option.some.inj h).symm⟩
      | cons key keys => cases h
  | cons c rest ih =>
      cases query with
      | nil => exact ⟨[], Taken.nil _, (Option.some.inj h).symm⟩
      | cons key keys =>
          rw [consume] at h
          by_cases digit : c.isDigit = true
          · rw [if_pos digit] at h
            split at h
            · rename_i same
              obtain ⟨front, taken, stop⟩ := ih h
              have longer := taken.cons fun _ => digit
              rw [Text.digits_cons_of_isDigit digit, same] at longer
              exact ⟨key :: front, same ▸ longer, by rw [stop, List.length_cons]; omega⟩
            · cases h
          · rw [if_neg digit] at h
            obtain ⟨front, taken, stop⟩ := ih h
            -- The query is not used up yet, so formatting is never the end of the stretch.
            have filled : front ≠ [] := by
              rintro rfl
              cases taken.typed
            have longer := taken.cons (c := c) fun empty => absurd empty filled
            rw [Text.digits_cons_of_not digit] at longer
            exact ⟨c :: front, longer, by rw [stop, List.length_cons]; omega⟩

/-- Behind the leading formatting of a text, a taken stretch is typed with the same query. -/
theorem Taken.exists_behind_formatting (h : Taken text query front) (typed : query ≠ []) :
    ∃ c more, c.isDigit = true ∧ front = text.takeWhile (!·.isDigit) ++ c :: more ∧
      Text.digits (c :: more) = query := by
  obtain ⟨behind, split⟩ := h.leads
  have silent : Text.digits (text.takeWhile (!·.isDigit)) = [] :=
    Text.digits_eq_nil_iff.mpr fun _ => Text.isDigit_of_mem_takeWhile
  have filled : Text.digits text ≠ [] := by
    rw [← split, Text.digits_append, h.typed]
    simp [typed]
  obtain ⟨c, rest, digit, opens⟩ := Text.exists_first_digit filled
  generalize text.takeWhile (!·.isDigit) = lead at silent opens ⊢
  -- The stretch ends on a digit, so it reaches past the leading formatting.
  rcases List.append_eq_append_iff.mp (split.trans opens) with
    ⟨inner, shorter, _⟩ | ⟨more, longer, later⟩
  · rw [shorter, Text.digits_append, h.typed] at silent
    exact absurd (List.append_eq_nil_iff.mp silent).1 typed
  · have spelled := h.typed
    rw [longer, Text.digits_append, silent, List.nil_append] at spelled
    cases more with
    | nil => exact absurd spelled.symm typed
    | cons d more =>
        obtain ⟨rfl, _⟩ := List.cons.inj later
        exact ⟨c, more, digit, longer, spelled⟩

/-- A span that holds the digits of a query, no more and no less, and ends on the last of them. -/
structure Spells (number : Text) (query : Digits) (span : Span) : Prop where
  nonempty : span.start < span.stop
  within : span.stop ≤ number.length
  spells : Text.digits (span.slice number) = query
  closes : ∃ c, number[span.stop - 1]? = some c ∧ c.isDigit = true

/-- What a query lights up when it is laid on a number from a place on. From the start of the number
all of it counts, from any other place only what the first digit behind that place opens. -/
structure Highlights (number : Text) (query : Digits) (place : Nat) (span : Span) : Prop extends
    Spells number query span where
  leads : place = 0 → span.start = 0
  opens : place ≠ 0 → place ≤ span.start ∧
    (∃ c, number[span.start]? = some c ∧ c.isDigit = true) ∧
    ∀ index, place ≤ index → index < span.start →
      ∃ c, number[index]? = some c ∧ c.isDigit = false

theorem Spells.of_split {before middle behind : Text} (typed : Text.digits middle = query)
    (filled : middle ≠ []) (ends : ∀ last ∈ middle.getLast?, last.isDigit = true) :
    Spells (before ++ (middle ++ behind)) query
      ⟨before.length, before.length + middle.length⟩ where
  nonempty := Nat.lt_add_of_pos_right (List.length_pos_iff.mpr filled)
  within := by simp only [List.length_append]; omega
  spells := by rw [Span.slice_middle, typed]
  closes := by
    obtain ⟨earlier, last, rfl⟩ := (List.eq_nil_or_concat middle).resolve_left filled
    have place : before.length + (earlier.concat last).length - 1 =
        before.length + (earlier.length + 0) := by
      rw [List.length_concat]
      omega
    refine ⟨last, ?_, ends last (by simp)⟩
    rw [place, List.getElem?_append_right (Nat.le_add_right _ _), Nat.add_sub_cancel_left,
      List.concat_eq_append, List.append_assoc, List.getElem?_append_right (Nat.le_add_right _ _),
      Nat.add_sub_cancel_left]
    rfl

section

variable {number skipped lead more behind : Text}

/-- A stretch that is taken from the start of a number lights up as it is. -/
theorem Highlights.of_start (taken : Taken number query front) (typed : query ≠ []) :
    Highlights number query 0 ⟨0, front.length⟩ := by
  obtain ⟨behind, rfl⟩ := taken.leads
  have filled : front ≠ [] := by
    rintro rfl
    exact typed taken.typed.symm
  have spells : Spells ([] ++ (front ++ behind)) query ⟨0, 0 + front.length⟩ :=
    .of_split taken.typed filled taken.ends
  rw [List.nil_append, Nat.zero_add] at spells
  exact { spells with leads := fun _ => rfl, opens := fun moved => absurd rfl moved }

/-- Behind a later place the stretch from the first digit on lights up. -/
theorem Highlights.of_later (silent : ∀ c ∈ lead, c.isDigit = false) (digit : c.isDigit = true)
    (typed : Text.digits (c :: more) = query)
    (ends : ∀ last ∈ (c :: more).getLast?, last.isDigit = true) (moved : skipped ≠ []) :
    Highlights (skipped ++ lead ++ (c :: more ++ behind)) query skipped.length
      ⟨skipped.length + lead.length, skipped.length + lead.length + (c :: more).length⟩ := by
  have spells : Spells (skipped ++ lead ++ (c :: more ++ behind)) query _ :=
    .of_split typed (List.cons_ne_nil c more) ends
  rw [List.length_append] at spells
  refine { spells with leads := fun first => ?_, opens := fun _ => ⟨Nat.le_add_right _ _, ?_, ?_⟩ }
  · exact absurd (List.length_eq_zero_iff.mp first) moved
  · refine ⟨c, ?_, digit⟩
    rw [← List.length_append, List.getElem?_append_right (Nat.le_refl _), Nat.sub_self]
    rfl
  · intro index low high
    change index < skipped.length + lead.length at high
    have inside : index - skipped.length < lead.length := by omega
    refine ⟨lead[index - skipped.length], ?_, silent _ (List.getElem_mem inside)⟩
    rw [List.getElem?_append_left (by rwa [List.length_append]), List.getElem?_append_right low,
      List.getElem?_eq_getElem inside]

end

theorem highlights_of_alignAt {policy : Policy} {number : Text} {place : Nat} {span : Span}
    (typed : query ≠ []) (h : alignAt policy number query place = some span) :
    Highlights number query place span := by
  rw [alignAt_of_typed typed] at h
  obtain ⟨stop, reads, rfl⟩ := Option.map_eq_some_iff.mp h
  obtain ⟨front, taken, rfl⟩ := exists_taken reads
  by_cases start : place = 0
  · subst start
    rw [if_pos rfl, Nat.zero_add]
    exact .of_start taken typed
  rw [if_neg start]
  obtain ⟨c, more, digit, longer, spelled⟩ := taken.exists_behind_formatting typed
  obtain ⟨behind, split⟩ := taken.leads
  have filled : number.drop place ≠ [] := by
    rw [← split, longer]
    simp
  have inside : (number.take place).length = place := by
    rw [ne_eq, List.drop_eq_nil_iff] at filled
    exact List.length_take_of_le (by omega)
  have ends : ∀ last ∈ (c :: more).getLast?, last.isDigit = true := by
    intro last mem
    apply taken.ends
    rw [longer, List.getLast?_append, Option.mem_def.mp mem]
    rfl
  have silent : ∀ c ∈ (number.drop place).takeWhile (!·.isDigit), c.isDigit = false :=
    fun _ => Text.isDigit_of_mem_takeWhile
  generalize (number.drop place).takeWhile (!·.isDigit) = lead at longer silent ⊢
  have moved : number.take place ≠ [] := by
    rw [← List.length_pos_iff, inside]
    omega
  have lights : Highlights (number.take place ++ lead ++ (c :: more ++ behind)) query _ _ :=
    .of_later silent digit spelled ends moved
  have whole : number.take place ++ lead ++ (c :: more ++ behind) = number := by
    rw [List.append_assoc, ← List.append_assoc lead, ← longer, split, List.take_append_drop]
  rw [whole, inside] at lights
  rwa [longer, List.length_append, ← Nat.add_assoc]

section

variable {policy : Policy} {region : Region} {number : Text} {useAreaCode : Bool}

theorem align_eq_findSome? (filled : number ≠ []) :
    align policy region number query useAreaCode =
      (places region number useAreaCode).findSome? (alignAt policy number query) := by
  have guarded : ∀ (tried : Prop) [Decidable tried] (place : Nat),
      (if tried then [place] else []).findSome? (alignAt policy number query) =
        if tried then alignAt policy number query place else none := by
    intro tried _ place
    by_cases h : tried
    · simp [h]
    · simp [h]
  rw [align, if_neg (by simpa using filled), places, List.findSome?_cons, List.findSome?_append,
    guarded, guarded]
  cases alignAt policy number query 0 <;> rfl

/-- The first place behind which the digits start with the query is the first one at which the query
can be laid on the number. -/
theorem exists_firstPlace? {span : Span} (typed : query ≠ [])
    (h : (places region number useAreaCode).findSome? (alignAt policy number query) = some span) :
    ∃ place, firstPlace? region number query useAreaCode = some place ∧
      alignAt policy number query place = some span := by
  obtain ⟨earlier, place, later, split, here, before⟩ := List.findSome?_eq_some_iff.mp h
  have fits : ∀ place, query.isPrefixOf (digitsFrom place number) = true ↔
      (alignAt policy number query place).isSome = true := fun place => by
    rw [List.isPrefixOf_iff_prefix, isSome_alignAt_iff typed]
  refine ⟨place, List.find?_eq_some_iff_append.mpr ⟨?_, earlier, later, split, ?_⟩, here⟩
  · rw [fits, here, Option.isSome_some]
  · intro other mem
    have none := before other mem
    rw [Bool.not_eq_true', Bool.eq_false_iff, ne_eq, fits, none]
    simp

theorem firstPlace?_eq_none_iff (typed : query ≠ []) :
    firstPlace? region number query useAreaCode = none ↔
      (places region number useAreaCode).findSome? (alignAt policy number query) = none := by
  rw [firstPlace?, List.find?_eq_none, List.findSome?_eq_none_iff]
  refine forall₂_congr fun place _ => ?_
  have fits : (alignAt policy number query place).isSome = true ↔
      query <+: digitsFrom place number := isSome_alignAt_iff typed place
  rw [List.isPrefixOf_iff_prefix, ← fits, Option.not_isSome_iff_eq_none]

/-- Only the start of the number counts as place zero, so it is the first one just when the whole
number starts with the query. -/
theorem firstPlace?_eq_zero_iff :
    firstPlace? region number query useAreaCode = some 0 ↔ query <+: Text.digits number := by
  rw [firstPlace?, places, List.find?_cons, ← List.isPrefixOf_iff_prefix]
  change (match query.isPrefixOf (Text.digits number) with | true => _ | false => _) = _ ↔ _
  cases query.isPrefixOf (Text.digits number) with
  | true => simp
  | false =>
      simp only [Bool.false_eq_true, iff_false]
      intro found
      have mem := List.mem_of_find?_eq_some found
      simp only [List.mem_append] at mem
      rcases mem with code | area
      · split at code
        · rename_i moved
          exact moved (List.mem_singleton.mp code).symm
        · cases code
      · split at area
        · rename_i moved
          exact moved.2 (List.mem_singleton.mp area).symm
        · cases area

end

end Number

namespace Matcher

/-- A matcher lights up in a number just the digits of its query, behind the first place from which
they can be read, and nothing when there is no such place. The first place is the start of the
number just when all its digits start with the query. -/
theorem highlights_numberSpan (matcher : Matcher) (number : Text) (useAreaCode : Bool)
    (filled : number ≠ []) (typed : matcher.keys ≠ []) :
    let first := Number.firstPlace? matcher.region number matcher.keys useAreaCode
    (first = some 0 ↔ matcher.keys <+: Text.digits number) ∧
      (matcher.numberSpan number useAreaCode = none ↔ first = none) ∧
      ∀ span, matcher.numberSpan number useAreaCode = some span →
        ∃ place, first = some place ∧ Number.Highlights number matcher.keys place span := by
  intro first
  have found : matcher.numberSpan number useAreaCode = _ :=
    Number.align_eq_findSome? filled
  rw [found]
  refine ⟨Number.firstPlace?_eq_zero_iff, (Number.firstPlace?_eq_none_iff typed).symm, ?_⟩
  intro span lit
  obtain ⟨place, here, aligned⟩ := Number.exists_firstPlace? typed lit
  exact ⟨place, here, Number.highlights_of_alignAt typed aligned⟩

/-- Behind the calling code and the area code only the local digits light up, and the bracket before
them stays dark. -/
theorem highlights_local_digits :
    let matcher := Matcher.new ⟨some (.ofCountry "US".toList)⟩ .latin "1234".toList
    let number := "+1 (555) 123-4567".toList
    matcher.numberSpan number true = some ⟨9, 14⟩ ∧
      Number.Highlights number "1234".toList 7 ⟨9, 14⟩ := by
  intro matcher number
  have lit : matcher.numberSpan number true = some ⟨9, 14⟩ := by decide +kernel
  obtain ⟨_, _, highlights⟩ :=
    highlights_numberSpan matcher number true (by decide) (by decide +kernel)
  obtain ⟨place, first, covers⟩ := highlights ⟨9, 14⟩ lit
  have here : Number.firstPlace? matcher.region number matcher.keys true = some 7 := by
    decide +kernel
  obtain rfl := Option.some.inj (here.symm.trans first)
  exact ⟨lit, covers⟩

end Matcher
end Keypad
