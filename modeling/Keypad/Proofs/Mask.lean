import Keypad.Proofs.Span
import Mathlib.Algebra.Ring.Nat

/-!
Laws of masks. A mask marks exactly the characters that one of its spans covers, and shifting the
spans shifts the marks. Where the spans keep their order, the marked characters are the slices of
the spans one after the other. Reversed spans and spans past the end are allowed throughout, and
overlapping ones wherever no order is asked for.
-/
namespace Keypad

namespace Span

/-- All that a span covers stands before all that another one covers. This holds of any two spans of
a sorted list without overlaps, and of a span that covers nothing wherever it stands. -/
def Precedes (a b : Span) : Prop :=
  ∀ i j, a.covers i = true → b.covers j = true → i < j

variable {a b : Span}

theorem precedes_iff :
    a.Precedes b ↔ a.stop ≤ a.start ∨ b.stop ≤ b.start ∨ a.stop ≤ b.start := by
  simp only [Precedes, covers_iff]
  constructor
  · intro order
    have := order (a.stop - 1) b.start
    omega
  · intro order i j
    omega

instance : Decidable (a.Precedes b) := decidable_of_iff _ precedes_iff.symm

theorem precedes_of_disjoint (sorted : a.start ≤ b.start)
    (disjoint : ∀ i, a.covers i = true → b.covers i = false) : a.Precedes b := by
  intro i j ha hb
  refine Nat.lt_of_not_le fun late => ?_
  have inside := covers_iff.mp ha
  have behind := covers_iff.mp hb
  have both : a.covers j = true := covers_iff.mpr (by omega)
  rw [disjoint j both] at hb
  cases hb

theorem covers_shift (span : Span) (offset index : Nat) :
    (span.shift offset).covers index = (decide (offset ≤ index) && span.covers (index - offset)) := by
  rw [Bool.eq_iff_iff, Bool.and_eq_true, covers_iff, covers_iff, decide_eq_true_iff]
  simp only [shift]
  omega

theorem length_slice {span : Span} {text : Text} (inside : span.stop ≤ text.length) :
    (span.slice text).length = span.length := by
  rw [slice_eq, List.length_drop, List.length_take, Nat.min_eq_left inside, length]

end Span

namespace Text

/-- The characters of a text at the lit places, if its first character stands at `place`. -/
def lit (lights : Nat → Bool) : Nat → Text → Text
  | _, [] => []
  | place, c :: rest =>
    if lights place then c :: lit lights (place + 1) rest else lit lights (place + 1) rest

/-- The characters of a text that stand over a one of a line of marks. -/
def marked (marks text : Text) : Text :=
  ((text.zip marks).filter fun entry => entry.2 == '1').map (·.1)

variable {lights near far : Nat → Bool} {place : Nat} {text : Text}

theorem lit_eq_nil (dark : ∀ index, place ≤ index → lights index = false) :
    lit lights place text = [] := by
  induction text generalizing place with
  | nil => rfl
  | cons c rest ih =>
      rw [lit, dark place (Nat.le_refl _), if_neg Bool.false_ne_true]
      exact ih fun index low => dark index (Nat.le_of_succ_le low)

/-- Lights of which the ones stand before the others are taken one after the other. -/
theorem lit_or (order : ∀ i j, near i = true → far j = true → i < j) :
    lit (fun index => near index || far index) place text =
      lit near place text ++ lit far place text := by
  induction text generalizing place with
  | nil => rfl
  | cons c rest ih =>
      rw [lit, lit, lit, ih]
      cases first : near place with
      | true =>
          have dark : far place = false := Bool.eq_false_iff.mpr fun second =>
            Nat.lt_irrefl _ (order place place first second)
          rw [dark]
          rfl
      | false =>
          cases second : far place with
          | false => rfl
          | true =>
              -- From here on nothing is lit by the nearer lights.
              have spent : lit near (place + 1) rest = [] := lit_eq_nil fun index late =>
                Bool.eq_false_iff.mpr fun early => by
                  have := order index place early second
                  omega
              rw [spent]
              rfl

theorem lit_covers (span : Span) (place : Nat) (text : Text) :
    lit span.covers place text = (text.take (span.stop - place)).drop (span.start - place) := by
  induction text generalizing place with
  | nil => rw [lit, List.take_nil, List.drop_nil]
  | cons c rest ih =>
      rw [lit, ih]
      by_cases before : span.stop ≤ place
      · have dark : span.covers place = false :=
          Bool.eq_false_iff.mpr fun covered => by
            have := Span.covers_iff.mp covered
            omega
        rw [dark, if_neg Bool.false_ne_true, Nat.sub_eq_zero_of_le before,
          Nat.sub_eq_zero_of_le (Nat.le_succ_of_le before), List.take_zero, List.take_zero,
          List.drop_nil, List.drop_nil]
      · have room : span.stop - place = span.stop - (place + 1) + 1 := by omega
        rw [room, List.take_succ_cons]
        by_cases reached : span.start ≤ place
        · rw [if_pos (Span.covers_iff.mpr ⟨reached, Nat.lt_of_not_le before⟩),
            Nat.sub_eq_zero_of_le reached, Nat.sub_eq_zero_of_le (Nat.le_succ_of_le reached)]
          rfl
        · have dark : span.covers place = false :=
            Bool.eq_false_iff.mpr fun covered => reached (Span.covers_iff.mp covered).1
          have ahead : span.start - place = span.start - (place + 1) + 1 := by omega
          rw [dark, if_neg Bool.false_ne_true, ahead, List.drop_succ_cons]

theorem slice_eq_lit (span : Span) (text : Text) : span.slice text = lit span.covers 0 text := by
  rw [lit_covers, Span.slice_eq]
  rfl

/-- Under spans that keep their order the lit characters are their slices one after the other. -/
theorem lit_any_covers {spans : List Span} (order : spans.Pairwise Span.Precedes) (text : Text) :
    lit (fun index => spans.any (·.covers index)) 0 text =
      spans.flatMap fun span => span.slice text := by
  induction spans with
  | nil => exact lit_eq_nil fun _ _ => rfl
  | cons span later ih =>
      obtain ⟨first, rest⟩ := List.pairwise_cons.mp order
      rw [List.flatMap_cons, slice_eq_lit, ← ih rest]
      refine lit_or fun i j here there => ?_
      obtain ⟨other, mem, covered⟩ := List.any_eq_true.mp there
      exact first other mem i j here covered

theorem marked_eq_lit (lights : Nat → Bool) (place : Nat) (text : Text) :
    marked ((List.range' place text.length).map fun index => if lights index then '1' else '0')
      text = lit lights place text := by
  induction text generalizing place with
  | nil => rfl
  | cons c rest ih =>
      rw [lit, ← ih, List.length_cons, List.range'_succ, List.map_cons]
      cases lights place <;> rfl

theorem length_marked {marks text : Text} (same : text.length = marks.length) :
    (marked marks text).length = marks.count '1' := by
  have seconds : (text.zip marks).map Prod.snd = marks := List.map_snd_zip (Nat.le_of_eq same.symm)
  rw [marked, List.length_map, ← List.countP_eq_length_filter, List.count, ← seconds,
    List.countP_map, seconds]
  rfl

end Text

namespace Mask

variable (length : Nat) (spans : List Span)

theorem highlight_eq_map :
    highlight length spans = (List.range' 0 length).map fun index => spans.any (·.covers index) := by
  apply List.ext_getElem?
  intro index
  rw [getElem?_highlight, List.getElem?_map]
  split
  · rename_i inside
    rw [List.getElem?_range' inside, Nat.one_mul, Nat.zero_add, Option.map_some]
  · rename_i outside
    rw [List.getElem?_eq_none (by rw [List.length_range']; omega), Option.map_none]

/-- Shifting the spans of a longer text shifts the mask. -/
theorem highlight_shift (offset : Nat) :
    highlight (length + offset) (spans.map (Span.shift offset)) =
      List.replicate offset false ++ highlight length spans := by
  have shifted (index : Nat) : (spans.map (Span.shift offset)).any (·.covers index) =
      (decide (offset ≤ index) && spans.any (·.covers (index - offset))) := by
    simp only [List.any_map, Function.comp_def, Span.covers_shift, List.and_any_distrib_left]
  apply List.ext_getElem?
  intro index
  rw [getElem?_highlight, List.getElem?_append, List.length_replicate, getElem?_highlight, shifted]
  by_cases reached : offset ≤ index
  · rw [if_neg (Nat.not_lt.mpr reached), decide_eq_true reached, Bool.true_and]
    by_cases inside : index - offset < length
    · rw [if_pos inside, if_pos (by omega)]
    · rw [if_neg inside, if_neg (by omega)]
  · rw [if_pos (Nat.lt_of_not_le reached), decide_eq_false reached, Bool.false_and,
      if_pos (by omega), List.getElem?_replicate, if_pos (Nat.lt_of_not_le reached)]

theorem marked_highlight {text : Text} (same : text.length = length)
    (order : spans.Pairwise Span.Precedes) :
    Text.marked (highlight length spans).render text = spans.flatMap fun span => span.slice text := by
  subst same
  rw [← Text.lit_any_covers order, ← Text.marked_eq_lit, render, highlight_eq_map, List.map_map]
  rfl

/-- A rendered mask has one mark for each character, a one exactly where some span covers it and
zeros elsewhere. Shifting the spans of a longer text puts zeros in front and changes nothing else.
Over spans that are sorted and disjoint the characters at the ones are the slices of the spans one
after the other, so if no span runs past the end there are as many ones as the spans are long. -/
theorem marks_slices_and_shifts (length : Nat) (spans : List Span) :
    let marks := (highlight length spans).render
    marks.length = length ∧ (∀ mark ∈ marks, mark = '0' ∨ mark = '1') ∧
      (∀ index, marks[index]? = some '1' ↔
        index < length ∧ ∃ span ∈ spans, span.start ≤ index ∧ index < span.stop) ∧
      (∀ offset, (highlight (length + offset) (spans.map (Span.shift offset))).render =
        List.replicate offset '0' ++ marks) ∧
      (spans.Pairwise Span.Precedes →
        (∀ text : Text, text.length = length →
          Text.marked marks text = spans.flatMap fun span => span.slice text) ∧
        ((∀ span ∈ spans, span.stop ≤ length) →
          marks.count '1' = (spans.map Span.length).sum)) := by
  intro marks
  have size : marks.length = length := by rw [length_render, length_highlight]
  refine ⟨size, ?_, ?_, ?_, ?_⟩
  · intro mark mem
    obtain ⟨lit, -, rfl⟩ := List.mem_map.mp mem
    cases lit with
    | true => exact .inr rfl
    | false => exact .inl rfl
  · intro index
    simp only [marks, getElem?_render_highlight, Span.covers_iff]
  · intro offset
    rw [highlight_shift, render, List.map_append, List.map_replicate]
    rfl
  · intro order
    refine ⟨fun text same => marked_highlight length spans same order, fun inside => ?_⟩
    -- The marks are themselves a text of the right length.
    have slices := marked_highlight length spans size order
    have lengths : spans.map (fun span => (span.slice marks).length) = spans.map Span.length :=
      List.map_congr_left fun span mem => Span.length_slice (size.symm ▸ inside span mem)
    rw [← Text.length_marked rfl, slices, List.length_flatMap, lengths]

/-- A reversed span covers nothing, and neighbours may touch. -/
theorem marks_slices_and_shifts_ann_mary_lee :
    let spans : List Span := [⟨0, 1⟩, ⟨9, 3⟩, ⟨4, 8⟩, ⟨8, 11⟩]
    let name := "Ann-Mary Lee".toList
    let marks := (highlight 12 spans).render
    spans.Pairwise Span.Precedes ∧ (∀ span ∈ spans, span.stop ≤ 12) ∧
      Text.marked marks name = "AMary Le".toList ∧ marks.count '1' = 8 := by
  intro spans name marks
  have order : spans.Pairwise Span.Precedes := by decide
  have inside : ∀ span ∈ spans, span.stop ≤ 12 := by decide
  obtain ⟨-, -, -, -, ordered⟩ := marks_slices_and_shifts 12 spans
  obtain ⟨slices, ones⟩ := ordered order
  exact ⟨order, inside, (slices name rfl).trans (by decide), ones inside⟩

end Mask
end Keypad
