import Keypad.Span

/-!
The characters under a span. Spans that touch cover together what the span over both covers, and a
span over the middle part of a text covers just that part. A mask is lit just where one of its spans
covers a character.
-/
namespace Keypad.Span

theorem covers_iff {span : Span} {index : Nat} :
    span.covers index = true ↔ span.start ≤ index ∧ index < span.stop := by
  rw [covers, Bool.and_eq_true, decide_eq_true_iff, decide_eq_true_iff]

theorem slice_eq (span : Span) (text : Text) :
    span.slice text = (text.take span.stop).drop span.start := by
  have clipped : text.take (min span.stop text.length) = text.take span.stop :=
    List.take_eq_take_min.symm
  change (text.take (min span.stop text.length)).drop _ = _
  rw [clipped]
  by_cases inside : span.start ≤ min span.stop text.length
  · rw [Nat.min_eq_left inside]
  · have short : (text.take span.stop).length = min span.stop text.length := List.length_take
    rw [Nat.min_eq_right (by omega), List.drop_eq_nil_iff.mpr (by omega),
      List.drop_eq_nil_iff.mpr (by omega)]

theorem slice_append {start middle stop : Nat} (text : Text) (before : start ≤ middle)
    (after : middle ≤ stop) :
    Span.slice ⟨start, middle⟩ text ++ Span.slice ⟨middle, stop⟩ text =
      Span.slice ⟨start, stop⟩ text := by
  have cut : text.take middle = (text.take stop).take middle := by
    rw [List.take_take, Nat.min_eq_left after]
  have rest : (text.take stop).drop middle =
      ((text.take stop).drop start).drop (middle - start) := by
    rw [List.drop_drop, Nat.add_sub_cancel' before]
  rw [slice_eq, slice_eq, slice_eq, cut, rest, List.drop_take, List.take_append_drop]

theorem slice_middle (before middle behind : Text) :
    Span.slice ⟨before.length, before.length + middle.length⟩ (before ++ (middle ++ behind)) =
      middle := by
  rw [slice_eq, List.take_length_add_append, List.take_left, List.drop_left]

end Keypad.Span

namespace Keypad.Mask

theorem foldl_light (spans : List Span) (mask : Mask) :
    spans.foldl light mask = mask.mapIdx fun index lit => lit || spans.any (·.covers index) := by
  induction spans generalizing mask with
  | nil => exact List.ext_getElem? fun index => by simp
  | cons span later ih =>
      rw [List.foldl_cons, ih, light, List.mapIdx_mapIdx]
      simp only [Function.comp_def, List.any_cons, Bool.or_assoc]

theorem length_highlight (length : Nat) (spans : List Span) :
    (highlight length spans).length = length := by
  rw [highlight, foldl_light, List.length_mapIdx, List.length_replicate]

theorem getElem?_highlight (length : Nat) (spans : List Span) (index : Nat) :
    (highlight length spans)[index]? =
      if index < length then some (spans.any (·.covers index)) else none := by
  rw [highlight, foldl_light, List.getElem?_mapIdx, List.getElem?_replicate]
  split <;> simp

theorem length_render (mask : Mask) : mask.render.length = mask.length := List.length_map _

theorem getElem?_render_highlight (length : Nat) (spans : List Span) (index : Nat) :
    (highlight length spans).render[index]? = some '1' ↔
      index < length ∧ ∃ span ∈ spans, span.covers index = true := by
  rw [render, List.getElem?_map, getElem?_highlight, ← List.any_eq_true]
  split
  · rename_i inside
    cases spans.any (·.covers index) <;> simp [inside]
  · rename_i outside
    simp [outside]

end Keypad.Mask
