import Keypad.Proofs.Builtin.Json.Passing
import Keypad.Proofs.Builtin.Json.Stream.Numeral
import Keypad.Proofs.Builtin.Json.Stream.Quoted
import Mathlib.Data.Nat.Init

/-!
Values that are passed over, on a source that breaks off. What comes next behind blanks is the break,
or the same on both sides, or it has no meaning there on either side; the arrays and objects follow
by induction on what is left before the break.
-/
namespace Keypad.Json

open Source (Continues ne_of_wide isDigit_of_wide)

variable {cut whole : Source}

theorem colon_streams : Decoder.Streams colon := (Decoder.mark_streams (by decide)).follows

theorem skipLeaf_follows (h : Continues cut whole) (c : Char) :
    Follows Alike (skipLeaf c cut) (skipLeaf c whole) := by
  have word (more : String) (narrow : ∀ d ∈ more.toList, d.toNat < 0x80) :
      Follows Alike ((cut.expect more.toList).map (Scanned.of () c))
        ((whole.expect more.toList).map (Scanned.of () c)) :=
    (expect_follows h narrow).map fun _ _ continues => ⟨rfl, continues⟩
  rw [skipLeaf, skipLeaf]
  dsimp only
  split
  · exact (Quoted.skip_streams h).map fun _ _ alike => alike
  · split
    · exact word "ull" (by simp)
    · split
      · exact word "rue" (by simp)
      · split
        · exact word "alse" (by simp)
        · split
          · exact Numeral.skip_streams (.char c h)
          · exact .fault _

theorem skipLeaf_of_wide {c : Char} (wide : 0x80 ≤ c.toNat) (rest : Source) :
    skipLeaf c rest = .error .malformed := by
  simp [skipLeaf, ne_of_wide wide, isDigit_of_wide wide]

/-! ## Arrays and objects -/

theorem skipElements_eq (first : Bool) (source : Source) :
    skipElements first source = source.look fun c rest le =>
      if c = ']' ∧ first then .ok ((Scanned.of () c (.all rest)).within le)
      else (skipValue (.char c rest)).bind fun value => value.rest.look fun d later near =>
        if d = ']' then
          .ok ((((Scanned.of () d (.all later)).within near).after value.shorter).within le)
        else if d = ',' then
          (skipElements false later).map fun found =>
            (((found.behind d).within near).after value.shorter).within le
        else .error .malformed := by
  rw [skipElements, Source.look]
  rcases source.skipBlanks with ⟨ending | ⟨c, rest⟩ | ⟨byte, rest⟩, le⟩
  · rfl
  · dsimp only
    cases skipValue (.char c rest) <;> rfl
  · rfl

theorem skipMembers_eq (first : Bool) (source : Source) :
    skipMembers first source = source.look fun c rest le =>
      if c = '\x7d' ∧ first then .ok ((Scanned.of () c (.all rest)).within le)
      else if c = '"' then
        (Quoted.skip rest).bind fun name => (colon name.rest).bind fun marked =>
          (skipValue marked.rest).bind fun value =>
            let reach (found : Scanned Unit value.rest) : Scanned Unit source :=
              ((((found.after value.shorter).after marked.shorter).after name.shorter).behind
                c).within le
            value.rest.look fun d later near =>
              if d = '\x7d' then .ok (reach ((Scanned.of () d (.all later)).within near))
              else if d = ',' then
                (skipMembers false later).map fun found => reach ((found.behind d).within near)
              else .error .malformed
      else .error .malformed := by
  rw [skipMembers, Source.look]
  rcases source.skipBlanks with ⟨ending | ⟨c, rest⟩ | ⟨byte, rest⟩, le⟩
  · rfl
  · dsimp only
    cases Quoted.skip rest with
    | error fault => rfl
    | ok name =>
        dsimp only [Except.bind]
        cases colon name.rest with
        | error fault => rfl
        | ok marked =>
            dsimp only
            cases skipValue marked.rest <;> rfl
  · rfl

theorem skipFirst_of_wide {c : Char} (wide : 0x80 ≤ c.toNat) (rest : Source) :
    skipFirst c rest = .error .malformed := by
  rw [skipFirst, if_neg (ne_of_wide wide (by decide)), if_neg (ne_of_wide wide (by decide)),
    skipLeaf_of_wide wide]

theorem skipValue_of_wide {c : Char} (wide : 0x80 ≤ c.toNat) (rest : Source) :
    skipValue (.char c rest) = .error .malformed := by
  rw [skipValue_eq]
  exact Decoder.ofFirst_of_wide wide (skipFirst_of_wide wide rest)

/-- What passes over values, elements and members is not misled on sources of some length at most. -/
structure SkipsStream (size : Nat) : Prop where
  value : ∀ {cut whole : Source}, cut.length ≤ size → Continues cut whole →
    Follows Alike (skipValue cut) (skipValue whole)
  elements : ∀ (first : Bool) {cut whole : Source}, cut.length ≤ size → Continues cut whole →
    Follows Alike (skipElements first cut) (skipElements first whole)
  members : ∀ (first : Bool) {cut whole : Source}, cut.length ≤ size → Continues cut whole →
    Follows Alike (skipMembers first cut) (skipMembers first whole)

section Rows

variable {size : Nat} (rows : ∀ smaller < size, SkipsStream smaller)

include rows

/-- A value is as well-behaved as the rows in it, which are shorter. -/
theorem skipValue_follows (fits : cut.length ≤ size) (h : Continues cut whole) :
    Follows Alike (skipValue cut) (skipValue whole) := by
  rw [skipValue_eq]
  refine look_follows h (fun c rest rest' le le' h => ?_) (fun c rest le wide => ?_)
  · refine Follows.map ?_ fun _ _ alike => alike
    have inner := rows _ (Nat.lt_of_lt_of_le (Source.length_lt_of_char le) fits)
    rw [skipFirst, skipFirst]
    split
    · exact (inner.elements true (Nat.le_refl _) h).map fun _ _ alike => alike
    · split
      · exact (inner.members true (Nat.le_refl _) h).map fun _ _ alike => alike
      · exact skipLeaf_follows h c
  · rw [skipFirst_of_wide wide]
    rfl

theorem skipElements_follows (fits : cut.length ≤ size) (first : Bool) (h : Continues cut whole) :
    Follows Alike (skipElements first cut) (skipElements first whole) := by
  rw [skipElements_eq first cut, skipElements_eq first whole]
  refine look_follows h (fun c rest rest' le le' h => ?_) (fun c rest le wide => ?_)
  · split
    · exact .found ⟨rfl, h⟩
    · refine (skipValue_follows rows (Nat.le_trans le fits) (.char c h)).bind ?_
      rintro value value' ⟨-, h⟩
      refine look_follows h (fun d later later' near near' h => ?_) (fun d later near wide => ?_)
      · have left := Nat.lt_trans (Source.length_lt_of_char near) value.shorter
        have inner := rows _ (Nat.lt_of_lt_of_le left (Nat.le_trans le fits))
        split
        · exact .found ⟨rfl, h⟩
        · split
          · exact (inner.elements false (Nat.le_refl _) h).map fun _ _ alike => alike
          · exact .fault _
      · rw [if_neg (ne_of_wide wide (by decide)), if_neg (ne_of_wide wide (by decide))]
  · rw [if_neg fun closing => ne_of_wide wide (by decide) closing.1, skipValue_of_wide wide]
    rfl

theorem skipMembers_follows (fits : cut.length ≤ size) (first : Bool) (h : Continues cut whole) :
    Follows Alike (skipMembers first cut) (skipMembers first whole) := by
  rw [skipMembers_eq first cut, skipMembers_eq first whole]
  refine look_follows h (fun c rest rest' le le' h => ?_) (fun c rest le wide => ?_)
  · split
    · exact .found ⟨rfl, h⟩
    · split
      · refine (Quoted.skip_streams h).bind ?_
        rintro name name' ⟨-, h⟩
        refine (colon_streams h).bind ?_
        rintro marked marked' ⟨-, h⟩
        have left := Nat.lt_of_lt_of_le (Nat.lt_trans marked.shorter (Nat.lt_trans name.shorter
          (Source.length_lt_of_char le))) fits
        refine (skipValue_follows rows (Nat.le_of_lt left) h).bind ?_
        rintro value value' ⟨-, h⟩
        refine look_follows h (fun d later later' near near' h => ?_) (fun d later near wide => ?_)
        · have fewer := Nat.lt_trans (Source.length_lt_of_char near) value.shorter
          have inner := rows _ (Nat.lt_trans fewer left)
          split
          · exact .found ⟨rfl, h⟩
          · split
            · exact (inner.members false (Nat.le_refl _) h).map fun _ _ alike => alike
            · exact .fault _
        · rw [if_neg (ne_of_wide wide (by decide)), if_neg (ne_of_wide wide (by decide))]
      · exact .fault _
  · rw [if_neg fun closing => ne_of_wide wide (by decide) closing.1,
      if_neg (ne_of_wide wide (by decide))]

end Rows

theorem skipsStream (size : Nat) : SkipsStream size := by
  induction size using Nat.strongRecOn with
  | ind size rows =>
      exact ⟨skipValue_follows rows, fun first _ _ fits => skipElements_follows rows fits first,
        fun first _ _ fits => skipMembers_follows rows fits first⟩

theorem skipValue_streams : Decoder.Streams skipValue :=
  fun h => (skipsStream _).value (Nat.le_refl _) h

end Keypad.Json
