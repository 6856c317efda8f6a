import Keypad.Builtin.Json.Record
import Keypad.Proofs.Builtin.Json.Stream.Skip

/-!
Lists and records on a source that breaks off. A value of the wrong kind is refused alike on both
sides, once it is known to be one. A text that is read as a whole is never accepted when it breaks
off: behind the value, too, the end of the text is wanted.
-/
namespace Keypad.Json

open Source (Continues ne_of_wide isDigit_of_wide)

variable {α β : Type} {cut whole : Source}

namespace Decoder

/-! ## Refusals -/

theorem orMismatch_follows {related : α → β → Prop} {result : Except Fault α}
    {result' : Except Fault β} (h : Follows related result result') :
    orMismatch result = .unreadable ∨ orMismatch result = orMismatch result' := by
  cases h with
  | broken => exact .inl rfl
  | fault fault => exact .inr rfl
  | found => exact .inr rfl

theorem refusal_of_wide {c : Char} (wide : 0x80 ≤ c.toNat) (rest : Source) :
    refusal c rest = .malformed := by
  simp [refusal, ne_of_wide wide, isDigit_of_wide wide]

theorem refusal_char (h : Continues cut whole) (c : Char) :
    refusal c cut = .unreadable ∨ refusal c cut = refusal c whole := by
  rw [refusal, refusal]
  split
  · exact orMismatch_follows (expect_follows h (by simp))
  · split
    · exact orMismatch_follows (expect_follows h (by simp))
    · split
      · exact orMismatch_follows (expect_follows h (by simp))
      · split
        · exact orMismatch_follows (Quoted.read_streams h)
        · split
          · exact orMismatch_follows (Numeral.read_streams (.char c h))
          · exact .inr rfl

theorem refuses (h : Continues cut whole) (c : Char) {related : α → β → Prop} :
    Follows related (.error (refusal c cut)) (.error (refusal c whole)) := by
  rcases refusal_char h c with broken | same
  · rw [broken]
    exact .broken _
  · rw [same]
    exact .fault _

/-! ## Basic types -/

theorem bool_streams : bool.StreamsValues := by
  refine ofFirst_streams (fun c rest rest' h => ?_) (fun c rest wide => ?_)
  · split
    · exact (expect_follows h (by simp)).map fun _ _ continues => ⟨rfl, continues⟩
    · split
      · exact (expect_follows h (by simp)).map fun _ _ continues => ⟨rfl, continues⟩
      · exact refuses h c
  · rw [if_neg (ne_of_wide wide (by decide)), if_neg (ne_of_wide wide (by decide)),
      refusal_of_wide wide]

theorem count_streams : count.StreamsValues := by
  refine ofFirst_streams (fun c rest rest' h => ?_) (fun c rest wide => ?_)
  · split
    · have numeral := Numeral.read_streams (.char c h)
      generalize Numeral.read (.char c rest) = result, Numeral.read (.char c rest') = result'
        at numeral
      cases numeral with
      | broken => exact .broken _
      | fault fault => exact .fault fault
      | @found found found' alike =>
          dsimp only
          rw [← alike.1]
          cases found.value.count? with
          | none => exact .fault _
          | some n => exact .found ⟨rfl, alike.2⟩
    · exact refuses h c
  · rw [if_neg (by simp [ne_of_wide wide, isDigit_of_wide wide]), refusal_of_wide wide]

theorem text_streams : text.StreamsValues := by
  refine ofFirst_streams (fun c rest rest' h => ?_) (fun c rest wide => ?_)
  · split
    · exact (Quoted.read_streams h).map fun _ _ alike => alike
    · exact refuses h c
  · rw [if_neg (ne_of_wide wide (by decide)), refusal_of_wide wide]

theorem optional_streams {decoder : Decoder α} (streams : decoder.StreamsValues) :
    (Decoder.optional decoder).StreamsValues := by
  refine ofFirst_streams (fun c rest rest' h => ?_) (fun c rest wide => ?_)
  · split
    · exact (expect_follows h (by simp)).map fun _ _ continues => ⟨rfl, continues⟩
    · exact (streams.follows (.char c h)).map fun _ _ alike => ⟨congrArg some alike.1, alike.2⟩
  · rw [if_neg (ne_of_wide wide (by decide)), streams.wide c rest wide]
    rfl

/-! ## Lists -/

/-- The same comes next in an array on both sides. -/
inductive NextAlike : Next cut → Next whole → Prop where
  | close {closed : Scanned Unit cut} {closed' : Scanned Unit whole} (h : Alike closed closed') :
      NextAlike (.close closed) (.close closed')
  | element {left : Remainder cut} {left' : Remainder whole} (h : AlikeLeft left left') :
      NextAlike (.element left) (.element left')

/-- What is done with the next element is done alike on both sides. An element that starts with a
wide character is refused as what it is, which a break inside that character does not change. -/
theorem nextElement_follows (first : Bool) (h : Continues cut whole) {related : α → β → Prop}
    {next : Next cut → Except Fault α} {next' : Next whole → Except Fault β}
    (same : ∀ a b, NextAlike a b → Follows related (next a) (next' b))
    (wide : ∀ c rest le, 0x80 ≤ c.toNat → next' (.element ⟨.char c rest, le⟩) = .error .malformed) :
    Follows related ((nextElement first cut).bind next)
      ((nextElement first whole).bind next') := by
  rw [nextElement, nextElement, Source.look_bind, Source.look_bind]
  refine look_follows h (fun c rest rest' le le' h => ?_) (fun c rest le high => ?_)
  · split
    · exact same _ _ (.close ⟨rfl, h⟩)
    · split
      · exact same _ _ (.element (.char c h))
      · split
        · rw [Source.look_bind, Source.look_bind]
          refine look_follows h (fun d later later' near near' h => ?_)
            (fun d later near high => ?_)
          · split
            · exact .fault _
            · exact same _ _ (.element (.char d h))
          · rw [if_neg (ne_of_wide high (by decide))]
            exact wide d later _ high
        · exact .fault _
  · rw [if_neg (ne_of_wide high (by decide)), if_neg (ne_of_wide high (by decide))]
    split
    · exact wide c rest le high
    · rfl

theorem elements_eq (decoder : Decoder α) (first : Bool) (source : Source) :
    elements decoder first source = (nextElement first source).bind fun next =>
      match next with
      | .close closed => .ok (closed.map fun _ => [])
      | .element left => (decoder left.rest).bind fun found =>
          (elements decoder false found.rest).map fun more =>
            ((more.map (found.value :: ·)).after found.shorter).within left.le := by
  rw [elements]
  cases nextElement first source with
  | error fault => rfl
  | ok next =>
      cases next with
      | close closed => rfl
      | element left =>
          dsimp only [Except.bind]
          cases decoder left.rest <;> rfl

theorem elements_follows {decoder : Decoder α} (streams : decoder.StreamsValues) (first : Bool)
    (h : Continues cut whole) :
    Follows Alike (elements decoder first cut) (elements decoder first whole) := by
  induction size : cut.length using Nat.strongRecOn generalizing cut whole first with
  | ind n ih =>
      rw [elements_eq decoder first cut, elements_eq decoder first whole]
      refine nextElement_follows first h ?_ ?_
      · rintro next next' (alike | @⟨left, left', alike⟩)
        · exact .found ⟨rfl, alike.2⟩
        · refine (streams.follows alike).bind ?_
          rintro found found' ⟨same, continues⟩
          have shorter : found.rest.length < n :=
            size ▸ Nat.lt_of_lt_of_le found.shorter left.le
          refine (ih _ shorter false continues rfl).map fun more more' alike => ?_
          exact ⟨by rw [same]; exact congrArg _ alike.1, alike.2⟩
      · intro c rest le wide
        dsimp only
        rw [streams.wide c rest wide]
        rfl

theorem list_streams {decoder : Decoder α} (streams : decoder.StreamsValues) :
    (list decoder).StreamsValues := by
  refine ofFirst_streams (fun c rest rest' h => ?_) (fun c rest wide => ?_)
  · split
    · exact (elements_follows streams true h).map fun _ _ alike => alike
    · exact refuses h c
  · rw [if_neg (ne_of_wide wide (by decide)), refusal_of_wide wide]

/-! ## Whole texts -/

/-- A text that breaks off is never accepted: the break is met, or a fault that every continuation
meets. -/
theorem Streams.run {decoder : Decoder α} (streams : decoder.Streams) (h : Continues cut whole) :
    decoder.run cut = .error .unreadable ∨
      ∃ fault, decoder.run cut = .error fault ∧ decoder.run whole = .error fault := by
  have follows := streams h
  rw [Decoder.run, Decoder.run]
  generalize decoder cut = result, decoder whole = result' at follows
  cases follows with
  | broken => exact .inl rfl
  | fault fault => exact .inr ⟨fault, rfl, rfl⟩
  | @found found found' alike =>
      have ahead := skipBlanks_continues alike.2
      dsimp only
      generalize found.rest.skipBlanks.rest = next, found'.rest.skipBlanks.rest = next' at ahead
      cases ahead with
      | broken => exact .inl rfl
      | char | stray | completed => exact .inr ⟨.malformed, rfl, rfl⟩

end Decoder

/-! ## Records -/

theorem Kind.decoder_streams (kind : Kind) : kind.decoder.StreamsValues := by
  cases kind with
  | flag => exact Decoder.bool_streams
  | count => exact Decoder.count_streams
  | text => exact Decoder.text_streams
  | optionalText => exact Decoder.optional_streams Decoder.text_streams

namespace Record

variable {record : Record α}

theorem closeArray_streams : Decoder.Streams closeArray :=
  (Decoder.mark_streams (by decide)).follows

/-- What a record comes to does not depend on the source. -/
theorem finish_follows (found : Partial α) :
    Follows Eq (record.finish found) (record.finish found) := by
  cases record.finish found with
  | error fault => exact .fault fault
  | ok value => exact .found rfl

theorem decodeElements_follows (fields : List (Field α)) (found : Partial α) (first : Bool)
    (h : Continues cut whole) :
    Follows Alike (record.decodeElements found fields first cut)
      (record.decodeElements found fields first whole) := by
  induction fields generalizing cut whole found first with
  | nil =>
      rw [decodeElements, decodeElements]
      refine (finish_follows found).bind ?_
      rintro value _ rfl
      exact (closeArray_streams h).map fun _ _ alike => ⟨rfl, alike.2⟩
  | cons field later ih =>
      have streams := field.kind.decoder_streams
      rw [decodeElements, decodeElements]
      refine Decoder.nextElement_follows first h ?_ ?_
      · rintro next next' (alike | @⟨left, left', alike⟩)
        · refine (finish_follows found).bind ?_
          rintro value _ rfl
          exact .found ⟨rfl, alike.2⟩
        · refine (streams.follows alike).bind ?_
          rintro data data' ⟨same, continues⟩
          rw [← same]
          refine (ih _ false continues).bind ?_
          rintro final final' alike
          exact .found alike
      · intro c rest le wide
        dsimp only
        rw [streams.wide c rest wide]
        rfl

/-- The same comes next in an object on both sides. -/
inductive NextAlike : NextMember cut → NextMember whole → Prop where
  | close {closed : Scanned Unit cut} {closed' : Scanned Unit whole} (h : Alike closed closed') :
      NextAlike (.close closed) (.close closed')
  | name {name : Scanned Text cut} {name' : Scanned Text whole} (h : Alike name name') :
      NextAlike (.name name) (.name name')

theorem nextMember_follows (first : Bool) (h : Continues cut whole) :
    Follows NextAlike (nextMember first cut) (nextMember first whole) := by
  refine look_follows h (fun c rest rest' le le' h => ?_) (fun c rest le wide => ?_)
  · split
    · exact .found (.close ⟨rfl, h⟩)
    · split
      · split
        · exact (Quoted.read_streams h).map fun _ _ alike => .name alike
        · exact .fault _
      · split
        · split
          · exact .fault _
          · refine look_follows h (fun d later later' near near' h => ?_)
              (fun d later near wide => ?_)
            · split
              · exact (Quoted.read_streams h).map fun _ _ alike => .name alike
              · exact .fault _
            · rw [if_neg (ne_of_wide wide (by decide))]
        · exact .fault _
  · rw [if_neg (ne_of_wide wide (by decide)), if_neg (ne_of_wide wide (by decide)),
      if_neg (ne_of_wide wide (by decide))]

theorem decodeMembers_eq (record : Record α) (found : Partial α) (first : Bool) (source : Source) :
    record.decodeMembers found first source = (nextMember first source).bind fun next =>
      match next with
      | .close closed => (record.finish found).map fun value => closed.map fun _ => value
      | .name name =>
        match record.fields.find? (·.name == name.value) with
        | some field =>
          if found.given.contains name.value then .error .mismatched
          else (colon name.rest).bind fun marked =>
            (field.kind.decoder marked.rest).bind fun data =>
              (decodeMembers record (found.give field data.value) false data.rest).map
                fun final => ((final.after data.shorter).after marked.shorter).after name.shorter
        | none => (colon name.rest).bind fun marked => (skipValue marked.rest).bind fun value =>
            (decodeMembers record found false value.rest).map fun final =>
              ((final.after value.shorter).after marked.shorter).after name.shorter := by
  rw [decodeMembers]
  cases nextMember first source with
  | error fault => rfl
  | ok next =>
      cases next with
      | close closed => rfl
      | name name =>
          dsimp only [Except.bind]
          cases record.fields.find? (·.name == name.value) with
          | some field =>
              dsimp only
              split
              · rfl
              · cases colon name.rest with
                | error fault => rfl
                | ok marked =>
                    dsimp only
                    cases field.kind.decoder marked.rest <;> rfl
          | none =>
              dsimp only
              cases colon name.rest with
              | error fault => rfl
              | ok marked =>
                  dsimp only
                  cases skipValue marked.rest <;> rfl

theorem decodeMembers_follows (found : Partial α) (first : Bool) (h : Continues cut whole) :
    Follows Alike (record.decodeMembers found first cut)
      (record.decodeMembers found first whole) := by
  induction size : cut.length using Nat.strongRecOn generalizing cut whole found first with
  | ind n ih =>
      rw [decodeMembers_eq record found first cut, decodeMembers_eq record found first whole]
      refine (nextMember_follows first h).bind ?_
      rintro next next' (alike | @⟨name, name', same, continues⟩)
      · refine (finish_follows found).map ?_
        rintro value _ rfl
        exact ⟨rfl, alike.2⟩
      · dsimp only
        rw [← same]
        cases known : record.fields.find? (·.name == name.value) with
        | some field =>
            dsimp only
            split
            · exact .fault _
            · refine (colon_streams continues).bind ?_
              rintro marked marked' ⟨-, continues⟩
              refine (field.kind.decoder_streams.follows continues).bind ?_
              rintro data data' ⟨same, continues⟩
              rw [← same]
              have shorter := Nat.lt_trans data.shorter (Nat.lt_trans marked.shorter name.shorter)
              exact (ih _ (size ▸ shorter) _ false continues rfl).map fun _ _ alike => alike
        | none =>
            dsimp only
            refine (colon_streams continues).bind ?_
            rintro marked marked' ⟨-, continues⟩
            refine (skipValue_streams continues).bind ?_
            rintro value value' ⟨-, continues⟩
            have shorter := Nat.lt_trans value.shorter (Nat.lt_trans marked.shorter name.shorter)
            exact (ih _ (size ▸ shorter) _ false continues rfl).map fun _ _ alike => alike

theorem decode_streams (record : Record α) : record.decode.StreamsValues := by
  refine Decoder.ofFirst_streams (fun c rest rest' h => ?_) (fun c rest wide => ?_)
  · split
    · exact (decodeElements_follows record.fields _ true h).map fun _ _ alike => alike
    · split
      · exact (decodeMembers_follows _ true h).map fun _ _ alike => alike
      · exact Decoder.refuses h c
  · rw [if_neg (ne_of_wide wide (by decide)), if_neg (ne_of_wide wide (by decide)),
      Decoder.refusal_of_wide wide]

end Record
end Keypad.Json
