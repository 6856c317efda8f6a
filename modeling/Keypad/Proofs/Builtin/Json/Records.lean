import Keypad.Builtin.Json.Record
import Keypad.Proofs.Builtin.Json.Passing
import Keypad.Proofs.Json.Codec

/-!
Records and lists are read from every text that describes them: the members of an object in any
order, with any blanks and with members that the record does not know, the elements of an array from
the first field on, and the records of a list one after the other. A field that is given twice is
refused at its second name.
-/
namespace Keypad.Json

open Source (before before_cons before_append meets_behind look_eq)
open Grammar (Blank Spells Head IsValue Further Row)
open Decoder (Restores restores_ofFirst reads_ofFirst reads_mark isBlank_opener opener_ne)

/-! ## Fields -/

theorem text_restores {written text : Text} (h : IsString written text) :
    Decoder.text.Restores written text := by
  obtain ⟨body, spells, rfl⟩ := h
  refine restores_ofFirst (by decide) fun rest _ => ?_
  rw [before_append, if_pos rfl]
  exact (Quoted.reads_body spells rest).through fun _ => ⟨_, rfl⟩

theorem Kind.Denotes.restores {kind : Kind} {written : Text} {data : kind.Data}
    (h : kind.Denotes written data) : kind.decoder.Restores written data := by
  cases kind with
  | flag =>
      obtain rfl : written = _ := h
      exact Decoder.bool_restores data
  | count =>
      obtain ⟨range, rfl⟩ := h
      exact Decoder.count_restores range
  | text => exact text_restores h
  | optionalText =>
      cases data with
      | none =>
          obtain rfl : written = _ := h
          exact Decoder.optional_restores_none
      | some text =>
          have restores := text_restores h
          obtain ⟨body, spells, rfl⟩ := h
          exact restores.optional

/-! ## Outcomes -/

/-- A scan ends as told: with a value and a given rest, or with a fault. -/
def Answers {α : Type} {source : Source} (scan : Except Fault (Scanned α source))
    (outcome : Except Fault α) (rest : Source) : Prop :=
  match outcome with
  | .ok value => Reads scan value rest
  | .error fault => scan = .error fault

theorem Answers.through {α : Type} {part source rest : Source} {outcome : Except Fault α}
    {scan : Except Fault (Scanned α part)} {f : Scanned α part → Scanned α source}
    (h : Answers scan outcome rest)
    (keeps : ∀ found, (f found).value = found.value ∧ (f found).rest = found.rest) :
    Answers (scan.map f) outcome rest := by
  cases outcome with
  | error fault =>
      change scan = .error fault at h
      rw [h]
      rfl
  | ok value =>
      have read : Reads scan value rest := h
      refine read.through fun shorter => ?_
      obtain ⟨same, left⟩ := keeps ⟨value, rest, shorter⟩
      generalize f ⟨value, rest, shorter⟩ = carried at same left
      obtain ⟨_, _, closer⟩ := carried
      cases same
      cases left
      exact ⟨closer, rfl⟩

theorem answers_ofFirst {α : Type}
    {scan : (c : Char) → (rest : Source) → Except Fault (Scanned α (.char c rest))}
    {source rest left : Source} {c : Char} {outcome : Except Fault α} (met : source.Meets c rest)
    (h : Answers (scan c rest) outcome left) :
    Answers (Decoder.ofFirst scan source) outcome left := by
  obtain ⟨le, met⟩ := met
  rw [Decoder.ofFirst, look_eq met]
  exact h.through fun _ => ⟨rfl, rfl⟩

/-- A decoder reads a text between blanks as told. -/
theorem Answers.run {α : Type} {decoder : Decoder α} {front text back : Text}
    {outcome : Except Fault α} (blank : Blank back)
    (h : ∀ rest, rest.Ends → Answers (decoder (before front (before text rest))) outcome rest) :
    decoder.run (.ofText (front ++ (text ++ back))) = outcome := by
  have ends : (before back (.stop .finished)).Ends := by
    cases back with
    | nil => exact .finished
    | cons c back => exact .blank _ (blank c List.mem_cons_self)
  have read := h _ ends
  rw [Decoder.run, Source.ofText, before_append, before_append]
  cases outcome with
  | error fault =>
      change decoder _ = .error fault at read
      rw [read]
  | ok value =>
      obtain ⟨_, read⟩ := read
      obtain ⟨_, behind⟩ := Source.skipBlanks_before blank (.stop .finished)
      rw [read]
      simp only [behind]
      rfl

namespace Record

variable {α : Type} {record : Record α} {found : Partial α}

/-! ## Objects -/

/-- What stands before a member: nothing but blanks, or a comma with blanks around it. -/
theorem nextMember_first {blanks body name : Text} (h : Blank blanks) (spells : Spells body name)
    (tail : Source) :
    ∃ lt, nextMember true (before blanks (.char '"' (before body (.char '"' tail)))) =
      .ok (.name ⟨name, tail, lt⟩) := by
  obtain ⟨_, met⟩ := meets_behind h (c := '"') rfl (before body (.char '"' tail))
  obtain ⟨_, read⟩ := Quoted.reads_body spells tail
  rw [nextMember, look_eq met, if_neg (by decide), if_pos rfl, if_pos rfl, read]
  exact ⟨_, rfl⟩

theorem nextMember_later {front blanks body name : Text} (h : Blank front) (h' : Blank blanks)
    (spells : Spells body name) (tail : Source) :
    ∃ lt, nextMember false (before front (.char ',' (before blanks
      (.char '"' (before body (.char '"' tail)))))) = .ok (.name ⟨name, tail, lt⟩) := by
  obtain ⟨_, comma⟩ := meets_behind h (c := ',') rfl
    (before blanks (.char '"' (before body (.char '"' tail))))
  obtain ⟨_, met⟩ := meets_behind h' (c := '"') rfl (before body (.char '"' tail))
  obtain ⟨_, read⟩ := Quoted.reads_body spells tail
  rw [nextMember, look_eq comma, if_neg (by decide), if_neg (by decide), if_pos rfl,
    if_neg (by decide), look_eq met, if_pos rfl, read]
  exact ⟨_, rfl⟩

theorem nextMember_end {blanks : Text} (h : Blank blanks) (first : Bool) (rest : Source) :
    ∃ lt, nextMember first (before blanks (.char '\x7d' rest)) = .ok (.close ⟨(), rest, lt⟩) := by
  obtain ⟨_, met⟩ := meets_behind h (c := '\x7d') rfl rest
  rw [nextMember, look_eq met, if_pos rfl]
  exact ⟨_, rfl⟩

/-- Names tell fields apart, so a field is found by its name. -/
theorem find?_field {field : Field α} (known : field ∈ record.fields) :
    record.fields.find? (·.name == field.name) = some field := by
  obtain ⟨earlier, later, split⟩ := List.append_of_mem known
  have distinct := record.distinct
  rw [split, List.map_append, List.nodup_append] at distinct
  have passed : earlier.find? (·.name == field.name) = none := by
    rw [List.find?_eq_none]
    intro other mem same
    exact distinct.2.2 _ (List.mem_map_of_mem mem) _ List.mem_cons_self (eq_of_beq same)
  rw [split, List.find?_append, passed, List.find?_cons_of_pos (by simp), Option.none_or]

/-- Behind some point of an object the members that are left are read as visiting them comes out. -/
def Ahead (record : Record α) (tail : Source) (members : List (Text × Text)) (rest : Source) :
    Prop :=
  ∀ {found : Partial α} {result : Except Fault (Partial α)},
    record.Visits found members result →
      Answers (record.decodeMembers found false tail) (result.bind record.finish) rest

/-- A member is read as its visit, when its name comes next and the members behind it are read so. -/
theorem answers_visit {name written front back : Text} {later : List (Text × Text)}
    {source tail rest : Source} {first : Bool} {result : Except Fault (Partial α)}
    (named : ∃ lt, nextMember first source = .ok (.name
      ⟨name, before front (.char ':' (before back (before written tail))), lt⟩))
    (blank : Blank front) (blank' : Blank back) (isValue : IsValue written) (ends : tail.Ends)
    (visits : record.Visits found ((name, written) :: later) result)
    (more : record.Ahead tail later rest) :
    Answers (record.decodeMembers found first source) (result.bind record.finish) rest := by
  obtain ⟨_, named⟩ := named
  obtain ⟨_, marked⟩ := reads_mark
    (meets_behind blank (c := ':') rfl (before back (before written tail)))
  rw [decodeMembers, named]
  cases visits with
  | @field _ field _ data _ _ known fresh denotes visits =>
      obtain ⟨_, read⟩ := denotes.restores.behind back tail blank' ends
      simp only [find?_field known, List.contains_iff_mem, fresh, if_false, colon, marked, read]
      exact (more visits).through fun _ => ⟨rfl, rfl⟩
  | repeated known given =>
      simp only [find?_field known, List.contains_iff_mem, given, if_true]
      rfl
  | unknown unknown visits =>
      have absent : record.fields.find? (·.name == name) = none := by
        rw [List.find?_eq_none]
        intro field mem same
        exact unknown field mem (eq_of_beq same)
      obtain ⟨_, read⟩ := (isValue_restores isValue).behind back tail blank' ends
      simp only [absent, colon, marked, read]
      exact (more visits).through fun _ => ⟨rfl, rfl⟩

/-- At the brace the record is finished. -/
theorem answers_close {source rest : Source} {first : Bool}
    (closed : ∃ lt, nextMember first source = .ok (.close ⟨(), rest, lt⟩)) :
    Answers (record.decodeMembers found first source) (record.finish found) rest := by
  obtain ⟨_, closed⟩ := closed
  rw [decodeMembers, closed]
  dsimp only
  cases record.finish found with
  | error fault => rfl
  | ok value => exact ⟨_, rfl⟩

/-- The members behind the first one are read as they are visited. -/
theorem ahead_further {members : List (Text × Text)} {entries : List Text} {text : Text}
    (further : Further entries text) (all : List.Forall₂ IsMember members entries)
    (rest : Source) : record.Ahead (before text (.char '\x7d' rest)) members rest := by
  induction further generalizing members with
  | done blank =>
      cases all
      intro found result visits
      cases visits
      exact answers_close (nextMember_end blank false rest)
  | @next front blanks entry text entries blank blank' further ih =>
      obtain _ | ⟨member, others⟩ := all
      obtain ⟨spells, ⟨isFront, isBack⟩, isValue⟩ := member
      intro found result visits
      rw [before_next, before_member]
      exact answers_visit (nextMember_later blank blank' spells _) isFront isBack isValue
        (ends_further further (.inr rfl) rest) visits (ih others)

theorem answers_members {members : List (Text × Text)} {entries : List Text} {text : Text}
    (row : Row entries text) (all : List.Forall₂ IsMember members entries)
    {result : Except Fault (Partial α)} (visits : record.Visits found members result)
    (rest : Source) :
    Answers (record.decodeMembers found true (before text (.char '\x7d' rest)))
      (result.bind record.finish) rest := by
  cases row with
  | none blank =>
      cases all
      cases visits
      exact answers_close (nextMember_end blank true rest)
  | some blank further =>
      obtain _ | ⟨member, others⟩ := all
      obtain ⟨spells, ⟨isFront, isBack⟩, isValue⟩ := member
      rw [before_append, before_append, before_member]
      exact answers_visit (nextMember_first blank spells _) isFront isBack isValue
        (ends_further further (.inr rfl) rest) visits (ahead_further further others rest)

/-! ## Arrays -/

section

variable {decoder : Decoder α} {blanks written : Text} {value : α}

theorem nextElement_first (h : Blank blanks) (restores : decoder.Restores written value)
    (rest : Source) :
    ∃ le, Decoder.nextElement true (before blanks (before written rest)) =
      .ok (.element ⟨before written rest, le⟩) := by
  obtain ⟨c, more, rfl, opens⟩ := restores.opens
  obtain ⟨_, met⟩ := meets_behind h (isBlank_opener opens) (before more rest)
  rw [before_cons, Decoder.nextElement, look_eq met, if_neg (opener_ne opens (by decide)),
    if_pos rfl]
  exact ⟨_, rfl⟩

theorem nextElement_later {front : Text} (h : Blank front) (h' : Blank blanks)
    (restores : decoder.Restores written value) (rest : Source) :
    ∃ le, Decoder.nextElement false
      (before front (.char ',' (before blanks (before written rest)))) =
        .ok (.element ⟨before written rest, le⟩) := by
  obtain ⟨c, more, rfl, opens⟩ := restores.opens
  rw [before_cons]
  obtain ⟨_, comma⟩ := meets_behind h (c := ',') rfl (before blanks (.char c (before more rest)))
  obtain ⟨_, met⟩ := meets_behind h' (isBlank_opener opens) (before more rest)
  rw [Decoder.nextElement, look_eq comma, if_neg (by decide), if_neg (by decide), if_pos rfl,
    look_eq met, if_neg (opener_ne opens (by decide))]
  exact ⟨_, rfl⟩

theorem nextElement_end (h : Blank blanks) (first : Bool) (rest : Source) :
    ∃ lt, Decoder.nextElement first (before blanks (.char ']' rest)) =
      .ok (.close ⟨(), rest, lt⟩) := by
  obtain ⟨_, met⟩ := meets_behind h (c := ']') rfl rest
  rw [Decoder.nextElement, look_eq met, if_pos rfl]
  exact ⟨_, rfl⟩

end

/-- The bracket may come behind any number of fields, and behind the last it must. -/
theorem answers_bracket {blanks : Text} (h : Blank blanks) (fields : List (Field α))
    (first : Bool) (rest : Source) :
    Answers (record.decodeElements found fields first (before blanks (.char ']' rest)))
      (record.finish found) rest := by
  cases fields with
  | nil =>
      obtain ⟨_, closed⟩ := reads_mark (meets_behind h (c := ']') rfl rest)
      rw [decodeElements, closeArray, closed]
      cases record.finish found with
      | error fault => rfl
      | ok value => exact ⟨_, rfl⟩
  | cons field later =>
      obtain ⟨_, closed⟩ := nextElement_end h first rest
      rw [decodeElements, closed]
      simp only [bind, Except.bind]
      cases record.finish found with
      | error fault => rfl
      | ok value => exact ⟨_, rfl⟩

/-- One element of an array is read behind what stands before it, and the rest is read on from what
the element makes of the record. -/
theorem answers_element {field : Field α} {later : List (Field α)} {data : field.kind.Data}
    {written : Text} {source tail rest : Source} {first : Bool} {outcome : Except Fault α}
    (next : ∃ le, Decoder.nextElement first source = .ok (.element ⟨before written tail, le⟩))
    (denotes : field.kind.Denotes written data) (ends : tail.Ends)
    (more : Answers (record.decodeElements (found.give field data) later false tail) outcome rest) :
    Answers (record.decodeElements found (field :: later) first source) outcome rest := by
  obtain ⟨_, next⟩ := next
  obtain ⟨_, read⟩ := denotes.restores.reads ends
  rw [decodeElements, next]
  simp only [bind, Except.bind, read]
  cases outcome with
  | error fault =>
      change record.decodeElements _ _ _ _ = _ at more
      rw [more]
      rfl
  | ok value =>
      obtain ⟨_, final⟩ := more
      simp only [final]
      exact ⟨_, rfl⟩

theorem answers_further {fields : List (Field α)} {elements : List Text} {final : Partial α}
    {text : Text} (further : Further elements text) (fills : Fills found fields elements final)
    (rest : Source) :
    Answers (record.decodeElements found fields false (before text (.char ']' rest)))
      (record.finish final) rest := by
  induction further generalizing fields found with
  | done h =>
      cases fills
      exact answers_bracket h fields false rest
  | next h h' further ih =>
      obtain _ | ⟨denotes, more⟩ := fills
      rw [before_next]
      exact answers_element (nextElement_later h h' denotes.restores _) denotes
        (ends_further further (.inl rfl) rest) (ih more)

theorem answers_elements {fields : List (Field α)} {elements : List Text} {final : Partial α}
    {text : Text} (row : Row elements text) (fills : Fills found fields elements final)
    (rest : Source) :
    Answers (record.decodeElements found fields true (before text (.char ']' rest)))
      (record.finish final) rest := by
  cases row with
  | none h =>
      cases fills
      exact answers_bracket h fields true rest
  | some h further =>
      obtain _ | ⟨denotes, more⟩ := fills
      rw [before_append, before_append]
      exact answers_element (nextElement_first h denotes.restores _) denotes
        (ends_further further (.inl rfl) rest) (answers_further further more rest)

/-- A record is read as the text that describes it says, with blanks before it and anything
behind. -/
theorem Describes.answers {text : Text} {outcome : Except Fault α}
    (h : record.Describes text outcome) {blanks : Text} (blank : Blank blanks) (rest : Source) :
    Answers (record.decode (before blanks (before text rest))) outcome rest := by
  cases h with
  | object h visits =>
      obtain ⟨all, row⟩ := h
      rw [before_cons, before_append]
      refine answers_ofFirst (meets_behind blank rfl _) ?_
      rw [if_neg (by decide), if_pos rfl]
      exact (answers_members row all visits rest).through fun _ => ⟨rfl, rfl⟩
  | array h fills =>
      obtain ⟨row⟩ := h
      rw [before_cons, before_append]
      refine answers_ofFirst (meets_behind blank rfl _) ?_
      rw [if_pos rfl]
      exact (answers_elements row fills rest).through fun _ => ⟨rfl, rfl⟩

theorem Describes.restores {text : Text} {value : α} (h : record.Describes text (.ok value)) :
    record.decode.Restores text value where
  opens := by
    generalize Except.ok value = outcome at h
    cases h with
    | object h visits =>
        obtain ⟨all, row⟩ := h
        exact ⟨_, _, rfl, by decide⟩
    | array h fills =>
        obtain ⟨row⟩ := h
        exact ⟨_, _, rfl, by decide⟩
  behind _ rest blank _ := h.answers blank rest

end Record

/-! ## Lists -/

namespace Decoder

variable {α : Type} {decoder : Decoder α}

theorem reads_further {elements : List Text} {values : List α} {text : Text}
    (further : Further elements text) (all : List.Forall₂ decoder.Restores elements values)
    (rest : Source) :
    Reads (Decoder.elements decoder false (before text (.char ']' rest))) values rest := by
  induction further generalizing values with
  | done h =>
      cases all
      obtain ⟨_, closed⟩ := Record.nextElement_end h false rest
      rw [Decoder.elements, closed]
      exact ⟨_, rfl⟩
  | next h h' further ih =>
      obtain _ | ⟨restores, others⟩ := all
      obtain ⟨_, next⟩ := Record.nextElement_later h h' restores _
      obtain ⟨_, read⟩ := restores.reads (ends_further further (.inl rfl) rest)
      rw [before_next, Decoder.elements, next]
      simp only [read]
      exact (ih others).through fun _ => ⟨_, rfl⟩

theorem reads_row {elements : List Text} {values : List α} {text : Text}
    (row : Row elements text) (all : List.Forall₂ decoder.Restores elements values)
    (rest : Source) :
    Reads (Decoder.elements decoder true (before text (.char ']' rest))) values rest := by
  cases row with
  | none h =>
      cases all
      obtain ⟨_, closed⟩ := Record.nextElement_end h true rest
      rw [Decoder.elements, closed]
      exact ⟨_, rfl⟩
  | some h further =>
      obtain _ | ⟨restores, others⟩ := all
      obtain ⟨_, next⟩ := Record.nextElement_first h restores _
      obtain ⟨_, read⟩ := restores.reads (ends_further further (.inl rfl) rest)
      rw [before_append, before_append, Decoder.elements, next]
      simp only [read]
      exact (reads_further further others rest).through fun _ => ⟨_, rfl⟩

/-- A list is read as its elements are. -/
theorem list_restores {elements : List Text} {values : List α} {text : Text}
    (h : IsArray elements text) (all : List.Forall₂ decoder.Restores elements values) :
    (Decoder.list decoder).Restores text values := by
  obtain ⟨row⟩ := h
  refine restores_ofFirst (by decide) fun rest _ => ?_
  rw [before_append, if_pos rfl]
  exact (reads_row row all rest).through fun _ => ⟨_, rfl⟩

end Decoder
end Keypad.Json
