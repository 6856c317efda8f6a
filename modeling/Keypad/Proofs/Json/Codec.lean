import Keypad.Codecs
import Keypad.Proofs.Json.Grammar
import Keypad.Proofs.Text
import Mathlib.Data.List.Forall2

/-!
What a codec of JSON is relied on for. A reader that is derived from the description of a record
visits the members of an object in their order: a field takes the data that its value denotes, a
member that is no field is passed over, and a field that comes again is refused. From an array it
fills the fields in their order. In the end every required field must have been given. A writer puts
no blanks between the tokens, writes counts in decimal digits, and may escape characters as the
grammar lets it.
-/
namespace Keypad.Json

open Grammar (Blank Spells Head IsBody IsValue Row Plain High Low shortEscapes CodeUnit)

/-! ## What texts denote -/

/-- A string that spells a text. -/
def IsString (written text : Text) : Prop :=
  ∃ body, Spells body text ∧ written = '"' :: (body ++ ['"'])

/-- The written forms of the data of a field. -/
def Kind.Denotes : (kind : Kind) → Text → kind.Data → Prop
  | flag, written, on => written = if on then "true".toList else "false".toList
  | count, written, n => n < Text.countBound ∧ written = Text.ofNat n
  | text, written, t => IsString written t
  | optionalText, written, none => written = "null".toList
  | optionalText, written, some t => IsString written t

/-- A member of an object: its name, and its value as it is written. -/
inductive IsMember : Text × Text → Text → Prop where
  | member {name body head value : Text} (spells : Spells body name) (h : Head body head)
      (isValue : IsValue value) : IsMember (name, value) (head ++ value)

inductive IsObject : List (Text × Text) → Text → Prop where
  | braces {members : List (Text × Text)} {entries : List Text} {text : Text}
      (all : List.Forall₂ IsMember members entries) (row : Row entries text) :
      IsObject members ('\x7b' :: (text ++ ['\x7d']))

inductive IsArray : List Text → Text → Prop where
  | brackets {elements : List Text} {text : Text} (row : Row elements text) :
      IsArray elements ('[' :: (text ++ [']']))

namespace Record

variable {α : Type}

/-- What visiting members of an object makes of a record that is being read. -/
inductive Visits (record : Record α) :
    Partial α → List (Text × Text) → Except Fault (Partial α) → Prop where
  | done {found : Partial α} : Visits record found [] (.ok found)
  | field {found : Partial α} {field : Field α} {written : Text} {data : field.kind.Data}
      {later : List (Text × Text)} {result : Except Fault (Partial α)}
      (known : field ∈ record.fields) (fresh : field.name ∉ found.given)
      (denotes : field.kind.Denotes written data)
      (more : Visits record (found.give field data) later result) :
      Visits record found ((field.name, written) :: later) result
  | repeated {found : Partial α} {field : Field α} {written : Text} {later : List (Text × Text)}
      (known : field ∈ record.fields) (given : field.name ∈ found.given) :
      Visits record found ((field.name, written) :: later) (.error .mismatched)
  | unknown {found : Partial α} {name written : Text} {later : List (Text × Text)}
      {result : Except Fault (Partial α)} (unknown : ∀ field ∈ record.fields, field.name ≠ name)
      (more : Visits record found later result) :
      Visits record found ((name, written) :: later) result

/-- What filling fields with the elements of an array makes of a record that is being read. There may
be fewer elements than fields. -/
inductive Fills : Partial α → List (Field α) → List Text → Partial α → Prop where
  | done {found : Partial α} {fields : List (Field α)} : Fills found fields [] found
  | next {found final : Partial α} {field : Field α} {fields : List (Field α)} {written : Text}
      {data : field.kind.Data} {elements : List Text} (denotes : field.kind.Denotes written data)
      (more : Fills (found.give field data) fields elements final) :
      Fills found (field :: fields) (written :: elements) final

/-- What a text that describes a record is read as. -/
inductive Describes (record : Record α) : Text → Except Fault α → Prop where
  | object {members : List (Text × Text)} {text : Text} {result : Except Fault (Partial α)}
      (h : IsObject members text) (visits : record.Visits (.start record) members result) :
      Describes record text (result.bind record.finish)
  | array {elements : List Text} {text : Text} {final : Partial α} (h : IsArray elements text)
      (fills : Fills (.start record) record.fields elements final) :
      Describes record text (record.finish final)

end Record

/-! ## Codecs -/

namespace Codec

/-- Texts are read as what they describe, with blanks around them. -/
structure ReadsText (codec : Codec) : Prop where
  record : ∀ {α : Type} {record : Record α} {front text back : Text} {outcome : Except Fault α},
    Blank front → Blank back → record.Describes text outcome →
      codec.readRecord record (front ++ (text ++ back)) = outcome
  list : ∀ {α : Type} {record : Record α} {front text back : Text} {elements : List Text}
    {values : List α}, Blank front → Blank back → IsArray elements text →
      List.Forall₂ (fun element value => record.Describes element (.ok value)) elements values →
        codec.readList record (front ++ (text ++ back)) = .ok values

/-- The forms in which a character may be written in a string. Only control characters are written
as their code points. -/
inductive Escaped : Char → Text → Prop where
  | plain {c : Char} (h : Plain c) : Escaped c [c]
  | short {mark c : Char} (h : (mark, c) ∈ shortEscapes) : Escaped c ['\\', mark]
  | unit {c : Char} {digits : Text} (h : CodeUnit digits c.toNat) (control : c.toNat < 0x20) :
      Escaped c ('\\' :: 'u' :: digits)

/-- Values are written without blanks. -/
structure WritesCompact (codec : Codec) : Prop where
  null : codec.compact .null = "null".toList
  bool : ∀ on, codec.compact (.bool on) = if on then "true".toList else "false".toList
  count : ∀ n, codec.compact (.count n) = Text.ofNat n
  text : ∀ text, ∃ pieces, List.Forall₂ Escaped text pieces ∧
    codec.compact (.text text) = '"' :: (pieces.flatten ++ ['"'])
  array : ∀ elements, codec.compact (.array elements) =
    '[' :: (Text.join [','] (elements.map codec.compact) ++ [']'])
  object : ∀ members, codec.compact (.object members) =
    '\x7b' :: (Text.join [','] (members.map fun member =>
      codec.compact (.text member.1) ++ ':' :: codec.compact member.2) ++ ['\x7d'])

end Codec

/-! ## What denotes data is a value -/

theorem IsString.isValue {written text : Text} (h : IsString written text) : IsValue written := by
  obtain ⟨body, spells, rfl⟩ := h
  exact .quoted spells.isBody

theorem Kind.Denotes.isValue {kind : Kind} {written : Text} {data : kind.Data}
    (h : kind.Denotes written data) : IsValue written := by
  cases kind with
  | flag =>
      obtain rfl : written = _ := h
      cases data with
      | true => exact .word (by decide)
      | false => exact .word (by decide)
  | count =>
      obtain ⟨-, rfl⟩ := h
      exact .numeral (.ofNat _)
  | text => exact IsString.isValue h
  | optionalText =>
      cases data with
      | none =>
          obtain rfl : written = _ := h
          exact .word (by decide)
      | some text => exact IsString.isValue h

/-! ## What is written denotes what it was written of -/

/-- Counts are below 2 to the 64th. -/
def Kind.InRange : (kind : Kind) → kind.Data → Prop
  | flag, _ => True
  | count, n => n < Text.countBound
  | text, _ => True
  | optionalText, _ => True

variable {codec : Codec}

namespace Codec

/-- Escapes are undone, character by character. -/
theorem spells_of_escaped {text : Text} {pieces : List Text}
    (h : List.Forall₂ Escaped text pieces) : Spells pieces.flatten text := by
  induction h with
  | nil => exact .nil
  | @cons c piece text pieces escaped _ ih =>
      rw [List.flatten_cons]
      cases escaped with
      | plain h => exact .plain h ih
      | short h => exact .short h ih
      | unit h control =>
          -- Code points of control characters are far below the units that need a partner.
          have notHigh : ¬ High c.toNat := fun high => by unfold High at high; omega
          have notLow : ¬ Low c.toNat := fun low => by unfold Low at low; omega
          have spelled := Spells.unit h notHigh notLow ih
          rwa [Char.ofNat_toNat] at spelled

namespace WritesCompact

variable (writes : codec.WritesCompact)
include writes

theorem isString (text : Text) : IsString (codec.compact (.text text)) text := by
  obtain ⟨pieces, escaped, written⟩ := writes.text text
  exact ⟨pieces.flatten, spells_of_escaped escaped, written⟩

theorem denotes {kind : Kind} {data : kind.Data} (range : kind.InRange data) :
    kind.Denotes (codec.compact (kind.encode data)) data := by
  cases kind with
  | flag => exact writes.bool data
  | count => exact ⟨range, writes.count data⟩
  | text => exact writes.isString data
  | optionalText =>
      cases data with
      | none => exact writes.null
      | some text => exact writes.isString text

theorem isMember (name : Text) {value : Value} (isValue : IsValue (codec.compact value)) :
    IsMember (name, codec.compact value)
      (codec.compact (.text name) ++ ':' :: codec.compact value) := by
  obtain ⟨body, spells, written⟩ := writes.isString name
  have head : Head body ('"' :: (body ++ '"' :: ([] ++ ':' :: []))) := .name .nil .nil
  have member := IsMember.member spells head isValue
  rw [written]
  simpa using member

end WritesCompact
end Codec

/-! ## Round trips -/

namespace Record

variable {α : Type} {record : Record α} {a : α}

/-- A record that is given some fields as they are in a value. -/
def Partial.giveAll (found : Partial α) (fields : List (Field α)) (a : α) : Partial α :=
  fields.foldl (fun found field => found.give field (field.get a)) found

theorem Partial.value_giveAll (found : Partial α) (fields : List (Field α)) (a : α) :
    (found.giveAll fields a).value =
      fields.foldl (fun value field => field.set (field.get a) value) found.value := by
  induction fields generalizing found with
  | nil => rfl
  | cons field fields ih => exact ih (found.give field (field.get a))

theorem Partial.given_giveAll (found : Partial α) (fields : List (Field α)) (a : α) :
    (found.giveAll fields a).given = (fields.map (·.name)).reverse ++ found.given := by
  induction fields generalizing found with
  | nil => rfl
  | cons field fields ih =>
      refine (ih (found.give field (field.get a))).trans ?_
      rw [List.map_cons, List.reverse_cons, List.append_assoc]
      rfl

/-- A record that has been given all fields of a value is that value. -/
theorem finish_giveAll (record : Record α) (a : α) :
    record.finish (Partial.giveAll (.start record) record.fields a) = .ok a := by
  have whole : record.fields.all fun field => !field.required ||
      (Partial.giveAll (.start record) record.fields a).given.contains field.name := by
    rw [Partial.given_giveAll, List.all_eq_true]
    intro field mem
    simp only [Bool.or_eq_true, List.contains_iff_mem, List.mem_append, List.mem_reverse]
    exact .inr (.inl (List.mem_map_of_mem mem))
  rw [finish, if_pos whole, Partial.value_giveAll]
  exact congrArg Except.ok (record.complete a)

def InRange (record : Record α) (a : α) : Prop :=
  ∀ field ∈ record.fields, field.kind.InRange (field.get a)

/-- What a field of a value is written as. -/
def written (codec : Codec) (a : α) (field : Field α) : Text :=
  codec.compact (field.kind.encode (field.get a))

section

variable (writes : codec.WritesCompact)
include writes

/-- The written members are visited one after the other; the induction is on those to come. -/
theorem visits_written (range : record.InRange a) {earlier later : List (Field α)}
    (split : record.fields = earlier ++ later) :
    record.Visits (Partial.giveAll (.start record) earlier a)
      (later.map fun field => (field.name, written codec a field))
      (.ok (Partial.giveAll (.start record) record.fields a)) := by
  induction later generalizing earlier with
  | nil =>
      rw [split, List.append_nil]
      exact .done
  | cons field later ih =>
      have known : field ∈ record.fields := by simp [split]
      have fresh : field.name ∉ (Partial.giveAll (.start record) earlier a).given := by
        have distinct := record.distinct
        rw [split, List.map_append, List.nodup_append] at distinct
        rw [Partial.given_giveAll, Partial.start, List.append_nil, List.mem_reverse]
        exact fun mem => distinct.2.2 _ mem _ List.mem_cons_self rfl
      have next : record.fields = (earlier ++ [field]) ++ later := by simp [split]
      have more := ih next
      rw [Partial.giveAll, List.foldl_append] at more
      exact .field known fresh (writes.denotes (range field known)) more

theorem fills_written {fields : List (Field α)}
    (range : ∀ field ∈ fields, field.kind.InRange (field.get a)) (found : Partial α) :
    Fills found fields (fields.map (written codec a)) (found.giveAll fields a) := by
  induction fields generalizing found with
  | nil => exact .done
  | cons field fields ih =>
      obtain ⟨own, others⟩ := List.forall_mem_cons.mp range
      exact .next (writes.denotes own) (ih others _)

theorem isObject_encode (range : record.InRange a) :
    IsObject (record.fields.map fun field => (field.name, written codec a field))
      (codec.compact (record.encode a)) := by
  rw [encode, writes.object, List.map_map]
  refine .braces ?_ (.join _)
  rw [List.forall₂_map_left_iff, List.forall₂_map_right_iff, List.forall₂_same]
  intro field mem
  exact writes.isMember field.name (writes.denotes (range field mem)).isValue

theorem isArray_encodeArray (record : Record α) (a : α) :
    IsArray (record.fields.map (written codec a)) (codec.compact (record.encodeArray a)) := by
  rw [encodeArray, writes.array, List.map_map]
  exact .brackets (.join _)

theorem describes_encode (range : record.InRange a) :
    record.Describes (codec.compact (record.encode a)) (.ok a) := by
  have visits := visits_written writes range (List.nil_append record.fields).symm
  have described := Describes.object (isObject_encode writes range) visits
  rwa [Except.bind, finish_giveAll] at described

theorem describes_encodeArray (range : record.InRange a) :
    record.Describes (codec.compact (record.encodeArray a)) (.ok a) := by
  have described := Describes.array (isArray_encodeArray writes record a)
    (fills_written writes range (.start record))
  rwa [finish_giveAll] at described

end
end Record

namespace Codec

variable {α : Type} {record : Record α} {a : α}

/-- A value is read back from both compact forms of a record. -/
def RoundTrips (codec : Codec) (record : Record α) (a : α) : Prop :=
  codec.readRecord record (codec.compact (record.encode a)) = .ok a ∧
    codec.readRecord record (codec.compact (record.encodeArray a)) = .ok a

theorem ReadsText.record_alone (reads : codec.ReadsText) {text : Text} {outcome : Except Fault α}
    (h : record.Describes text outcome) : codec.readRecord record text = outcome := by
  have whole := reads.record Blank.nil Blank.nil h
  rwa [List.nil_append, List.append_nil] at whole

theorem roundTrips (reads : codec.ReadsText) (writes : codec.WritesCompact)
    (range : record.InRange a) : codec.RoundTrips record a :=
  ⟨reads.record_alone (Record.describes_encode writes range),
    reads.record_alone (Record.describes_encodeArray writes range)⟩

/-- A list of records is read back from the array of their objects. -/
theorem readList_compact (reads : codec.ReadsText) (writes : codec.WritesCompact) {list : List α}
    (range : ∀ a ∈ list, record.InRange a) :
    codec.readList record (codec.compact (.array (list.map record.encode))) = .ok list := by
  have elements : List.Forall₂ (fun element value => record.Describes element (.ok value))
      (list.map fun a => codec.compact (record.encode a)) list := by
    rw [List.forall₂_map_left_iff, List.forall₂_same]
    exact fun a mem => Record.describes_encode writes (range a mem)
  have whole := reads.list Blank.nil Blank.nil (.brackets (.join _)) elements
  rwa [List.nil_append, List.append_nil, ← Function.comp_def, ← List.map_map,
    ← writes.array] at whole

end Codec
end Keypad.Json
