import Keypad.Text

/-!
JSON as far as the library goes: the values that it writes, the records that it writes and reads, and
what can be wrong with a text. A record is described by its fields in their order and by a blank
value. The description says what is written of a value, and what a record becomes when a reader gives
it its fields. How texts are written and taken apart is left to a codec.
-/
namespace Keypad.Json

/-- What is wrong with a text that is read as a value of some type. -/
inductive Fault where
  | malformed
  | truncated
  /-- The JSON does not describe a value of the type. -/
  | mismatched
  | unreadable
  deriving DecidableEq, Repr

/-- The values that the library writes: their members keep their order, and the only numbers are
counts. -/
inductive Value where
  | null
  | bool (b : Bool)
  | count (n : Nat)
  | text (t : Text)
  | array (elements : List Value)
  | object (members : List (Text × Value))

namespace Value

def ofOption {α : Type} (value : α → Value) : Option α → Value
  | some a => value a
  | none => .null

end Value

/-! ## Records -/

/-- The kinds of fields. -/
inductive Kind where
  | flag
  | count
  | text
  /-- A text, or nothing. -/
  | optionalText
  deriving DecidableEq, Repr

namespace Kind

abbrev Data : Kind → Type
  | flag => Bool
  | count => Nat
  | text => Text
  | optionalText => Option Text

def encode : (kind : Kind) → kind.Data → Value
  | flag, on => .bool on
  | count, n => .count n
  | text, t => .text t
  | optionalText, t => .ofOption .text t

end Kind

/-- A field of a record. One that is not required may be left out, and is then as in the blank
record. -/
structure Record.Field (α : Type) where
  name : Text
  required : Bool
  kind : Kind
  get : α → kind.Data
  set : kind.Data → α → α

/-- A record: what a field holds that is not given, and the fields in order. Their names differ, and
together they make up a value. -/
structure Record (α : Type) where
  blank : α
  fields : List (Record.Field α)
  distinct : (fields.map (·.name)).Nodup := by decide
  complete : ∀ a, fields.foldl (fun found field => field.set (field.get a) found) blank = a := by
    intro a
    rfl

namespace Record

variable {α : Type}

def encode (record : Record α) (value : α) : Value :=
  .object (record.fields.map fun field => (field.name, field.kind.encode (field.get value)))

/-- The array of the fields of a value, without their names. -/
def encodeArray (record : Record α) (value : α) : Value :=
  .array (record.fields.map fun field => field.kind.encode (field.get value))

/-- A record that is being read: the value so far and the names of the fields it has been given. -/
structure Partial (α : Type) where
  value : α
  given : List Text

namespace Partial

def start (record : Record α) : Partial α := ⟨record.blank, []⟩

def give (found : Partial α) (field : Field α) (data : field.kind.Data) : Partial α :=
  ⟨field.set data found.value, field.name :: found.given⟩

end Partial

/-- What a record comes to that is given no more: its value, unless a field is missing. -/
def finish (record : Record α) (found : Partial α) : Except Fault α :=
  if record.fields.all fun field => !field.required || found.given.contains field.name then
    .ok found.value
  else .error .mismatched

end Record
end Keypad.Json
