import Keypad.Builtin.Json.Decoder

/-!
Reading records. A record is read from an object, whose members may come in any order and where
unknown members are passed over, or from an array of its fields in order.
-/
namespace Keypad.Json

def Kind.decoder : (kind : Kind) → Decoder kind.Data
  | .flag => Decoder.bool
  | .count => Decoder.count
  | .text => Decoder.text
  | .optionalText => Decoder.optional Decoder.text

namespace Record

variable {α : Type}

/-- The bracket after the last field. Whatever follows a comma there, there is one value too
many. -/
def closeArray : Decoder Unit := Decoder.mark ']'

def decodeElements (record : Record α) (found : Partial α) :
    List (Field α) → Bool → (source : Source) → Except Fault (Scanned α source)
  | [], _, source => do
    let value ← record.finish found
    let closed ← closeArray source
    return closed.map fun _ => value
  | field :: later, first, source => do
    match ← Decoder.nextElement first source with
    | .close closed =>
      let value ← record.finish found
      return closed.map fun _ => value
    | .element left =>
      let data ← field.kind.decoder left.rest
      let final ← decodeElements record (found.give field data.value) later false data.rest
      return (final.after data.shorter).within left.le

/-- What stands before the next member of an object: its closing brace, or its name. -/
inductive NextMember (source : Source) where
  | close (closed : Scanned Unit source)
  | name (name : Scanned Text source)

/-- Looks for the next member of an object. `first` says that no member has been read yet. -/
def nextMember (first : Bool) (source : Source) : Except Fault (NextMember source) :=
  source.look fun c rest le =>
    if c = '\x7d' then .ok (.close ((Scanned.of () c (.all rest)).within le))
    else if c = '"' then
      if first then (Quoted.read rest).map fun found => .name ((found.behind c).within le)
      else .error .malformed
    else if c = ',' then
      if first then .error .malformed
      else
        rest.look fun d later near =>
          if d = '"' then
            (Quoted.read later).map fun found =>
              .name ((((found.behind d).within near).behind c).within le)
          else .error .malformed
    else .error .malformed

/-- Reads the remaining members of an object. A field that has been given already is refused as
soon as its name is read. -/
def decodeMembers (record : Record α) (found : Partial α) (first : Bool) (source : Source) :
    Except Fault (Scanned α source) :=
  match nextMember first source with
  | .error fault => .error fault
  | .ok (.close closed) => (record.finish found).map fun value => closed.map fun _ => value
  | .ok (.name ⟨name, afterName, a⟩) =>
    match record.fields.find? (·.name == name) with
    | some field =>
      if found.given.contains name then .error .mismatched
      else
        match colon afterName with
        | .error fault => .error fault
        | .ok ⟨_, afterColon, b⟩ =>
          match field.kind.decoder afterColon with
          | .error fault => .error fault
          | .ok ⟨data, afterValue, c⟩ =>
            (decodeMembers record (found.give field data) false afterValue).map fun final =>
              ((final.after c).after b).after a
    | none =>
      match colon afterName with
      | .error fault => .error fault
      | .ok ⟨_, afterColon, b⟩ =>
        match skipValue afterColon with
        | .error fault => .error fault
        | .ok ⟨_, afterValue, c⟩ =>
          (decodeMembers record found false afterValue).map fun final =>
            ((final.after c).after b).after a
  termination_by source.length
  decreasing_by all_goals exact Nat.lt_trans c (Nat.lt_trans b a)

def decode (record : Record α) : Decoder α := Decoder.ofFirst fun c rest =>
  if c = '[' then
    (decodeElements record (.start record) record.fields true rest).map (·.behind c)
  else if c = '\x7b' then (decodeMembers record (.start record) true rest).map (·.behind c)
  else .error (Decoder.refusal c rest)

end Record
end Keypad.Json
