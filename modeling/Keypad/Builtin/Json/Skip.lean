import Keypad.Builtin.Json.Numeral
import Keypad.Builtin.Json.Quoted

/-!
Passing over a JSON value whose meaning does not matter. Only the grammar is checked, to any depth.
-/
namespace Keypad.Json

/-- The colon between the name and the value of a member. -/
def colon : Decoder Unit := Decoder.mark ':'

/-- Passes over a value that is no array and no object and starts with a given character. -/
def skipLeaf (first : Char) (rest : Source) : Except Fault (Scanned Unit (.char first rest)) :=
  let word (more : String) := (rest.expect more.toList).map (Scanned.of () first)
  if first = '"' then (Quoted.skip rest).map (·.behind first)
  else if first = 'n' then word "ull"
  else if first = 't' then word "rue"
  else if first = 'f' then word "alse"
  else if first = '-' ∨ first.isDigit then Numeral.skip (.char first rest)
  else .error .malformed

mutual

def skipValue (source : Source) : Except Fault (Scanned Unit source) :=
  match source.skipBlanks with
  | ⟨.stop ending, _⟩ => .error ending.fault
  | ⟨.stray _ _, _⟩ => .error .malformed
  | ⟨.char c rest, le⟩ =>
    if c = '[' then (skipElements true rest).map fun found => (found.behind c).within le
    else if c = '\x7b' then (skipMembers true rest).map fun found => (found.behind c).within le
    else (skipLeaf c rest).map (·.within le)
  termination_by 2 * source.length
  decreasing_by all_goals have := Source.length_lt_of_char le; omega

/-- Passes over the elements of an array up to and with its bracket. `first` says that none has
been passed yet. -/
def skipElements (first : Bool) (source : Source) : Except Fault (Scanned Unit source) :=
  match source.skipBlanks with
  | ⟨.stop ending, _⟩ => .error ending.fault
  | ⟨.stray _ _, _⟩ => .error .malformed
  | ⟨.char c rest, le⟩ =>
    if c = ']' ∧ first then .ok ((Scanned.of () c (.all rest)).within le)
    else
      match skipValue (.char c rest) with
      | .error fault => .error fault
      | .ok ⟨_, afterValue, lt⟩ =>
        match afterValue.skipBlanks with
        | ⟨.stop ending, _⟩ => .error ending.fault
        | ⟨.stray _ _, _⟩ => .error .malformed
        | ⟨.char d later, near⟩ =>
          if d = ']' then .ok ((((Scanned.of () d (.all later)).within near).after lt).within le)
          else if d = ',' then
            (skipElements false later).map fun found =>
              (((found.behind d).within near).after lt).within le
          else .error .malformed
  termination_by 2 * source.length + 1
  decreasing_by
  · omega
  · have := Source.length_lt_of_char near; omega

/-- Passes over the members of an object up to and with its brace. `first` says that none has been
passed yet. -/
def skipMembers (first : Bool) (source : Source) : Except Fault (Scanned Unit source) :=
  match source.skipBlanks with
  | ⟨.stop ending, _⟩ => .error ending.fault
  | ⟨.stray _ _, _⟩ => .error .malformed
  | ⟨.char c rest, le⟩ =>
    if c = '\x7d' ∧ first then .ok ((Scanned.of () c (.all rest)).within le)
    else if c = '"' then
      match Quoted.skip rest with
      | .error fault => .error fault
      | .ok ⟨_, afterName, a⟩ =>
        match colon afterName with
        | .error fault => .error fault
        | .ok ⟨_, afterColon, b⟩ =>
          match skipValue afterColon with
          | .error fault => .error fault
          | .ok ⟨_, afterValue, lt⟩ =>
            let reach (found : Scanned Unit afterValue) : Scanned Unit source :=
              ((((found.after lt).after b).after a).behind c).within le
            match afterValue.skipBlanks with
            | ⟨.stop ending, _⟩ => .error ending.fault
            | ⟨.stray _ _, _⟩ => .error .malformed
            | ⟨.char d later, near⟩ =>
              if d = '\x7d' then .ok (reach ((Scanned.of () d (.all later)).within near))
              else if d = ',' then
                (skipMembers false later).map fun found => reach ((found.behind d).within near)
              else .error .malformed
    else .error .malformed
  termination_by 2 * source.length + 1
  decreasing_by
  · have := Source.length_lt_of_char le; omega
  · have := Source.length_lt_of_char le; have := Source.length_lt_of_char near; omega

end

end Keypad.Json
