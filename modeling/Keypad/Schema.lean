import Keypad.Contact
import Keypad.Json.Record
import Keypad.Number.Parts
import Keypad.Policy
import Keypad.Span

/-!
The written form of the data of the library: the names and the order of the members of each record,
and which of them may be left out.
-/
namespace Keypad.Schema

open Json (Record Value)

def textField {α : Type} (name : String) (get : α → Text) (set : Text → α → α) : Record.Field α :=
  ⟨name.toList, true, .text, get, set⟩

def countField {α : Type} (name : String) (required : Bool) (get : α → Nat)
    (set : Nat → α → α) : Record.Field α :=
  ⟨name.toList, required, .count, get, set⟩

/-- A field that holds a truth value and may be left out. -/
def flagField {α : Type} (name : String) (get : α → Bool) (set : Bool → α → α) : Record.Field α :=
  ⟨name.toList, false, .flag, get, set⟩

/-- A field that may hold a text and may be left out. -/
def textField? {α : Type} (name : String) (get : α → Option Text)
    (set : Option Text → α → α) : Record.Field α :=
  ⟨name.toList, false, .optionalText, get, set⟩

def contact : Record Contact where
  blank := ⟨[], none⟩
  fields := [
    textField "name" (·.name) fun v c => { c with name := v },
    textField? "number" (·.number) fun v c => { c with number := v }]

/-- A policy may leave out any field; what is left out is as in the standard policy. -/
def policy : Record Policy where
  blank := .standard
  fields := [
    flagField "allow_initial_match" (·.allowInitials) fun v p => { p with allowInitials := v },
    countField "initial_length_limit" false (·.initialLimit)
      fun v p => { p with initialLimit := v },
    countField "first_tokens_for_initials" false (·.leadingWords)
      fun v p => { p with leadingWords := v },
    countField "last_tokens_for_initials" false (·.trailingWords)
      fun v p => { p with trailingWords := v },
    flagField "match_empty_query" (·.matchEmpty) fun v p => { p with matchEmpty := v }]

def region : Record Region where
  blank := .unknown
  fields := [
    textField? "sim_country_iso" (·.country) fun v r => { r with country := v },
    flagField "user_in_nanp" (·.inNumberingPlan) fun v r => { r with inNumberingPlan := v }]

def numberParts : Record Number.Parts where
  blank := .none
  fields := [
    textField "country_code" (·.callingCode) fun v p => { p with callingCode := v },
    countField "country_code_offset" true (·.callingCodeEnd)
      fun v p => { p with callingCodeEnd := v },
    countField "nanp_code_offset" true (·.areaCodeEnd) fun v p => { p with areaCodeEnd := v }]

def span : Record Span where
  blank := ⟨0, 0⟩
  fields := [
    countField "start" true (·.start) fun v s => { s with start := v },
    countField "end" true (·.stop) fun v s => { s with stop := v }]

def tally : Record Tally where
  blank := .zero
  fields := [
    countField "scanned" true (·.scanned) fun v t => { t with scanned := v },
    countField "name_matches" true (·.byName) fun v t => { t with byName := v },
    countField "number_matches" true (·.byNumber) fun v t => { t with byNumber := v }]

def contactsValue (list : List Contact) : Value := .array (list.map contact.encode)

end Keypad.Schema
