import Keypad.Proofs.Builtin
import Keypad.Schema

/-!
The data of the library survives its compact form: what is written is read back as it was, from the
object of a record and from the bare array of its fields.
-/
namespace Keypad.Schema

open Json (Codec)

/-- All data is read back from its compact form: texts of any characters, and counts below 2 to
the 64th. The codec has to write compact forms as the grammar of JSON has them, and to read texts as
what they describe. -/
theorem compact_round_trips {codec : Codec} (reads : codec.ReadsText)
    (writes : codec.WritesCompact) :
    (∀ c : Contact, codec.RoundTrips contact c) ∧
    (∀ list : List Contact,
      codec.readList contact (codec.compact (contactsValue list)) = .ok list) ∧
    (∀ p : Policy, p.initialLimit < Text.countBound → p.leadingWords < Text.countBound →
      p.trailingWords < Text.countBound → codec.RoundTrips policy p) ∧
    (∀ r : Region, codec.RoundTrips region r) ∧
    (∀ p : Number.Parts, p.callingCodeEnd < Text.countBound → p.areaCodeEnd < Text.countBound →
      codec.RoundTrips numberParts p) ∧
    (∀ s : Span, s.start < Text.countBound → s.stop < Text.countBound → codec.RoundTrips span s) ∧
    (∀ t : Tally, t.scanned < Text.countBound → t.byName < Text.countBound →
      t.byNumber < Text.countBound → codec.RoundTrips tally t) := by
  have contacts (c : Contact) : contact.InRange c :=
    List.forall_mem_cons.mpr ⟨trivial, List.forall_mem_singleton.mpr trivial⟩
  refine ⟨?_, ?_, ?_, ?_, ?_, ?_, ?_⟩
  · intro c
    exact Codec.roundTrips reads writes (contacts c)
  · intro list
    exact Codec.readList_compact reads writes fun c _ => contacts c
  · intro p limit leading trailing
    refine Codec.roundTrips reads writes ?_
    simp [Json.Record.InRange, policy, flagField, countField, Json.Kind.InRange, *]
  · intro r
    refine Codec.roundTrips reads writes ?_
    simp [Json.Record.InRange, region, flagField, textField?, Json.Kind.InRange]
  · intro p calling area
    refine Codec.roundTrips reads writes ?_
    simp [Json.Record.InRange, numberParts, textField, countField, Json.Kind.InRange, *]
  · intro s start stop
    refine Codec.roundTrips reads writes ?_
    simp [Json.Record.InRange, span, countField, Json.Kind.InRange, *]
  · intro t scanned byName byNumber
    refine Codec.roundTrips reads writes ?_
    simp [Json.Record.InRange, tally, countField, Json.Kind.InRange, *]

/-- The greatest count is read back in every record that holds counts, and so is a contact whose
name needs escapes. -/
theorem compact_round_trips_greatest :
    Codec.builtin.RoundTrips contact ⟨['"', '\x01', '\\', '😀'], none⟩ ∧
      Codec.builtin.RoundTrips policy ⟨true, 18446744073709551615, 0, 7, false⟩ ∧
      Codec.builtin.RoundTrips numberParts ⟨"49".toList, 3, 18446744073709551615⟩ ∧
      Codec.builtin.RoundTrips span ⟨18446744073709551615, 0⟩ ∧
      Codec.builtin.RoundTrips tally ⟨18446744073709551615, 10, 9⟩ := by
  obtain ⟨contacts, -, policies, -, parts, spans, tallies⟩ :=
    compact_round_trips Codec.builtin_readsText Codec.builtin_writesCompact
  exact ⟨contacts _, policies _ (by decide) (by decide) (by decide),
    parts _ (by decide) (by decide), spans _ (by decide) (by decide),
    tallies _ (by decide) (by decide) (by decide)⟩

end Keypad.Schema
