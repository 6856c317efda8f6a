import Keypad.Proofs.Builtin.Gzip.Locality
import Keypad.Proofs.Builtin.Json.Records
import Keypad.Proofs.Builtin.Json.Stream.Records
import Keypad.Proofs.Builtin.Json.Writing
import Keypad.Proofs.Codecs

/-!
The codecs that the library brings with it do what codecs are relied on for.
-/
namespace Keypad

namespace Json.Codec

/-- A record is read as the text that describes it says, and a list as its elements. -/
theorem builtin_readsText : builtin.ReadsText where
  record front back describes := Answers.run back fun rest _ => describes.answers front rest
  list front back array all := by
    have restores := Decoder.list_restores array (all.imp fun _ _ h => h.restores)
    exact Answers.run back fun rest ends => restores.behind _ rest front ends

/-- Lists are read from streams that break off without being misled. -/
theorem builtin_readsStreams : builtin.ReadsStreams := by
  intro α record
  refine ⟨.ofReader (builtin.streamList record), fun stream => ?_⟩
  have streams : (Decoder.list record.decode).Streams :=
    (Decoder.list_streams record.decode_streams).follows
  have opens : builtin.streamList record ⟨[], .interrupted⟩ = .error .unreadable := by
    change (Decoder.list record.decode).run (.ofBytes [] .interrupted) = _
    rw [Source.ofBytes, Utf8.pieces]
    rfl
  have settles : Settles (builtin.streamList record) := fun bytes more ending =>
    streams.run (Source.ofBytes_continues bytes more ending)
  exact (Puller.run_ofReader opens settles stream).symm

end Json.Codec

namespace Codecs

theorem builtin_unpacksStreams : builtin.UnpacksStreams := by
  refine ⟨.ofFunction Gzip.unpack, fun bytes => (Unpacker.run_ofFunction ?_ ?_ bytes).symm⟩
  · rfl
  · exact fun _ _ tail whole => Gzip.unpack_append whole tail

end Codecs
end Keypad
