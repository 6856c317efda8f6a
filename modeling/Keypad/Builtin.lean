import Keypad.Builtin.Gzip.Member
import Keypad.Builtin.Json.Record
import Keypad.Builtin.Json.Value
import Keypad.Codecs
import Keypad.Schema

/-!
The codecs that the library brings with it. They stand in where no others are given. What is proved
of reading and writing holds of any codecs that do what they are relied on for.
-/
namespace Keypad

def Json.Codec.builtin : Json.Codec where
  readRecord record text := record.decode.run (.ofText text)
  readList record text := (Json.Decoder.list record.decode).run (.ofText text)
  streamList record stream :=
    (Json.Decoder.list record.decode).run (.ofBytes stream.bytes stream.ending)
  compact := Json.Value.compact
  pretty := Json.Value.pretty 0

def Codecs.builtin : Codecs := ⟨.builtin, Gzip.unpack⟩

def Schema.contacts : Json.Decoder (List Contact) := Json.Decoder.list contact.decode

end Keypad
