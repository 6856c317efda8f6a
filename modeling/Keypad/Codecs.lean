import Keypad.Files
import Keypad.Json.Record

/-!
What the library leaves to others: to take the texts of JSON apart and to put them together, and to
unpack files. Whatever needs one of these is given the codecs that do it.
-/
namespace Keypad

/-- A reader and writer of JSON. -/
structure Json.Codec where
  /-- Reads a whole text as a record. -/
  readRecord : {α : Type} → Json.Record α → Text → Except Json.Fault α
  /-- Reads a whole text as a list of records. -/
  readList : {α : Type} → Json.Record α → Text → Except Json.Fault (List α)
  /-- Reads a stream of bytes as a list of records. -/
  streamList : {α : Type} → Json.Record α → ByteStream → Except Json.Fault (List α)
  /-- Writes a value without any blanks. -/
  compact : Json.Value → Text
  /-- Writes a value with a line for each element. -/
  pretty : Json.Value → Text

structure Codecs where
  json : Json.Codec
  /-- Unpacks the first member of a packed file. The text breaks off where the file is damaged. -/
  unpack : List UInt8 → ByteStream

end Keypad
