import Keypad.Loading
import Keypad.Proofs.Builtin

/-!
Contact lists are loaded from packed files as from plain ones. A member that is unpacked whole gives
what its text gives in a plain file, whatever follows the member. An archive that is damaged is
never accepted: text is read up to the damage, and the failure is the one that this text forces by
itself, or the damage. The codecs have to read streams and files from the front, byte by byte.
-/
namespace Keypad.Contact

open Json (Fault)

variable {codecs : Codecs} {files : FileSystem} {path : Text} {bytes packed : List UInt8}

/-! ## Streams of contacts -/

/-- The bytes of a text force a fault: it is met whatever comes behind them, be it more bytes, the
end of the text or a break. -/
def Forces (codecs : Codecs) (bytes : List UInt8) (fault : Fault) : Prop :=
  ∀ more ending, codecs.json.streamList Schema.contact ⟨bytes ++ more, ending⟩ = .error fault

theorem Forces.alone {fault : Fault} (h : Forces codecs bytes fault) (ending : Ending) :
    codecs.json.streamList Schema.contact ⟨bytes, ending⟩ = .error fault := by
  have alone := h [] ending
  rwa [List.append_nil] at alone

/-- A text that breaks off fails with the fault that it forces, or with the break. -/
theorem streamList_interrupted (reads : codecs.json.ReadsStreams) (bytes : List UInt8) :
    ∃ fault, codecs.json.streamList Schema.contact ⟨bytes, .interrupted⟩ = .error fault ∧
      (fault = .unreadable ∨ Forces codecs bytes fault) := by
  obtain ⟨puller, pulls⟩ := reads Schema.contact
  rcases puller.run_interrupted bytes with broken | ⟨fault, forced⟩
  · exact ⟨.unreadable, (pulls _).trans broken, .inl rfl⟩
  · have forces : Forces codecs bytes fault := fun more ending =>
      (pulls _).trans (forced more ending)
    exact ⟨fault, forces.alone .interrupted, .inr forces⟩

theorem Forces.of_interrupted (reads : codecs.json.ReadsStreams) {fault : Fault}
    (h : codecs.json.streamList Schema.contact ⟨bytes, .interrupted⟩ = .error fault)
    (other : fault ≠ .unreadable) : Forces codecs bytes fault := by
  obtain ⟨fault', failed, broken | forced⟩ := streamList_interrupted reads bytes
  · exact absurd ((Except.error.inj (h.symm.trans failed)).trans broken) other
  · cases h.symm.trans failed
    exact forced

theorem ofStream_error {stream : ByteStream} {fault : Fault}
    (h : codecs.json.streamList Schema.contact stream = .error fault) :
    ofStream codecs stream = .error (.json fault) := by
  rw [ofStream, h]

/-! ## Packed files -/

/-- The name of a file ends in the extension of packed files, in letters of any case. -/
def HasGzipName (path : Text) : Prop :=
  ∃ g ∈ ['g', 'G'], ∃ z ∈ ['z', 'Z'], Path.extension? path = some [g, z]

theorem HasGzipName.isGzip (h : HasGzipName path) : Path.isGzip path = true := by
  obtain ⟨g, letter, z, letter', extension⟩ := h
  simp only [List.mem_cons, List.not_mem_nil, or_false] at letter letter'
  rw [Path.isGzip, extension]
  rcases letter with rfl | rfl <;> rcases letter' with rfl | rfl <;> rfl

theorem load_packed (codecs : Codecs) (name : HasGzipName path)
    (opened : files path = .file packed) :
    load files path codecs = ofStream codecs (codecs.unpack packed) := by
  rw [load, opened]
  dsimp only
  rw [stream, if_pos name.isGzip]

theorem load_plain (codecs : Codecs) (name : Path.isGzip path = false)
    (opened : files path = .file bytes) :
    load files path codecs = ofStream codecs ⟨bytes, .finished⟩ := by
  rw [load, opened]
  dsimp only
  rw [stream, if_neg (by rw [name]; decide)]

/-- What follows a member that is unpacked whole is not seen. -/
theorem unpack_append (unpacks : codecs.UnpacksStreams) {member text : List UInt8}
    (whole : codecs.unpack member = ⟨text, .finished⟩) (tail : List UInt8) :
    codecs.unpack (member ++ tail) = ⟨text, .finished⟩ := by
  obtain ⟨unpacker, runs⟩ := unpacks
  rw [runs] at whole ⊢
  exact unpacker.run_append whole tail

/-- A packed file is loaded as its first member unpacked, whatever follows that member. A packed
file that is damaged is never accepted: it fails with the fault that the text before the damage
forces, and with the damage where that text forces none. -/
theorem load_gzip (reads : codecs.json.ReadsStreams) (unpacks : codecs.UnpacksStreams)
    (name : HasGzipName path) (opened : files path = .file packed) :
    (∀ member tail text, packed = member ++ tail → codecs.unpack member = ⟨text, .finished⟩ →
      ∀ files' plain, Path.isGzip plain = false → files' plain = .file text →
        load files path codecs = load files' plain codecs) ∧
    ∀ text, codecs.unpack packed = ⟨text, .interrupted⟩ →
      (∃ fault, load files path codecs = .error (.json fault) ∧
        (fault = .unreadable ∨ Forces codecs text fault)) ∧
      ∀ fault, Forces codecs text fault → load files path codecs = .error (.json fault) := by
  constructor
  · rintro member tail text rfl whole files' plain other opened'
    rw [load_packed codecs name opened, unpack_append unpacks whole tail,
      load_plain codecs other opened']
  · intro text damaged
    have loaded : load files path codecs = ofStream codecs ⟨text, .interrupted⟩ := by
      rw [load_packed codecs name opened, damaged]
    constructor
    · obtain ⟨fault, failed, cause⟩ := streamList_interrupted reads text
      exact ⟨fault, loaded.trans (ofStream_error failed), cause⟩
    · intro fault forced
      exact loaded.trans (ofStream_error (forced.alone .interrupted))

/-- Two contacts in a compressed member. -/
def annAndBo : List UInt8 :=
  [0x1F, 0x8B, 8, 0, 0, 0, 0, 0, 0, 3, 0x8B, 0xAE, 0x56, 0xCA, 0x4B, 0xCC, 0x4D, 0x55, 0xB2, 0x52,
    0x72, 0xCC, 0xCB, 0x53, 0xAA, 0xD5, 0x81, 0x73, 0x9D, 0xF2, 0x95, 0x6A, 0x63, 0x01, 0x26, 0x92,
    0x8D, 0x0F, 0x1E, 0, 0, 0]

/-- The member is loaded with a stray byte behind it. Without its last byte it is damaged, though
the list itself is complete and forces nothing. With another first symbol in the data the checksum
is wrong as well, but the brace in place of the bracket is met first. -/
theorem load_gzip_annAndBo :
    load (fun _ => .file (annAndBo ++ [0x21])) "c.json.GZ".toList =
      .ok [⟨"Ann".toList, none⟩, ⟨"Bo".toList, none⟩] ∧
    load (fun _ => .file annAndBo.dropLast) "c.json.GZ".toList = .error (.json .unreadable) ∧
    load (fun _ => .file (annAndBo.set 10 0xAB)) "c.json.GZ".toList =
      .error (.json .mismatched) := by
  have reads : Codecs.builtin.json.ReadsStreams := Json.Codec.builtin_readsStreams
  have name : HasGzipName "c.json.GZ".toList :=
    ⟨'G', by decide, 'Z', by decide, by decide +kernel⟩
  let text (first : Char) : List UInt8 :=
    (first.toString ++ "\x7b\"name\":\"Ann\"\x7d,\x7b\"name\":\"Bo\"\x7d]").toUTF8.toList
  have whole : Codecs.builtin.unpack annAndBo = ⟨text '[', .finished⟩ := by decide +kernel
  have broken : Codecs.builtin.unpack annAndBo.dropLast = ⟨text '[', .interrupted⟩ := by
    decide +kernel
  have wrong : Codecs.builtin.unpack (annAndBo.set 10 0xAB) = ⟨text '\x7b', .interrupted⟩ := by
    decide +kernel
  have read : Codecs.builtin.json.streamList Schema.contact ⟨text '[', .finished⟩ =
      .ok [⟨"Ann".toList, none⟩, ⟨"Bo".toList, none⟩] := by decide +kernel
  have refused : Codecs.builtin.json.streamList Schema.contact ⟨text '\x7b', .interrupted⟩ =
      .error .mismatched := by decide +kernel
  have loads (packed : List UInt8) :=
    @load_gzip .builtin (fun _ => .file packed) _ _ reads Codecs.builtin_unpacksStreams name rfl
  refine ⟨?_, ?_, ?_⟩
  · have same := (loads _).1 annAndBo [0x21] _ rfl whole (fun _ => .file (text '['))
      "c.json".toList (by decide +kernel) rfl
    refine same.trans ?_
    rw [load_plain .builtin (by decide +kernel) rfl, ofStream, read]
  · obtain ⟨fault, failed, cause⟩ := ((loads _).2 _ broken).1
    rcases cause with rfl | forced
    · exact failed
    · exact absurd (read.symm.trans (forced.alone .finished)) nofun
  · exact ((loads _).2 _ wrong).2 _ (.of_interrupted reads refused (by decide))

end Keypad.Contact
