import Keypad.Builtin.Json.Decoder

/-!
Sources that break off. A reader breaks off in the middle of a text, and the bytes it has not got
might have been any; a source that broke off is compared with each source it might have gone on to
be. A scan either breaks off as well, or it comes to the same result on both: a fault that is found
before the break is forced by what has been read.
-/
namespace Keypad.Json

namespace Source

/-- Stray bytes one after the other. -/
def strays (bytes : List UInt8) (rest : Source) : Source := bytes.foldr .stray rest

/-- A source that broke off, and one that it might have gone on to be. The bytes of a character that
was not complete are stray bytes before the break. -/
inductive Continues : Source → Source → Prop where
  | broken (whole : Source) : Continues (.stop .interrupted) whole
  | char (c : Char) {cut whole : Source} (h : Continues cut whole) :
      Continues (.char c cut) (.char c whole)
  | stray (byte : UInt8) {cut whole : Source} (h : Continues cut whole) :
      Continues (.stray byte cut) (.stray byte whole)
  | completed (byte : UInt8) {bytes : List UInt8} {c : Char} (rest : Source)
      (wide : 0x80 ≤ c.toNat) (short : bytes.length + 1 < c.utf8Size) :
      Continues (.stray byte (strays bytes (.stop .interrupted))) (.char c rest)

/-- A wide character has no meaning in JSON outside strings. -/
theorem ne_of_wide {c : Char} (wide : 0x80 ≤ c.toNat) {mark : Char} (narrow : mark.toNat < 0x80) :
    c ≠ mark := by
  rintro rfl
  omega

theorem isBlank_of_wide {c : Char} (wide : 0x80 ≤ c.toNat) : isBlank c = false := by
  simp [isBlank, ne_of_wide wide]

theorem skipBlanks_of_wide {c : Char} (wide : 0x80 ≤ c.toNat) (rest : Source) :
    (Source.char c rest).skipBlanks = .all _ := by
  rw [skipBlanks, isBlank_of_wide wide]
  rfl

theorem isDigit_of_wide {c : Char} (wide : 0x80 ≤ c.toNat) : c.isDigit = false := by
  have nine : '9'.toNat = 57 := rfl
  rw [← Bool.not_eq_true, Char.isDigit_iff_toNat]
  omega

end Source

open Source (Continues)

/-! ## Results -/

/-- The results of one reader on a source that broke off and on one it might have gone on to be: it
broke off, or met the same fault, or found what is related. -/
inductive Follows {α β : Type} (related : α → β → Prop) :
    Except Fault α → Except Fault β → Prop where
  | broken (whole : Except Fault β) : Follows related (.error .unreadable) whole
  | fault (fault : Fault) : Follows related (.error fault) (.error fault)
  | found {a : α} {b : β} (h : related a b) : Follows related (.ok a) (.ok b)

variable {α β γ δ : Type} {cut whole : Source}

theorem Follows.map {related : α → β → Prop} {other : γ → δ → Prop} {result : Except Fault α}
    {result' : Except Fault β} (h : Follows related result result') {f : α → γ} {g : β → δ}
    (carries : ∀ a b, related a b → other (f a) (g b)) :
    Follows other (result.map f) (result'.map g) := by
  cases h with
  | broken whole => exact .broken _
  | fault fault => exact .fault fault
  | found h => exact .found (carries _ _ h)

theorem Follows.bind {related : α → β → Prop} {other : γ → δ → Prop} {result : Except Fault α}
    {result' : Except Fault β} (h : Follows related result result') {f : α → Except Fault γ}
    {g : β → Except Fault δ} (next : ∀ a b, related a b → Follows other (f a) (g b)) :
    Follows other (result.bind f) (result'.bind g) := by
  cases h with
  | broken whole => exact .broken _
  | fault fault => exact .fault fault
  | found h => exact next _ _ h

/-- Two finds of the same value, behind which the sources still go together. -/
def Alike {cut whole : Source} (found : Scanned α cut) (found' : Scanned α whole) : Prop :=
  found.value = found'.value ∧ Continues found.rest found'.rest

/-- A decoder that is not misled by a break: it breaks off, or comes to the result that every
continuation comes to. -/
def Decoder.Streams (decoder : Decoder α) : Prop :=
  ∀ {cut whole : Source}, Continues cut whole → Follows Alike (decoder cut) (decoder whole)

/-- A decoder of values: one that is not misled by a break, and that refuses a wide character. -/
structure Decoder.StreamsValues (decoder : Decoder α) : Prop where
  follows : decoder.Streams
  wide : ∀ c rest, 0x80 ≤ c.toNat → decoder (.char c rest) = .error .malformed

/-! ## Blanks and words -/

theorem skipBlanks_continues {cut whole : Source} (h : Continues cut whole) :
    Continues cut.skipBlanks.rest whole.skipBlanks.rest := by
  induction h with
  | broken whole => exact .broken _
  | @char c cut whole h ih =>
      rw [Source.skipBlanks, Source.skipBlanks]
      split
      · exact ih
      · exact .char c h
  | stray byte h => exact .stray byte h
  | @completed byte bytes c rest wide short =>
      rw [Source.skipBlanks_of_wide wide]
      exact .completed byte rest wide short

theorem look_follows {α β : Type} {related : α → β → Prop}
    {next : (c : Char) → (rest : Source) → (Source.char c rest).length ≤ cut.length →
      Except Fault α}
    {next' : (c : Char) → (rest : Source) → (Source.char c rest).length ≤ whole.length →
      Except Fault β}
    (h : Continues cut whole)
    (same : ∀ c rest rest' le le', Continues rest rest' →
      Follows related (next c rest le) (next' c rest' le'))
    (wide : ∀ c rest le, 0x80 ≤ c.toNat → next' c rest le = .error .malformed) :
    Follows related (cut.look next) (whole.look next') := by
  have ahead := skipBlanks_continues h
  rw [Source.look, Source.look]
  generalize cut.skipBlanks = left, whole.skipBlanks = left' at ahead
  obtain ⟨_, le⟩ := left
  obtain ⟨_, le'⟩ := left'
  cases ahead with
  | broken => exact .broken _
  | char c h => exact same c _ _ le le' h
  | stray byte h => exact .fault _
  | completed byte rest high few =>
      dsimp only
      rw [wide _ _ le' high]
      exact .fault _

theorem Source.look_bind {source : Source}
    (next : (c : Char) → (rest : Source) → (Source.char c rest).length ≤ source.length →
      Except Fault α)
    (more : α → Except Fault β) :
    (source.look next).bind more = source.look fun c rest le => (next c rest le).bind more := by
  rw [look, look]
  rcases source.skipBlanks with ⟨ending | ⟨c, rest⟩ | ⟨byte, rest⟩, le⟩ <;> rfl

namespace Decoder

section OfFirst

variable {scan : (c : Char) → (rest : Source) → Except Fault (Scanned α (.char c rest))}

theorem ofFirst_of_wide {c : Char} (wide : 0x80 ≤ c.toNat) {rest : Source}
    (refused : scan c rest = .error .malformed) :
    ofFirst scan (.char c rest) = .error .malformed := by
  rw [ofFirst, Source.look, Source.skipBlanks_of_wide wide]
  dsimp only [Remainder.all]
  rw [refused]
  rfl

/-- What goes on with the first character that is no blank reads values when it goes on alike on
both sides and a wide character has no meaning to it. -/
theorem ofFirst_streams
    (same : ∀ c {rest rest'}, Continues rest rest' → Follows Alike (scan c rest) (scan c rest'))
    (wide : ∀ c rest, 0x80 ≤ c.toNat → scan c rest = .error .malformed) :
    (ofFirst scan).StreamsValues where
  follows h := by
    refine look_follows h (fun c rest rest' le le' h => ?_) (fun c rest le high => ?_)
    · exact (same c h).map fun _ _ alike => alike
    · rw [wide c rest high]
      rfl
  wide c rest high := ofFirst_of_wide high (wide c rest high)

end OfFirst

theorem mark_streams {wanted : Char} (narrow : wanted.toNat < 0x80) :
    (mark wanted).StreamsValues := by
  refine ofFirst_streams (fun c rest rest' h => ?_) (fun c rest wide => ?_)
  · split
    · exact .found ⟨rfl, h⟩
    · exact .fault _
  · rw [if_neg (Source.ne_of_wide wide narrow)]

end Decoder

/-- Two remainders behind which the sources still go together. -/
def AlikeLeft {cut whole : Source} (left : Remainder cut) (left' : Remainder whole) : Prop :=
  Continues left.rest left'.rest

theorem expect_follows {cut whole : Source} (h : Continues cut whole) {word : Text}
    (narrow : ∀ c ∈ word, c.toNat < 0x80) :
    Follows AlikeLeft (cut.expect word) (whole.expect word) := by
  induction word generalizing cut whole with
  | nil => exact .found h
  | cons c word ih =>
      cases h with
      | broken whole => exact .broken _
      | char d h =>
          rw [Source.expect, Source.expect]
          split
          · have more := ih h fun c mem => narrow c (List.mem_cons_of_mem _ mem)
            exact more.map fun _ _ alike => alike
          · exact .fault _
      | stray byte h => exact .fault _
      | completed byte rest wide short =>
          have other := Source.ne_of_wide wide (narrow c List.mem_cons_self)
          rw [Source.expect, Source.expect, if_neg other.symm]
          exact .fault _

/-! ## Bytes -/

namespace Source

open Utf8 (Lead gather decode? pieces)

theorem gather_append {count code found : Nat} {bytes : List UInt8}
    (h : gather count code bytes = some found) (more : List UInt8) :
    gather count code (bytes ++ more) = some found ∧ count ≤ bytes.length := by
  induction count generalizing code bytes with
  | zero => exact ⟨h, Nat.zero_le _⟩
  | succ count ih =>
      cases bytes with
      | nil => cases h
      | cons byte bytes =>
          rw [gather] at h
          split at h
          · rename_i following
            obtain ⟨again, enough⟩ := ih h
            rw [List.cons_append, gather, if_pos following]
            exact ⟨again, Nat.succ_le_succ enough⟩
          · cases h

/-- Bytes that a character needs and that are not all there are all of the kind that follows. -/
theorem following_of_gather {count code found : Nat} {bytes more : List UInt8}
    (h : gather count code bytes = none) (h' : gather count code (bytes ++ more) = some found) :
    bytes.length < count ∧ ∀ byte ∈ bytes, 0x80 ≤ byte.toNat ∧ byte.toNat < 0xC0 := by
  induction count generalizing code bytes with
  | zero => cases h
  | succ count ih =>
      cases bytes with
      | nil => exact ⟨Nat.succ_pos _, nofun⟩
      | cons byte bytes =>
          rw [gather] at h
          rw [List.cons_append, gather] at h'
          split at h'
          · rename_i following
            rw [if_pos following] at h
            obtain ⟨short, all⟩ := ih h h'
            exact ⟨Nat.succ_lt_succ short, List.forall_mem_cons.mpr ⟨following, all⟩⟩
          · cases h'

theorem decode?_following {byte : UInt8} (h : 0x80 ≤ byte.toNat ∧ byte.toNat < 0xC0)
    (rest : List UInt8) : decode? byte rest = none := by
  have lead : Lead.ofByte? byte = none := by
    rw [Lead.ofByte?]
    simp only [Nat.not_lt.mpr h.1, if_false, h.2, if_true]
  rw [decode?, lead]
  rfl

/-- Bytes of the kind that follows are stray bytes by themselves. -/
theorem ofBytes_following {bytes : List UInt8}
    (h : ∀ byte ∈ bytes, 0x80 ≤ byte.toNat ∧ byte.toNat < 0xC0)
    (ending : Ending) : ofBytes bytes ending = strays bytes (.stop ending) := by
  induction bytes with
  | nil =>
      rw [ofBytes, pieces]
      rfl
  | cons byte bytes ih =>
      obtain ⟨first, more⟩ := List.forall_mem_cons.mp h
      rw [ofBytes, pieces, decode?_following first]
      exact congrArg (Source.stray byte) (ih more)

theorem decode?_eq_some {byte : UInt8} {rest : List UInt8} {c : Char} {following : Nat}
    (h : decode? byte rest = some (c, following)) :
    ∃ lead code, Lead.ofByte? byte = some lead ∧ gather lead.following lead.share rest = some code ∧
      lead.least ≤ code ∧ c.toNat = code ∧ following = lead.following := by
  obtain ⟨lead, first, h⟩ := Option.bind_eq_some_iff.mp h
  obtain ⟨code, gathered, h⟩ := Option.bind_eq_some_iff.mp h
  by_cases valid : lead.least ≤ code ∧ code.isValidChar
  · rw [dif_pos valid] at h
    cases h
    exact ⟨lead, code, first, gathered, valid.1, rfl, rfl⟩
  · rw [dif_neg valid] at h
    cases h

theorem decode?_congr {byte : UInt8} {rest rest' : List UInt8}
    (h : ∀ lead, Lead.ofByte? byte = some lead →
      gather lead.following lead.share rest' = gather lead.following lead.share rest) :
    decode? byte rest' = decode? byte rest := by
  rw [decode?, decode?]
  cases first : Lead.ofByte? byte with
  | none => rfl
  | some lead => exact congrArg (Option.bind · _) (h lead first)

/-- Each number of following bytes has a least code point that needs them. -/
theorem least_of_ofByte? {byte : UInt8} {lead : Lead} (h : Lead.ofByte? byte = some lead) :
    (lead.following, lead.least) ∈ [(0, 0), (1, 0x80), (2, 0x800), (3, 0x10000)] := by
  rw [Lead.ofByte?] at h
  split at h
  · cases h; exact .head _
  · split at h
    · cases h
    · split at h
      · cases h; exact .tail _ (.head _)
      · split at h
        · cases h; exact .tail _ (.tail _ (.head _))
        · split at h
          · cases h; exact .tail _ (.tail _ (.tail _ (.head _)))
          · cases h

/-- A character takes more bytes than those that follow its first, and one with such bytes is
wide. -/
theorem utf8Size_of_least {c : Char} {following least : Nat}
    (mem : (following, least) ∈ [(0, 0), (1, 0x80), (2, 0x800), (3, 0x10000)])
    (h : least ≤ c.toNat) : following < c.utf8Size ∧ (following ≠ 0 → 0x80 ≤ c.toNat) := by
  have value : c.val.toNat = c.toNat := rfl
  have sizes : c.utf8Size = if c.toNat ≤ 0x7F then 1 else if c.toNat ≤ 0x7FF then 2
      else if c.toNat ≤ 0xFFFF then 3 else 4 := by
    rw [Char.utf8Size]
    simp only [UInt32.le_iff_toNat_le, value, UInt32.toNat_ofNatLT]
  rw [sizes]
  simp only [List.mem_cons, Prod.mk.injEq, List.not_mem_nil, or_false] at mem
  split
  · omega
  · split
    · omega
    · split <;> omega

theorem ofBytes_of_char {byte : UInt8} {rest : List UInt8} {c : Char} {following : Nat}
    (h : decode? byte rest = some (c, following)) (ending : Ending) :
    ofBytes (byte :: rest) ending = .char c (ofBytes (rest.drop following) ending) := by
  rw [ofBytes, pieces, h]
  rfl

theorem ofBytes_of_stray {byte : UInt8} {rest : List UInt8} (h : decode? byte rest = none)
    (ending : Ending) : ofBytes (byte :: rest) ending = .stray byte (ofBytes rest ending) := by
  rw [ofBytes, pieces, h]
  rfl

/-- Bytes that make no character, but make one with more bytes behind them, are a first byte and too
few bytes of the kind that follows. -/
theorem incomplete_of_decode? {byte : UInt8} {rest more : List UInt8} {c : Char} {following : Nat}
    (short : decode? byte rest = none) (long : decode? byte (rest ++ more) = some (c, following)) :
    (∀ byte ∈ rest, 0x80 ≤ byte.toNat ∧ byte.toNat < 0xC0) ∧ 0x80 ≤ c.toNat ∧
      rest.length + 1 < c.utf8Size := by
  obtain ⟨lead, code, first, gathered, least, rfl, rfl⟩ := decode?_eq_some long
  have lacking : gather lead.following lead.share rest = none := by
    cases enough : gather lead.following lead.share rest with
    | none => rfl
    | some other =>
        have same : decode? byte (rest ++ more) = decode? byte rest := by
          refine decode?_congr fun lead' again => ?_
          cases first.symm.trans again
          rw [(gather_append enough more).1, enough]
        rw [same, short] at long
        cases long
  obtain ⟨few, all⟩ := following_of_gather lacking gathered
  obtain ⟨size, wide⟩ := utf8Size_of_least (least_of_ofByte? first) least
  exact ⟨all, wide (Nat.ne_of_gt (Nat.zero_lt_of_lt few)), Nat.lt_of_le_of_lt few size⟩

/-- The source of some bytes, broken off behind them, may go on to be the source of more bytes. -/
theorem ofBytes_continues (bytes more : List UInt8) (ending : Ending) :
    Continues (ofBytes bytes .interrupted) (ofBytes (bytes ++ more) ending) := by
  induction size : bytes.length using Nat.strongRecOn generalizing bytes with
  | ind n ih =>
      cases bytes with
      | nil =>
          rw [ofBytes, pieces]
          exact .broken _
      | cons byte rest =>
          have smaller : rest.length < n := by
            rw [← size]
            exact Nat.lt_succ_self _
          rw [List.cons_append]
          cases short : decode? byte rest with
          | some found =>
              obtain ⟨c, following⟩ := found
              obtain ⟨lead, code, first, gathered, least, value, rfl⟩ := decode?_eq_some short
              obtain ⟨gatheredToo, enough⟩ := gather_append gathered more
              have long : decode? byte (rest ++ more) = some (c, lead.following) := by
                rw [← short]
                refine decode?_congr fun lead' again => ?_
                cases first.symm.trans again
                rw [gathered, gatheredToo]
              rw [ofBytes_of_char short, ofBytes_of_char long,
                List.drop_append_of_le_length enough]
              have fewer : (rest.drop lead.following).length < n := by
                rw [List.length_drop]
                omega
              exact .char c (ih _ fewer _ rfl)
          | none =>
              rw [ofBytes_of_stray short]
              cases long : decode? byte (rest ++ more) with
              | none =>
                  rw [ofBytes_of_stray long]
                  exact .stray byte (ih _ smaller rest rfl)
              | some found =>
                  obtain ⟨all, wide, few⟩ := incomplete_of_decode? short long
                  rw [ofBytes_of_char long, ofBytes_following all]
                  exact .completed byte _ wide few

end Source
end Keypad.Json
