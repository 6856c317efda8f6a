import Keypad.Codecs
import Mathlib.Data.List.Induction

/-!
What readers of streams are relied on for. A reader of JSON pulls one byte after the other. It may
refuse at any byte, and otherwise it goes on to the end, since nothing but blanks may stand behind
the value; where the stream breaks off, so does the reader. What unpacks a file takes its bytes in
the same way, and looks at no byte behind the one that completes the first member.
-/
namespace Keypad

open Json (Fault Record)

variable {α σ ρ : Type}

/-- A fold that has stopped is not taken further by more bytes. -/
theorem foldlM_append_of_error {step : σ → UInt8 → Except ρ σ} {start : σ} {bytes : List UInt8}
    {result : ρ} (h : bytes.foldlM step start = .error result) (more : List UInt8) :
    (bytes ++ more).foldlM step start = .error result := by
  rw [List.foldlM_append, h]
  rfl

/-! ## Readers of JSON -/

/-- A reader that pulls the bytes of a stream. -/
structure Puller (α : Type) where
  State : Type
  start : State
  take : State → UInt8 → Except Fault State
  /-- What the bytes come to that have been taken, when there are no more. -/
  close : State → Except Fault α

def Puller.run (puller : Puller α) (stream : ByteStream) : Except Fault α :=
  match stream.bytes.foldlM puller.take puller.start with
  | .error fault => .error fault
  | .ok state =>
    match stream.ending with
    | .finished => puller.close state
    | .interrupted => .error .unreadable

/-- Nothing is accepted before a break: it is met, or a fault that is met whatever comes behind the
bytes. -/
theorem Puller.run_interrupted (puller : Puller α) (bytes : List UInt8) :
    puller.run ⟨bytes, .interrupted⟩ = .error .unreadable ∨
      ∃ fault, ∀ more ending, puller.run ⟨bytes ++ more, ending⟩ = .error fault := by
  cases taken : bytes.foldlM puller.take puller.start with
  | ok state =>
      left
      rw [run, taken]
  | error fault =>
      refine .inr ⟨fault, fun more ending => ?_⟩
      rw [run, foldlM_append_of_error taken more]

/-- Lists are read from streams by pulling. -/
def Json.Codec.ReadsStreams (codec : Json.Codec) : Prop :=
  ∀ {α : Type} (record : Record α), ∃ puller : Puller (List α),
    ∀ stream, codec.streamList record stream = puller.run stream

/-! ## Unpacking -/

/-- What unpacks a file takes its bytes one after the other and may be done with the text at any of
them. A file that ends before that is damaged. -/
structure Unpacker where
  State : Type
  start : State
  take : State → UInt8 → Except ByteStream State
  /-- The text that has been handed over before the file ended. -/
  handed : State → List UInt8

def Unpacker.run (unpacker : Unpacker) (bytes : List UInt8) : ByteStream :=
  match bytes.foldlM unpacker.take unpacker.start with
  | .error stream => stream
  | .ok state => ⟨unpacker.handed state, .interrupted⟩

/-- What is done with a member does not see what follows it. -/
theorem Unpacker.run_append {unpacker : Unpacker} {member text : List UInt8}
    (h : unpacker.run member = ⟨text, .finished⟩) (tail : List UInt8) :
    unpacker.run (member ++ tail) = ⟨text, .finished⟩ := by
  cases taken : member.foldlM unpacker.take unpacker.start with
  | ok state =>
      rw [run, taken] at h
      cases h
  | error stream =>
      rw [run, taken] at h
      rw [run, foldlM_append_of_error taken tail]
      exact h

/-- Files are unpacked byte by byte. -/
def Codecs.UnpacksStreams (codecs : Codecs) : Prop :=
  ∃ unpacker : Unpacker, ∀ bytes, codecs.unpack bytes = unpacker.run bytes

/-! ## Readers that keep what they have taken

A reader that is given as a function of all its bytes takes them one by one, if more bytes do not
change what it has come to. -/

/-- Takes one more byte and stops if the bytes so far say so. -/
def untilStop (stop : List UInt8 → Option ρ) (bytes : List UInt8) (byte : UInt8) :
    Except ρ (List UInt8) :=
  match stop (bytes ++ [byte]) with
  | some result => .error result
  | none => .ok (bytes ++ [byte])

theorem foldlM_untilStop {stop : List UInt8 → Option ρ} (opens : stop [] = none)
    (stays : ∀ bytes result, stop bytes = some result →
      ∀ byte, stop (bytes ++ [byte]) = some result)
    (bytes : List UInt8) :
    bytes.foldlM (untilStop stop) [] =
      match stop bytes with
      | some result => .error result
      | none => .ok bytes := by
  induction bytes using List.reverseRecOn with
  | nil =>
      rw [opens]
      rfl
  | append_singleton bytes byte ih =>
      rw [List.foldlM_append, ih]
      cases stopped : stop bytes with
      | some result =>
          rw [stays bytes result stopped byte]
          rfl
      | none => exact bind_pure (untilStop stop bytes byte)

/-- The fault that bytes force that are read before a break: any but the break itself. -/
def forcedFault (read : ByteStream → Except Fault α) (bytes : List UInt8) : Option Fault :=
  match read ⟨bytes, .interrupted⟩ with
  | .error fault => if fault = .unreadable then none else some fault
  | .ok _ => none

/-- A reader that meets each break, or else a fault that it meets with any more bytes as well. -/
def Settles (read : ByteStream → Except Fault α) : Prop :=
  ∀ bytes more ending, read ⟨bytes, .interrupted⟩ = .error .unreadable ∨
    ∃ fault, read ⟨bytes, .interrupted⟩ = .error fault ∧ read ⟨bytes ++ more, ending⟩ = .error fault

theorem Settles.forcedFault_eq {read : ByteStream → Except Fault α} (settles : Settles read)
    (bytes : List UInt8) :
    (forcedFault read bytes = none ∧ read ⟨bytes, .interrupted⟩ = .error .unreadable) ∨
      ∃ fault, forcedFault read bytes = some fault ∧ fault ≠ .unreadable ∧
        ∀ more ending, read ⟨bytes ++ more, ending⟩ = .error fault := by
  by_cases broken : read ⟨bytes, .interrupted⟩ = .error .unreadable
  · exact .inl ⟨by rw [forcedFault, broken]; rfl, broken⟩
  · obtain ⟨fault, cut, -⟩ := (settles bytes [] .finished).resolve_left broken
    have other : fault ≠ .unreadable := fun same => broken (same ▸ cut)
    refine .inr ⟨fault, by rw [forcedFault, cut]; exact if_neg other, other, fun more ending => ?_⟩
    obtain ⟨fault', cut', whole⟩ := (settles bytes more ending).resolve_left broken
    rw [whole, ← cut', cut]

def Puller.ofReader (read : ByteStream → Except Fault α) : Puller α where
  State := List UInt8
  start := []
  take := untilStop (forcedFault read)
  close bytes := read ⟨bytes, .finished⟩

theorem Puller.run_ofReader {read : ByteStream → Except Fault α}
    (opens : read ⟨[], .interrupted⟩ = .error .unreadable) (settles : Settles read)
    (stream : ByteStream) : (ofReader read).run stream = read stream := by
  have start : forcedFault read [] = none := by
    rw [forcedFault, opens]
    rfl
  have stays : ∀ bytes fault, forcedFault read bytes = some fault →
      ∀ byte, forcedFault read (bytes ++ [byte]) = some fault := by
    intro bytes fault stopped byte
    rcases settles.forcedFault_eq bytes with ⟨goes, -⟩ | ⟨fault', stopped', other, forced⟩
    · rw [goes] at stopped
      cases stopped
    · cases stopped.symm.trans stopped'
      rw [forcedFault, forced]
      exact if_neg other
  obtain ⟨bytes, ending⟩ := stream
  have taken : bytes.foldlM (ofReader read).take (ofReader read).start = _ :=
    foldlM_untilStop start stays bytes
  rw [run, taken]
  rcases settles.forcedFault_eq bytes with ⟨goes, broken⟩ | ⟨fault, stopped, -, forced⟩
  · rw [goes]
    cases ending with
    | finished => rfl
    | interrupted => exact broken.symm
  · rw [stopped]
    have alone := forced [] ending
    rw [List.append_nil] at alone
    exact alone.symm

/-- The text of a file whose first member is whole. -/
def wholeText (unpack : List UInt8 → ByteStream) (file : List UInt8) : Option ByteStream :=
  match (unpack file).ending with
  | .finished => some (unpack file)
  | .interrupted => none

def Unpacker.ofFunction (unpack : List UInt8 → ByteStream) : Unpacker where
  State := List UInt8
  start := []
  take := untilStop (wholeText unpack)
  handed bytes := (unpack bytes).bytes

theorem Unpacker.run_ofFunction {unpack : List UInt8 → ByteStream}
    (opens : (unpack []).ending = .interrupted)
    (settles : ∀ member text tail, unpack member = ⟨text, .finished⟩ →
      unpack (member ++ tail) = ⟨text, .finished⟩)
    (bytes : List UInt8) : (ofFunction unpack).run bytes = unpack bytes := by
  have start : wholeText unpack [] = none := by rw [wholeText, opens]
  have stays : ∀ member stream, wholeText unpack member = some stream →
      ∀ byte, wholeText unpack (member ++ [byte]) = some stream := by
    intro member stream whole byte
    cases ended : (unpack member).ending with
    | finished =>
        rw [wholeText, ended] at whole
        have same := settles member (unpack member).bytes [byte] (by rw [← ended])
        rw [wholeText, same, ← whole, ← ended]
    | interrupted =>
        rw [wholeText, ended] at whole
        cases whole
  have taken : bytes.foldlM (ofFunction unpack).take (ofFunction unpack).start = _ :=
    foldlM_untilStop start stays bytes
  rw [run, taken, wholeText]
  cases ended : (unpack bytes).ending with
  | finished => rfl
  | interrupted =>
      change (⟨(unpack bytes).bytes, .interrupted⟩ : ByteStream) = unpack bytes
      rw [← ended]

end Keypad
