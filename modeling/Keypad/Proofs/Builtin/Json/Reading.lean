import Keypad.Builtin.Json.Decoder
import Keypad.Proofs.Json.Grammar

/-!
What it means that a decoder restores a value from its written form. The written form stands behind
any blanks and in front of anything that may follow a value, and the decoder takes the form and no
more. That is the form of the statement that carries through lists and records.
-/
namespace Keypad.Json

open Grammar (Blank)

namespace Source

theorem before_cons (c : Char) (text : Text) (rest : Source) :
    before (c :: text) rest = .char c (before text rest) := rfl

theorem before_append (front back : Text) (rest : Source) :
    before (front ++ back) rest = before front (before back rest) :=
  List.foldr_append

/-- What may follow a value: nothing, a mark of the array or the object around it, or a blank. -/
inductive Ends : Source → Prop where
  | finished : Ends (.stop .finished)
  | mark {c : Char} (rest : Source) (h : c = ',' ∨ c = ']' ∨ c = '\x7d') : Ends (.char c rest)
  | blank {c : Char} (rest : Source) (h : c = ' ' ∨ c = '\n' ∨ c = '\t' ∨ c = '\x0d') :
      Ends (.char c rest)

/-! ## Blanks -/

theorem isBlank_of_blank {c : Char} (h : c = ' ' ∨ c = '\n' ∨ c = '\t' ∨ c = '\x0d') :
    isBlank c = true := by
  rcases h with rfl | rfl | rfl | rfl <;> rfl

theorem skipBlanks_before {blanks : Text} (h : Blank blanks) (source : Source) :
    ∃ le, (before blanks source).skipBlanks = ⟨source.skipBlanks.rest, le⟩ := by
  induction blanks with
  | nil => exact ⟨_, rfl⟩
  | cons c blanks ih =>
      obtain ⟨le, skipped⟩ := ih fun d mem => h d (List.mem_cons_of_mem _ mem)
      rw [before_cons, skipBlanks, isBlank_of_blank (h c List.mem_cons_self), skipped]
      exact ⟨_, rfl⟩

/-- The first character of a source that is no blank, with what follows it. -/
def Meets (source : Source) (c : Char) (rest : Source) : Prop :=
  ∃ le, source.skipBlanks = ⟨.char c rest, le⟩

/-- Behind blanks stands what they stand before, when that is no blank itself. -/
theorem meets_behind {blanks : Text} (h : Blank blanks) {c : Char} (visible : isBlank c = false)
    (rest : Source) : (before blanks (.char c rest)).Meets c rest := by
  obtain ⟨le, skipped⟩ := skipBlanks_before h (.char c rest)
  have stays : (Source.char c rest).skipBlanks.rest = .char c rest := by
    rw [skipBlanks, visible]
    rfl
  simp only [stays] at skipped
  exact ⟨_, skipped⟩

theorem look_eq {α : Type} {source rest : Source} {c : Char}
    {le : (char c rest).length ≤ source.length} (met : source.skipBlanks = ⟨.char c rest, le⟩)
    (next : (c : Char) → (rest : Source) → (char c rest).length ≤ source.length →
      Except Fault α) :
    source.look next = next c rest le := by
  rw [look, met]

end Source

/-! ## Scans -/

/-- A scan finds a value and leaves a given rest. -/
def Reads {α : Type} {source : Source} (scan : Except Fault (Scanned α source)) (value : α)
    (rest : Source) : Prop :=
  ∃ shorter, scan = .ok ⟨value, rest, shorter⟩

/-- A scan that is carried over to another source, or to another value, finds what it is carried
over to. -/
theorem Reads.through {α β : Type} {part source rest left : Source} {value : α} {other : β}
    {scan : Except Fault (Scanned α part)} {f : Scanned α part → Scanned β source}
    (h : Reads scan value rest)
    (carries : ∀ shorter, ∃ closer, f ⟨value, rest, shorter⟩ = ⟨other, left, closer⟩) :
    Reads (scan.map f) other left := by
  obtain ⟨shorter, found⟩ := h
  obtain ⟨closer, carried⟩ := carries shorter
  exact ⟨closer, by rw [found, Except.map, carried]⟩

namespace Decoder

variable {α : Type} {decoder : Decoder α} {written : Text} {value : α}

/-- A decoder reads from a source what its scan finds at the first character. -/
theorem reads_ofFirst {scan : (c : Char) → (rest : Source) → Except Fault (Scanned α (.char c rest))}
    {source rest left : Source} {c : Char} (met : source.Meets c rest)
    (h : Reads (scan c rest) value left) : Reads (ofFirst scan source) value left := by
  obtain ⟨le, met⟩ := met
  rw [ofFirst, Source.look_eq met]
  exact h.through fun _ => ⟨_, rfl⟩

theorem reads_mark {source rest : Source} {c : Char} (met : source.Meets c rest) :
    Reads (mark c source) () rest :=
  reads_ofFirst met (by rw [if_pos rfl]; exact ⟨_, rfl⟩)

/-- The characters that a value starts with. None is a blank, and none is a mark that an
array looks for in the place of an element. -/
def openers : List Char :=
  ['"', '[', '\x7b', 't', 'f', 'n', '-', '0', '1', '2', '3', '4', '5', '6', '7', '8', '9']

theorem opener_ne {c : Char} (h : c ∈ openers) {mark : Char} (other : mark ∉ openers) : c ≠ mark :=
  fun same => other (same ▸ h)

theorem isBlank_opener {c : Char} (h : c ∈ openers) : Source.isBlank c = false := by
  have visible : openers.all (!Source.isBlank ·) = true := by decide
  simpa using List.all_eq_true.mp visible c h

/-- A decoder takes a written form behind blanks from any source that goes on with it, and finds the
value. -/
structure Restores (decoder : Decoder α) (written : Text) (value : α) : Prop where
  opens : ∃ c more, written = c :: more ∧ c ∈ openers
  behind : ∀ blanks rest, Blank blanks → rest.Ends →
    Reads (decoder (Source.before blanks (Source.before written rest))) value rest

theorem Restores.reads (h : decoder.Restores written value) {rest : Source} (ends : rest.Ends) :
    Reads (decoder (Source.before written rest)) value rest :=
  h.behind [] rest nofun ends

/-- What a scan finds behind its first character is restored by the decoder. -/
theorem restores_ofFirst
    {scan : (c : Char) → (rest : Source) → Except Fault (Scanned α (.char c rest))} {c : Char}
    {more : Text} (opens : c ∈ openers)
    (h : ∀ rest, rest.Ends → Reads (scan c (Source.before more rest)) value rest) :
    (ofFirst scan).Restores (c :: more) value where
  opens := ⟨c, more, rfl, opens⟩
  behind _ rest blank ends :=
    reads_ofFirst (Source.meets_behind blank (isBlank_opener opens) _) (h rest ends)

theorem bool_restores (b : Bool) :
    bool.Restores (if b then "true".toList else "false".toList) b := by
  cases b with
  | true => exact restores_ofFirst (by decide) fun _ _ => ⟨_, rfl⟩
  | false => exact restores_ofFirst (by decide) fun _ _ => ⟨_, rfl⟩

theorem optional_restores_none : (optional decoder).Restores "null".toList none :=
  restores_ofFirst (by decide) fun _ _ => ⟨_, rfl⟩

/-- A value in quotes is not taken for the word that stands for nothing. -/
theorem Restores.optional {more : Text} (h : decoder.Restores ('"' :: more) value) :
    (optional decoder).Restores ('"' :: more) (some value) :=
  restores_ofFirst (by decide) fun _ ends => (h.reads ends).through fun _ => ⟨_, rfl⟩

end Decoder
end Keypad.Json
