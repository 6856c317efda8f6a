import Keypad.Proofs.Name.Acceptance
import Keypad.Proofs.Name.Highlight

/-!
Words and tokens cut a name in the same way. The words stand on the longest stretches of dialable
characters, and spelling the characters of a word gives the token of the same rank, although tokens
are cut with nothing known but keys and words with nothing known but places and letters.
-/
namespace Keypad

/-- Spans from left to right that stand exactly on the characters of a kind, with some other
character between any two. So each of them is a longest stretch of such characters. -/
structure Span.Stretches (kind : Char → Bool) (text : Text) (spans : List Span) : Prop where
  filled : ∀ span ∈ spans, span.start < span.stop ∧ span.stop ≤ text.length
  apart : spans.Pairwise fun a b =>
    ∃ gap c, a.stop ≤ gap ∧ gap < b.start ∧ text[gap]? = some c ∧ kind c = false
  covers : ∀ index, (∃ span ∈ spans, span.covers index = true) ↔
    ∃ c, text[index]? = some c ∧ kind c = true

theorem Key.isDigit_char (key : Key) : key.char.isDigit = true := by
  revert key
  decide

namespace Layout

/-- Each character of a text by the numeral of its key; a character without one is normalized. -/
def spell (layout : Layout) (text : Text) : Text :=
  text.map fun c => layout.digitChar (layout.normalize c)

theorem digitChar_of_numeral? {layout : Layout} {c digit : Char}
    (h : layout.numeral? c = some digit) : layout.digitChar (layout.normalize c) = digit := by
  obtain ⟨key, found, rfl⟩ := Option.map_eq_some_iff.mp h
  exact digitChar_of_key? (by rw [key?_normalize, found])

end Layout

namespace Name

variable {layout : Layout} {name : Text} {word : Word}

theorem isDigit_of_numeralAt? {index : Nat} {digit : Char}
    (h : numeralAt? layout name index = some digit) : digit.isDigit = true := by
  obtain ⟨c, -, typed⟩ := Option.bind_eq_some_iff.mp h
  obtain ⟨key, -, rfl⟩ := Option.map_eq_some_iff.mp typed
  exact key.isDigit_char

theorem getElem?_spell {index : Nat} {digit : Char}
    (h : numeralAt? layout name index = some digit) : (layout.spell name)[index]? = some digit := by
  obtain ⟨c, here, typed⟩ := Option.bind_eq_some_iff.mp h
  rw [Layout.spell, List.getElem?_map, here, Option.map_some, Layout.digitChar_of_numeral? typed]

section

variable {words : List Word}

theorem Spaced.numeralAt? (h : Spaced layout name words) (mem : word ∈ words) {i : Nat}
    (inside : i < word.keys.length) :
    Name.numeralAt? layout name (word.start + i) = some word.keys[i] := by
  rw [h.typed word mem i inside, List.getElem?_eq_getElem inside]

theorem Spaced.stop_le_length (h : Spaced layout name words) (mem : word ∈ words) :
    word.stop ≤ name.length := by
  have filled := h.nonempty word mem
  have last := h.numeralAt? mem (Nat.sub_lt filled Nat.one_pos)
  obtain ⟨c, here, -⟩ := Option.bind_eq_some_iff.mp last
  obtain ⟨inside, -⟩ := List.getElem?_eq_some_iff.mp here
  rw [Word.stop]
  omega

theorem Spaced.slice_spell (h : Spaced layout name words) (mem : word ∈ words) :
    word.span.slice (layout.spell name) = word.keys := by
  rw [Span.slice_eq]
  change ((layout.spell name).take (word.start + word.keys.length)).drop word.start = word.keys
  apply List.ext_getElem?
  intro i
  rw [List.getElem?_drop, List.getElem?_take]
  by_cases inside : i < word.keys.length
  · rw [if_pos (by omega), getElem?_spell (h.numeralAt? mem inside),
      List.getElem?_eq_getElem inside]
  · rw [if_neg (by omega), List.getElem?_eq_none (by omega)]

end

/-- The words of a name stand on the longest stretches of its dialable characters. -/
theorem stretches_words (layout : Layout) (name : Text) :
    Span.Stretches layout.isDialable name ((words layout name).map Word.span) := by
  have spaced := spaced_words layout name
  constructor
  case filled =>
    intro span mem
    obtain ⟨word, among, rfl⟩ := List.mem_map.mp mem
    exact ⟨Nat.lt_add_of_pos_right (spaced.nonempty word among), spaced.stop_le_length among⟩
  case apart =>
    refine List.pairwise_map.mpr (spaced.apart.imp_of_mem ?_)
    rintro a b - among ⟨order, -⟩
    have filled := spaced.nonempty b among
    have inside : b.start + b.keys.length ≤ name.length := spaced.stop_le_length among
    rcases spaced.opens b among with first | ⟨-, silent⟩
    · omega
    · obtain ⟨c, here, separator⟩ := exists_silent (by omega) silent
      exact ⟨b.start - 1, c, Nat.le_sub_one_of_lt order, Nat.sub_one_lt (by omega), here, separator⟩
  case covers =>
    intro index
    rw [← isSome_numeralAt?_iff]
    constructor
    · rintro ⟨span, mem, covered⟩
      obtain ⟨word, among, rfl⟩ := List.mem_map.mp mem
      obtain ⟨low, high⟩ : word.start ≤ index ∧ index < word.start + word.keys.length :=
        Span.covers_iff.mp covered
      have here := spaced.numeralAt? among (show index - word.start < word.keys.length by omega)
      rw [Nat.add_sub_cancel' low] at here
      exact Option.isSome_iff_exists.mpr ⟨_, here⟩
    · intro typed
      obtain ⟨run, ran, low, high⟩ :=
        (Run.cut_ofText layout name name 0 rfl).holds index (Nat.zero_le _) typed
      rw [← toRun_words] at ran
      obtain ⟨word, among, rfl⟩ := List.mem_map.mp ran
      exact ⟨word.span, List.mem_map_of_mem among, Span.covers_iff.mpr ⟨low, high⟩⟩

/-- The words and the tokens of a name cut it in the same way. The words stand exactly on the
characters that are dialable when normalized, none of them is empty, and a character that is not
dialable lies between any two. There are as many of them as tokens, each is spelled by the token of
its rank, and tokens are made of numerals. -/
theorem words_match_tokens (layout : Layout) (name : Text) :
    let spans := (words layout name).map Word.span
    Span.Stretches (fun c => layout.isDialable (layout.normalize c)) name spans ∧
      spans.length = (tokens layout name).length ∧
      spans.map (fun span => span.slice (layout.spell name)) = tokens layout name ∧
      (words layout name).map (fun word => word.keys) = tokens layout name ∧
      ∀ token ∈ tokens layout name, ∀ c ∈ token, c.isDigit = true := by
  intro spans
  have spaced := spaced_words layout name
  have spelled : spans.map (fun span => span.slice (layout.spell name)) = tokens layout name := by
    rw [← keys_words, List.map_map]
    exact List.map_congr_left fun word mem => spaced.slice_spell mem
  refine ⟨?_, ?_, spelled, keys_words layout name, ?_⟩
  · simp only [Layout.isDialable_normalize]
    exact stretches_words layout name
  · exact (List.length_map _).symm.trans (congrArg List.length spelled)
  · intro token mem c among
    rw [← keys_words] at mem
    obtain ⟨word, found, rfl⟩ := List.mem_map.mp mem
    obtain ⟨i, inside, rfl⟩ := List.getElem_of_mem among
    exact isDigit_of_numeralAt? (spaced.numeralAt? found inside)

end Name
end Keypad
