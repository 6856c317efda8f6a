import Keypad.Proofs.Builtin.Json.Numeral

/-!
Everything that the grammar of JSON allows is passed over: blanks around the tokens, strings with any
escapes, numerals of any size, arrays and objects to any depth. A string is read as the text that its
body spells.
-/
namespace Keypad.Json

open Source (before before_cons before_append meets_behind)
open Grammar (Blank)

/-! ## Strings -/

namespace Quoted

open Grammar (shortEscapes hexDigits CodeUnit Plain IsBody Spells High Low)

theorem shortEscape?_of_mem {mark c : Char} (h : (mark, c) ∈ shortEscapes) :
    shortEscape? mark = some c ∧ mark ≠ 'u' := by
  have all : ∀ pair ∈ shortEscapes, shortEscape? pair.1 = some pair.2 ∧ pair.1 ≠ 'u' := by decide
  exact all _ h

theorem hexValue?_of_mem {pair : Char × Nat} (h : pair ∈ hexDigits) :
    hexValue? pair.1 = some pair.2 ∧ pair.1.utf8Size = 1 := by
  have all : ∀ pair ∈ hexDigits, hexValue? pair.1 = some pair.2 ∧ pair.1.utf8Size = 1 := by decide
  exact all pair h

theorem reads_hexDigits {digits : Text} {code : Nat} (h : CodeUnit digits code) (rest : Source) :
    Reads (codeUnit (before digits rest)) code rest := by
  cases h with
  | @digits a b c d ha hb hc hd =>
      obtain ⟨va, sa⟩ := hexValue?_of_mem ha
      obtain ⟨vb, sb⟩ := hexValue?_of_mem hb
      obtain ⟨vc, sc⟩ := hexValue?_of_mem hc
      obtain ⟨vd, sd⟩ := hexValue?_of_mem hd
      have enough : shortage? 4 (before [a.1, b.1, c.1, d.1] rest) = none := by
        simp [before, shortage?, sa, sb, sc, sd]
      unfold codeUnit
      rw [enough]
      simp only [before, List.foldr, va, vb, vc, vd]
      exact ⟨_, rfl⟩

/-! What the next piece of a string makes of what is read behind it. -/

theorem reads_close (rest : Source) : Reads (read (.char '"' rest)) [] rest := by
  rw [read]
  exact ⟨_, rfl⟩

theorem reads_of_char {source rest left : Source} {c : Char} {text : Text}
    (h : Reads (piece source) (.char c) rest) (more : Reads (read rest) text left) :
    Reads (read source) (c :: text) left := by
  obtain ⟨lt, found⟩ := h
  rw [read, found]
  exact more.through fun _ => ⟨_, rfl⟩

theorem reads_of_unit {source rest left : Source} {code : Nat} {text : Text}
    (h : Reads (piece source) (.unit code) rest) (high : isHigh code = false)
    (low : isLow code = false) (more : Reads (read rest) text left) :
    Reads (read source) (Char.ofNat code :: text) left := by
  obtain ⟨lt, found⟩ := h
  rw [read, found]
  simp only [high, low, Bool.false_eq_true, if_false]
  exact more.through fun _ => ⟨_, rfl⟩

/-! A body is taken apart into the pieces it was put together from. -/

theorem piece_plain {c : Char} (h : Plain c) (rest : Source) :
    Reads (piece (.char c rest)) (.char c) rest := by
  rw [piece, if_neg h.2.1, if_neg h.2.2, if_neg (Nat.not_lt.mpr h.1)]
  exact ⟨_, rfl⟩

theorem piece_short {mark c : Char} (h : (mark, c) ∈ shortEscapes) (rest : Source) :
    Reads (piece (.char '\\' (.char mark rest))) (.char c) rest := by
  obtain ⟨named, letter⟩ := shortEscape?_of_mem h
  rw [piece, if_neg (by decide), if_pos rfl, escaped, if_neg letter, named]
  exact ⟨_, rfl⟩

theorem piece_unit {digits : Text} {code : Nat} (h : CodeUnit digits code) (rest : Source) :
    Reads (piece (.char '\\' (.char 'u' (before digits rest)))) (.unit code) rest := by
  rw [piece, if_neg (by decide), if_pos rfl, escaped, if_pos rfl]
  exact ((reads_hexDigits h rest).through fun _ => ⟨_, rfl⟩).through fun _ => ⟨_, rfl⟩

/-- A piece that is no closing quote is passed over. -/
theorem skips_of_piece {source rest left : Source} {found : Piece}
    (h : Reads (piece source) found rest) (inside : found ≠ .close)
    (more : Reads (skip rest) () left) : Reads (skip source) () left := by
  obtain ⟨lt, first⟩ := h
  rw [skip, first]
  cases found with
  | close => exact absurd rfl inside
  | char c => exact more.through fun _ => ⟨_, rfl⟩
  | unit code => exact more.through fun _ => ⟨_, rfl⟩
  | stray => exact more.through fun _ => ⟨_, rfl⟩

theorem skips_body {body : Text} (h : IsBody body) (rest : Source) :
    Reads (skip (before body (.char '"' rest))) () rest := by
  induction h with
  | nil =>
      change Reads (skip (.char '"' rest)) () rest
      rw [skip]
      exact ⟨_, rfl⟩
  | plain h _ ih => exact skips_of_piece (piece_plain h _) nofun ih
  | short h _ ih => exact skips_of_piece (piece_short h _) nofun ih
  | unit h _ ih =>
      rw [before_cons, before_cons, before_append]
      exact skips_of_piece (piece_unit h _) nofun ih

/-- Two code units that form a pair are read as one character. -/
theorem reads_of_pair {source later rest left : Source} {high low : Nat} {text : Text}
    (h : Reads (piece source) (.unit high) later) (h' : Reads (piece later) (.unit low) rest)
    (isHigh' : isHigh high = true) (notLow : isLow high = false) (isLow' : isLow low = true)
    (more : Reads (read rest) text left) : Reads (read source) (pair high low :: text) left := by
  obtain ⟨lt, first⟩ := h
  obtain ⟨nearer, second⟩ := h'
  rw [read, first]
  simp only [isHigh', notLow, Bool.false_eq_true, if_false, if_true, second, isLow']
  exact more.through fun _ => ⟨_, rfl⟩

theorem isHigh_iff {code : Nat} : isHigh code = true ↔ High code := by
  simp [isHigh, High]

theorem isLow_iff {code : Nat} : isLow code = true ↔ Low code := by
  simp [isLow, Low]

theorem reads_body {body text : Text} (h : Spells body text) (rest : Source) :
    Reads (read (before body (.char '"' rest))) text rest := by
  induction h with
  | nil => exact reads_close rest
  | plain h _ ih => exact reads_of_char (piece_plain h _) ih
  | short h _ ih => exact reads_of_char (piece_short h _) ih
  | unit h notHigh notLow _ ih =>
      rw [before_cons, before_cons, before_append]
      rw [← isHigh_iff, Bool.not_eq_true] at notHigh
      rw [← isLow_iff, Bool.not_eq_true] at notLow
      exact reads_of_unit (piece_unit h _) notHigh notLow ih
  | @pair first second body text high low h h' isHigh isLow _ ih =>
      rw [before_cons, before_cons, before_append, before_cons, before_cons, before_append]
      have notLow : Quoted.isLow high = false := by
        rw [← Bool.not_eq_true, isLow_iff]
        exact fun low => Nat.not_lt.mpr low.1 isHigh.2
      have code : 0x10000 + (high - 0xD800) * 0x400 + (low - 0xDC00) =
          (high - 0xD800) * 0x400 + (low - 0xDC00) + 0x10000 := by omega
      rw [code]
      exact reads_of_pair (piece_unit h _) (piece_unit h' _) (isHigh_iff.mpr isHigh) notLow
        (isLow_iff.mpr isLow) ih

end Quoted

/-! ## Numerals -/

namespace Numeral

open Grammar (IsDigits IsWhole IsFraction IsExponent IsNumeral)

variable {exponent fraction : Text} {rest : Source}

/-- The digits in front of an exponent, or of what follows a value, end there. -/
theorem digits_exponent (h : IsExponent exponent) (ends : rest.Ends) :
    (before exponent rest).digits = ([], .all (before exponent rest)) := by
  cases h with
  | none => exact Source.digits_of_ends ends
  | some marked signed h => rcases marked with rfl | rfl <;> rfl

theorem digits_fraction (h : IsFraction fraction) (h' : IsExponent exponent) (ends : rest.Ends) :
    (before fraction (before exponent rest)).digits =
      ([], .all (before fraction (before exponent rest))) := by
  cases h with
  | none =>
      have exponent := digits_exponent h' ends
      exact exponent
  | some h => rfl

theorem reads_digits {digits : Text} (h : IsDigits digits) (ends : rest.digits = ([], .all rest))
    (short : Ending → Fault) : Reads (someDigits short (before digits rest)) digits rest :=
  reads_someDigits ends h.1 h.2 short

/-- A sign is taken off what stands before the digits, which are no sign themselves. -/
theorem sign_before {signs digits : Text} (rest : Source)
    (signed : signs = [] ∨ signs = ['-'] ∨ signs = ['+']) (h : IsDigits digits) :
    ∃ negative le, sign (before signs (before digits rest)) =
      (negative, ⟨before digits rest, le⟩) := by
  rcases signed with rfl | rfl | rfl
  · obtain ⟨c, more, rfl⟩ := List.exists_cons_of_ne_nil h.1
    have digit := h.2 c List.mem_cons_self
    change ∃ negative le, sign (.char c (before more rest)) = _
    rw [sign]
    · exact ⟨_, _, rfl⟩
    · intro _ minus
      cases minus
      exact absurd digit (by decide)
    · intro _ plus
      cases plus
      exact absurd digit (by decide)
  · exact ⟨_, _, rfl⟩
  · exact ⟨_, _, rfl⟩

theorem reads_exponent (h : IsExponent exponent) (ends : rest.Ends) (short : Ending → Fault) :
    ∃ found le, exponentDigits short (before exponent rest) = .ok (found, ⟨rest, le⟩) := by
  cases h with
  | none => exact ⟨none, Nat.le_refl _, exponentDigits_of_ends ends short⟩
  | @some mark signs digits marked signed h =>
      obtain ⟨lt, read⟩ := reads_digits h (Source.digits_of_ends ends) short
      obtain ⟨negative, le, unsigned⟩ := sign_before rest signed h
      rw [before_cons, before_append, exponentDigits, if_pos marked, unsigned]
      change ∃ found le, (someDigits short (before digits rest)).map _ = _
      rw [read]
      exact ⟨_, _, rfl⟩

theorem reads_fraction (h : IsFraction fraction) (h' : IsExponent exponent) (ends : rest.Ends)
    (short : Ending → Fault) :
    ∃ found le, fractionDigits short (before fraction (before exponent rest)) =
      .ok (found, ⟨before exponent rest, le⟩) := by
  cases h with
  | none =>
      refine ⟨none, Nat.le_refl _, ?_⟩
      cases h' with
      | none => exact fractionDigits_of_ends ends short
      | some marked signed h => rcases marked with rfl | rfl <;> rfl
  | some h =>
      obtain ⟨lt, read⟩ := reads_digits h (digits_exponent h' ends) short
      rw [before_cons, fractionDigits, read]
      exact ⟨_, _, rfl⟩

theorem reads_unsigned_parts {whole : Text} (h : IsWhole whole) (h' : IsFraction fraction)
    (h'' : IsExponent exponent) (ends : rest.Ends) (short : Ending → Fault) (negative : Bool) :
    ∃ numeral, Reads (unsigned short (fun _ => false) negative
      (before whole (before fraction (before exponent rest)))) numeral rest := by
  obtain ⟨_, first⟩ := reads_wholeDigits (digits_fraction h' h'' ends) h.1.1 h.1.2 h.2 short
  obtain ⟨_, _, second⟩ := reads_fraction h' h'' ends short
  obtain ⟨_, _, third⟩ := reads_exponent h'' ends short
  have intact : rest ≠ .stop .interrupted := by
    rintro rfl
    cases ends
  rw [unsigned, first]
  simp only [bind, Except.bind, second, third, Bool.false_eq_true, if_false, if_neg intact]
  exact ⟨_, _, rfl⟩

theorem skips_numeral {numeral : Text} (h : IsNumeral numeral) (ends : rest.Ends) :
    Reads (skip (before numeral rest)) () rest := by
  cases h with
  | @parts signs whole fraction exponent signed h h' h'' =>
      rw [before_append, before_append, before_append]
      rcases signed with rfl | rfl
      · obtain ⟨_, read⟩ := reads_unsigned_parts h h' h'' ends skipFault false
        obtain ⟨c, more, rfl⟩ := List.exists_cons_of_ne_nil h.1.1
        have digit := h.1.2 c List.mem_cons_self
        change Reads (skip (before (c :: more) _)) () rest
        rw [before_cons] at read ⊢
        rw [skip, scan]
        · exact read.through fun _ => ⟨_, rfl⟩
        · intro _ minus
          cases minus
          exact absurd digit (by decide)
      · obtain ⟨_, read⟩ := reads_unsigned_parts h h' h'' ends skipFault true
        exact (read.through fun _ => ⟨_, rfl⟩).through fun _ => ⟨_, rfl⟩

end Numeral

/-! ## Values -/

open Decoder (Restores openers opener_ne restores_ofFirst reads_ofFirst)
open Grammar (Further Row Head IsBody IsValue)

/-- What a value is passed over by, by its first character. -/
def skipFirst (c : Char) (rest : Source) : Except Fault (Scanned Unit (.char c rest)) :=
  if c = '[' then (skipElements true rest).map (·.behind c)
  else if c = '\x7b' then (skipMembers true rest).map (·.behind c)
  else skipLeaf c rest

theorem skipValue_eq : skipValue = Decoder.ofFirst skipFirst := by
  funext source
  rw [skipValue, Decoder.ofFirst, Source.look]
  rcases source.skipBlanks with ⟨ending | ⟨c, rest⟩ | ⟨byte, rest⟩, le⟩
  · rfl
  · dsimp only
    rw [skipFirst]
    split
    · cases skipElements true rest <;> rfl
    · split
      · cases skipMembers true rest <;> rfl
      · rfl
  · rfl

/-- What follows an item is none of its characters: a comma, the mark that closes the row, or blanks
before one of them. -/
theorem ends_further {items : List Text} {text : Text} (h : Further items text) {c : Char}
    (closing : c = ']' ∨ c = '\x7d') (rest : Source) : (before text (.char c rest)).Ends := by
  cases h with
  | done h =>
      cases text with
      | nil => exact .mark rest (.inr closing)
      | cons blank more => exact .blank _ (h blank List.mem_cons_self)
  | @next front _ _ _ _ h h' more =>
      cases front with
      | nil => exact .mark _ (.inl rfl)
      | cons blank front => exact .blank _ (h blank List.mem_cons_self)

/-- A value that is no array and no object is passed over by what its first character asks for. -/
theorem restores_leaf {c : Char} {more : Text} (opens : c ∈ openers) (array : c ≠ '[')
    (object : c ≠ '\x7b')
    (h : ∀ rest, rest.Ends → Reads (skipLeaf c (before more rest)) () rest) :
    Restores skipValue (c :: more) () := by
  rw [skipValue_eq]
  refine restores_ofFirst opens fun rest ends => ?_
  rw [skipFirst, if_neg array, if_neg object]
  exact h rest ends

theorem word_restores {word : String} (h : word ∈ ["null", "true", "false"]) :
    Restores skipValue word.toList () := by
  simp only [List.mem_cons, List.not_mem_nil, or_false] at h
  rcases h with rfl | rfl | rfl <;>
    exact restores_leaf (by decide) (by decide) (by decide) fun _ _ => ⟨_, rfl⟩

theorem quoted_restores {body : Text} (h : IsBody body) :
    Restores skipValue ('"' :: (body ++ ['"'])) () := by
  refine restores_leaf (by decide) (by decide) (by decide) fun rest _ => ?_
  rw [before_append, skipLeaf, if_pos rfl]
  exact (Quoted.skips_body h rest).through fun _ => ⟨_, rfl⟩

/-- A numeral starts with its sign or with a digit. -/
theorem Numeral.exists_eq_cons {numeral : Text} (h : Grammar.IsNumeral numeral) :
    ∃ c more, numeral = c :: more ∧ (c = '-' ∨ c.isDigit = true) := by
  cases h with
  | parts signed h =>
      rcases signed with rfl | rfl
      · obtain ⟨c, more, rfl⟩ := List.exists_cons_of_ne_nil h.1.1
        exact ⟨c, _, rfl, .inr (h.1.2 c List.mem_cons_self)⟩
      · exact ⟨'-', _, rfl, .inl rfl⟩

theorem numeral_restores {numeral : Text} (h : Grammar.IsNumeral numeral) :
    Restores skipValue numeral () := by
  obtain ⟨c, more, rfl, first⟩ := Numeral.exists_eq_cons h
  have opens : c ∈ openers := by
    rcases first with rfl | digit
    · decide
    · exact Decoder.mem_openers_of_isDigit digit
  have other : ∀ mark ∈ ['[', '\x7b', '"', 'n', 't', 'f'], c ≠ mark := by
    rintro mark mem rfl
    rcases first with rfl | digit
    · exact absurd mem (by decide)
    · have letters : ['[', '\x7b', '"', 'n', 't', 'f'].all (!·.isDigit) = true := by decide
      simpa [digit] using List.all_eq_true.mp letters c mem
  refine restores_leaf opens (other _ (by decide)) (other _ (by decide)) fun rest ends => ?_
  simp only [skipLeaf, if_neg (other '"' (by decide)), if_neg (other 'n' (by decide)),
    if_neg (other 't' (by decide)), if_neg (other 'f' (by decide)), if_pos first]
  exact Numeral.skips_numeral h ends

/-! Arrays and objects are passed over item by item; what is left of the row is what the induction
is on. -/

variable {blanks item : Text} {tail later left : Source}

/-- An element is passed over with what stands behind it: the bracket, or a comma and more. -/
theorem skips_element (h : Blank blanks) (restores : Restores skipValue item ())
    (ends : tail.Ends)
    (behind : tail.Meets ']' left ∨
      ∃ later, tail.Meets ',' later ∧ Reads (skipElements false later) () left)
    (first : Bool) : Reads (skipElements first (before blanks (before item tail))) () left := by
  obtain ⟨c, more, rfl, opens⟩ := restores.opens
  have value := restores.reads ends
  rw [before_cons] at value ⊢
  obtain ⟨_, element⟩ := meets_behind h (Decoder.isBlank_opener opens) (before more tail)
  obtain ⟨_, value⟩ := value
  have other : c ≠ ']' := opener_ne opens (by decide)
  rw [skipElements, element]
  simp only [other, false_and, if_false, value]
  rcases behind with ⟨_, closed⟩ | ⟨later, ⟨_, comma⟩, _, rest⟩
  · rw [closed]
    exact ⟨_, rfl⟩
  · rw [comma]
    simp only [rest]
    exact ⟨_, rfl⟩

/-- What follows an item, and then what follows its row. -/
theorem before_next (front after item text : Text) (rest : Source) :
    before (front ++ ',' :: (after ++ (item ++ text))) rest =
      before front (.char ',' (before after (before item (before text rest)))) := by
  simp only [before_append, before_cons]

theorem skips_elements {text : Text} {items : List Text} (further : Further items text)
    (head : Restores skipValue item ()) (others : ∀ item ∈ items, Restores skipValue item ())
    (h : Blank blanks) (first : Bool) (rest : Source) :
    Reads (skipElements first (before blanks (before item (before text (.char ']' rest))))) ()
      rest := by
  have ends := ends_further further (.inl rfl) rest
  induction further generalizing item blanks first with
  | done h' => exact skips_element h head ends (.inl (meets_behind h' rfl rest)) first
  | @next front after next text items h' h'' further ih =>
      obtain ⟨nextRestores, others⟩ := List.forall_mem_cons.mp others
      have more := ih nextRestores others h'' false (ends_further further (.inl rfl) rest)
      rw [before_next] at ends ⊢
      exact skips_element h head ends (.inr ⟨_, meets_behind h' rfl _, more⟩) first

theorem array_restores {text : Text} {items : List Text} (row : Row items text)
    (h : ∀ item ∈ items, Restores skipValue item ()) :
    Restores skipValue ('[' :: (text ++ [']'])) () := by
  rw [skipValue_eq]
  refine restores_ofFirst (by decide) fun rest _ => ?_
  have within : Reads (skipElements true (before text (.char ']' rest))) () rest := by
    cases row with
    | none blank =>
        obtain ⟨_, closed⟩ := meets_behind blank (c := ']') rfl rest
        rw [skipElements, closed]
        exact ⟨_, rfl⟩
    | some blank further =>
        obtain ⟨head, others⟩ := List.forall_mem_cons.mp h
        rw [before_append, before_append]
        exact skips_elements further head others blank true rest
  rw [before_append, skipFirst, if_pos rfl]
  exact within.through fun _ => ⟨_, rfl⟩

/-- A member that can be passed over: a name in quotes, a colon and a value. -/
def PassableMember (member : Text) : Prop :=
  ∃ body head value, member = head ++ value ∧ IsBody body ∧ Head body head ∧
    Restores skipValue value ()

theorem before_member (body front back value : Text) (rest : Source) :
    before ('"' :: (body ++ '"' :: (front ++ ':' :: back)) ++ value) rest =
      .char '"' (before body (.char '"' (before front (.char ':' (before back
        (before value rest)))))) := by
  simp only [before_append, before_cons]

/-- The name of a member with its quotes and the colon, and the value up to where it ends. -/
theorem PassableMember.parts {member : Text} (h : PassableMember member) (ends : tail.Ends) :
    ∃ afterQuote afterName afterColon, before member tail = .char '"' afterQuote ∧
      Reads (Quoted.skip afterQuote) () afterName ∧ Reads (colon afterName) () afterColon ∧
      Reads (skipValue afterColon) () tail := by
  obtain ⟨body, head, value, rfl, isBody, ⟨front, back⟩, restores⟩ := h
  exact ⟨_, _, _, before_member _ _ _ _ _, Quoted.skips_body isBody _,
    Decoder.reads_mark (meets_behind front rfl _), restores.behind _ tail back ends⟩

/-- A member is passed over with what stands behind it: the brace, or a comma and more. -/
theorem skips_member (h : Blank blanks) (member : PassableMember item) (ends : tail.Ends)
    (behind : tail.Meets '\x7d' left ∨
      ∃ later, tail.Meets ',' later ∧ Reads (skipMembers false later) () left)
    (first : Bool) : Reads (skipMembers first (before blanks (before item tail))) () left := by
  obtain ⟨afterQuote, afterName, afterColon, opened, ⟨_, name⟩, ⟨_, marked⟩, ⟨_, value⟩⟩ :=
    member.parts ends
  obtain ⟨_, quote⟩ := meets_behind h (c := '"') rfl afterQuote
  rw [opened, skipMembers, quote]
  simp only [show '"' ≠ '\x7d' by decide, false_and, if_false, if_true, name, marked, value]
  rcases behind with ⟨_, closed⟩ | ⟨later, ⟨_, comma⟩, _, rest⟩
  · rw [closed]
    exact ⟨_, rfl⟩
  · rw [comma]
    simp only [rest]
    exact ⟨_, rfl⟩

theorem skips_members {text : Text} {items : List Text} (further : Further items text)
    (head : PassableMember item) (others : ∀ item ∈ items, PassableMember item)
    (h : Blank blanks) (first : Bool) (rest : Source) :
    Reads (skipMembers first (before blanks (before item (before text (.char '\x7d' rest))))) ()
      rest := by
  have ends := ends_further further (.inr rfl) rest
  induction further generalizing item blanks first with
  | done h' => exact skips_member h head ends (.inl (meets_behind h' rfl rest)) first
  | @next front after next text items h' h'' further ih =>
      obtain ⟨nextMember, others⟩ := List.forall_mem_cons.mp others
      have more := ih nextMember others h'' false (ends_further further (.inr rfl) rest)
      rw [before_next] at ends ⊢
      exact skips_member h head ends (.inr ⟨_, meets_behind h' rfl _, more⟩) first

theorem object_restores {text : Text} {items : List Text} (row : Row items text)
    (h : ∀ item ∈ items, PassableMember item) :
    Restores skipValue ('\x7b' :: (text ++ ['\x7d'])) () := by
  rw [skipValue_eq]
  refine restores_ofFirst (by decide) fun rest _ => ?_
  have within : Reads (skipMembers true (before text (.char '\x7d' rest))) () rest := by
    cases row with
    | none blank =>
        obtain ⟨_, closed⟩ := meets_behind blank (c := '\x7d') rfl rest
        rw [skipMembers, closed]
        exact ⟨_, rfl⟩
    | some blank further =>
        obtain ⟨head, others⟩ := List.forall_mem_cons.mp h
        rw [before_append, before_append]
        exact skips_members further head others blank true rest
  rw [before_append, skipFirst, if_neg (by decide), if_pos rfl]
  exact within.through fun _ => ⟨_, rfl⟩

/-- Every value is passed over, whatever its shape and however deep it is. -/
theorem isValue_restores {value : Text} (h : IsValue value) : Restores skipValue value () := by
  induction h with
  | word h => exact word_restores h
  | numeral h => exact numeral_restores h
  | quoted h => exact quoted_restores h
  | array _ row ih => exact array_restores row ih
  | object heads _ row ih =>
      refine object_restores row fun item mem => ?_
      obtain ⟨member, given, rfl⟩ := List.mem_map.mp mem
      obtain ⟨body, isBody, head⟩ := heads member given
      exact ⟨body, _, _, rfl, isBody, head, ih member given⟩

end Keypad.Json
