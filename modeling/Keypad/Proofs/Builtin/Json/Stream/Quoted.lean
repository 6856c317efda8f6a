import Keypad.Proofs.Builtin.Json.Reading
import Keypad.Proofs.Builtin.Json.Stream

/-!
Strings on a source that breaks off. A break inside a string is always met, since the string has no
closing quote before it: stray bytes before the break, which might be part of a character, are passed
over on the way there.
-/
namespace Keypad.Json.Quoted

open Source (Continues strays before before_cons ne_of_wide)

variable {cut whole : Source}

/-! ## Escapes -/

theorem shortage?_strays (bytes : List UInt8) (needed : Nat) :
    shortage? needed (strays bytes (.stop .interrupted)) =
      if needed ≤ bytes.length then none else some .unreadable := by
  induction bytes generalizing needed with
  | nil =>
      cases needed with
      | zero => rfl
      | succ needed => rfl
  | cons byte bytes ih =>
      cases needed with
      | zero => rfl
      | succ needed =>
          change shortage? needed (strays bytes (.stop .interrupted)) = _
          rw [ih]
          simp only [List.length_cons, Nat.succ_le_succ_iff]

/-- Where a source that broke off holds bytes enough, any continuation does. -/
theorem shortage?_continues (h : Continues cut whole) (needed : Nat) :
    shortage? needed cut = some .unreadable ∨
      (shortage? needed cut = none ∧ shortage? needed whole = none) := by
  induction h generalizing needed with
  | broken whole =>
      cases needed with
      | zero => exact .inr ⟨rfl, by rw [shortage?]⟩
      | succ needed => exact .inl rfl
  | char c h ih =>
      cases needed with
      | zero => exact .inr ⟨rfl, rfl⟩
      | succ needed => exact ih (needed + 1 - c.utf8Size)
  | stray byte h ih =>
      cases needed with
      | zero => exact .inr ⟨rfl, rfl⟩
      | succ needed => exact ih needed
  | @completed byte bytes c rest wide short =>
      have counted := shortage?_strays (byte :: bytes) needed
      by_cases enough : needed ≤ (byte :: bytes).length
      · right
        rw [if_pos enough] at counted
        refine ⟨counted, ?_⟩
        cases needed with
        | zero => rfl
        | succ needed =>
            rw [List.length_cons] at enough
            have covered : needed + 1 - c.utf8Size = 0 := by omega
            rw [shortage?, covered, shortage?]
      · left
        rw [if_neg enough] at counted
        exact counted

/-- Four hexadecimal digits at the front of a source. -/
def HexAhead (source : Source) (code : Nat) (rest : Source) : Prop :=
  ∃ a b c d a' b' c' d', source = before [a, b, c, d] rest ∧ hexValue? a = some a' ∧
    hexValue? b = some b' ∧ hexValue? c = some c' ∧ hexValue? d = some d' ∧
    code = a' * 4096 + b' * 256 + c' * 16 + d'

theorem codeUnit_of_hexAhead {source rest : Source} {code : Nat} (enough : shortage? 4 source = none)
    (h : HexAhead source code rest) : Reads (codeUnit source) code rest := by
  obtain ⟨a, b, c, d, a', b', c', d', rfl, ha, hb, hc, hd, rfl⟩ := h
  unfold codeUnit
  rw [enough]
  simp only [before, List.foldr, ha, hb, hc, hd]
  exact ⟨_, rfl⟩

theorem codeUnit_of_not {source : Source} (enough : shortage? 4 source = none)
    (h : ¬ ∃ code rest, HexAhead source code rest) : codeUnit source = .error .malformed := by
  unfold codeUnit
  rw [enough]
  dsimp only
  split
  · split
    · rename_i a b c d rest _ _ _ _ a' b' c' d' ha hb hc hd
      exact absurd ⟨_, rest, a, b, c, d, a', b', c', d', rfl, ha, hb, hc, hd, rfl⟩ h
    · rfl
  · rfl

/-- A hexadecimal digit is no wide character. -/
theorem narrow_of_hexValue? {c : Char} {value : Nat} (h : hexValue? c = some value) :
    c.toNat < 0x80 := by
  have nine : '9'.toNat = 57 := rfl
  rw [hexValue?] at h
  split at h
  · rename_i digit
    have bounds := Char.isDigit_iff_toNat.mp digit
    omega
  · split at h
    · rename_i small
      exact Nat.lt_of_le_of_lt (UInt32.le_iff_toNat_le.mp small.2) (by decide)
    · split at h
      · rename_i large
        exact Nat.lt_of_le_of_lt (UInt32.le_iff_toNat_le.mp large.2) (by decide)
      · cases h

theorem utf8Size_of_narrow {c : Char} (h : c.toNat < 0x80) : c.utf8Size = 1 :=
  Char.utf8Size_eq_one_iff.mpr (UInt32.le_iff_toNat_le.mpr (Nat.le_of_lt_succ h))

/-- Narrow characters at the front of the whole were there before the break, if there were bytes
enough before it. -/
theorem Continues.front {text : Text} {rest : Source} (h : Continues cut (before text rest))
    (narrow : ∀ c ∈ text, c.toNat < 0x80) {needed : Nat} (long : text.length ≤ needed)
    (enough : shortage? needed cut = none) :
    ∃ left, cut = before text left ∧ Continues left rest := by
  induction text generalizing cut needed with
  | nil => exact ⟨cut, rfl, h⟩
  | cons c text ih =>
      obtain ⟨first, others⟩ := List.forall_mem_cons.mp narrow
      obtain ⟨fewer, rfl⟩ := Nat.exists_eq_add_one_of_ne_zero (Nat.ne_of_gt
        (Nat.lt_of_lt_of_le (Nat.succ_pos _) long))
      rw [before_cons] at h
      cases h with
      | broken => cases enough
      | char _ h =>
          rw [shortage?, utf8Size_of_narrow first] at enough
          obtain ⟨left, rfl, continues⟩ := ih h others (Nat.le_of_succ_le_succ long) enough
          exact ⟨left, rfl, continues⟩
      | completed _ _ wide => exact absurd first (Nat.not_lt.mpr wide)

theorem Continues.whole_eq {text : Text} {left : Source} (h : Continues (before text left) whole) :
    ∃ rest, whole = before text rest ∧ Continues left rest := by
  induction text generalizing whole with
  | nil => exact ⟨whole, rfl, h⟩
  | cons c text ih =>
      cases h with
      | char _ h =>
          obtain ⟨rest, rfl, continues⟩ := ih h
          exact ⟨rest, rfl, continues⟩

theorem codeUnit_streams : Decoder.Streams codeUnit := by
  intro cut whole h
  rcases shortage?_continues h 4 with short | ⟨enough, enough'⟩
  · unfold codeUnit
    rw [short]
    exact .broken _
  · by_cases ahead : ∃ code rest, HexAhead whole code rest
    · obtain ⟨code, rest, ahead'⟩ := ahead
      obtain ⟨_, read'⟩ := codeUnit_of_hexAhead enough' ahead'
      obtain ⟨a, b, c, d, a', b', c', d', rfl, ha, hb, hc, hd, rfl⟩ := ahead'
      have narrow : ∀ e ∈ [a, b, c, d], e.toNat < 0x80 := by
        simp [narrow_of_hexValue? ha, narrow_of_hexValue? hb, narrow_of_hexValue? hc,
          narrow_of_hexValue? hd]
      obtain ⟨left, rfl, continues⟩ := Continues.front h narrow (Nat.le_refl 4) enough
      obtain ⟨_, read⟩ := codeUnit_of_hexAhead enough
        ⟨a, b, c, d, a', b', c', d', rfl, ha, hb, hc, hd, rfl⟩
      rw [read, read']
      exact .found ⟨rfl, continues⟩
    · have absent : ¬ ∃ code rest, HexAhead cut code rest := by
        rintro ⟨code, left, a, b, c, d, a', b', c', d', rfl, hexes⟩
        obtain ⟨rest, rfl, -⟩ := Continues.whole_eq h
        exact ahead ⟨code, rest, a, b, c, d, a', b', c', d', rfl, hexes⟩
      rw [codeUnit_of_not enough absent, codeUnit_of_not enough' ahead]
      exact .fault _

theorem shortEscape?_of_wide {c : Char} (wide : 0x80 ≤ c.toNat) : shortEscape? c = none := by
  simp [shortEscape?, ne_of_wide wide]

theorem escaped_streams : Decoder.Streams escaped := by
  intro cut whole h
  cases h with
  | broken whole => exact .broken _
  | char c h =>
      rw [escaped, escaped]
      split
      · exact (codeUnit_streams h).map fun _ _ alike => ⟨congrArg Piece.unit alike.1, alike.2⟩
      · cases shortEscape? c with
        | none => exact .fault _
        | some d => exact .found ⟨rfl, h⟩
  | stray byte h => exact .fault _
  | completed byte rest wide short =>
      rw [escaped, escaped, if_neg (ne_of_wide wide (by decide)), shortEscape?_of_wide wide]
      exact .fault _

/-! ## Pieces -/

/-- A piece before the break is the same piece in any continuation, unless it is a stray byte of a
character that the continuation completes. -/
theorem piece_follows (h : Continues cut whole) :
    Follows Alike (piece cut) (piece whole) ∨
      ∃ byte bytes c rest, cut = strays (byte :: bytes) (.stop .interrupted) ∧ whole = .char c rest ∧
        0x80 ≤ c.toNat := by
  cases h with
  | broken whole => exact .inl (.broken _)
  | char c h =>
      left
      rw [piece, piece]
      split
      · exact .found ⟨rfl, h⟩
      · split
        · exact (escaped_streams h).map fun _ _ alike => alike
        · split
          · exact .fault _
          · exact .found ⟨rfl, h⟩
  | stray byte h => exact .inl (.found ⟨rfl, h⟩)
  | completed byte rest wide short => exact .inr ⟨byte, _, _, rest, rfl, rfl, wide⟩

theorem piece_of_wide {c : Char} (wide : 0x80 ≤ c.toNat) (rest : Source) :
    ∃ lt, piece (.char c rest) = .ok ⟨.char c, rest, lt⟩ := by
  rw [piece, if_neg (ne_of_wide wide (by decide)), if_neg (ne_of_wide wide (by decide)),
    if_neg (by omega)]
  exact ⟨_, rfl⟩

/-! ## Strings -/

theorem skip_strays (bytes : List UInt8) :
    skip (strays bytes (.stop .interrupted)) = .error .unreadable := by
  induction bytes with
  | nil =>
      change skip (.stop .interrupted) = _
      rw [skip]
      rfl
  | cons byte bytes ih =>
      change skip (.stray byte (strays bytes (.stop .interrupted))) = _
      rw [skip, piece]
      simp only [ih]
      rfl

theorem read_strays (bytes : List UInt8) :
    read (strays bytes (.stop .interrupted)) = .error .unreadable := by
  induction bytes with
  | nil =>
      change read (.stop .interrupted) = _
      rw [read]
      rfl
  | cons byte bytes ih =>
      change read (.stray byte (strays bytes (.stop .interrupted))) = _
      rw [read, piece]
      simp only [ih]
      rfl

theorem skip_streams : Decoder.Streams skip := by
  intro cut
  induction size : cut.length using Nat.strongRecOn generalizing cut with
  | ind n ih =>
      intro whole h
      rcases piece_follows h with follows | ⟨byte, bytes, c, rest, rfl, -, -⟩
      · rw [skip, skip]
        generalize piece cut = first, piece whole = first' at follows
        cases follows with
        | broken => exact .broken _
        | fault fault => exact .fault fault
        | @found found found' alike =>
            obtain ⟨value, rest, lt⟩ := found
            obtain ⟨_, rest', lt'⟩ := found'
            obtain ⟨rfl, continues⟩ := alike
            have more := ih _ (size ▸ lt) rfl continues
            cases value with
            | close => exact .found ⟨rfl, continues⟩
            | char c => exact more.map fun _ _ alike => alike
            | unit code => exact more.map fun _ _ alike => alike
            | stray => exact more.map fun _ _ alike => alike
      · rw [skip_strays]
        exact .broken _

/-- What stands where the second unit of a pair is wanted is such a unit on both sides, and the
same, or on neither. -/
theorem second_follows (h : Continues cut whole) :
    Follows (fun found found' => Alike found found' ∨
        ((∀ code, found.value ≠ .unit code) ∧ ∀ code, found'.value ≠ .unit code))
      (piece cut) (piece whole) := by
  rcases piece_follows h with follows | ⟨byte, bytes, c, rest, rfl, rfl, wide⟩
  · generalize piece cut = first, piece whole = first' at follows
    cases follows with
    | broken => exact .broken _
    | fault fault => exact .fault fault
    | found alike => exact .found (.inl alike)
  · obtain ⟨_, read⟩ := piece_of_wide wide rest
    rw [read]
    exact .found (.inr ⟨nofun, nofun⟩)

theorem read_streams : Decoder.Streams read := by
  intro cut
  induction size : cut.length using Nat.strongRecOn generalizing cut with
  | ind n ih =>
      intro whole h
      rcases piece_follows h with follows | ⟨byte, bytes, c, rest, rfl, -, -⟩
      · rw [read, read]
        generalize piece cut = first, piece whole = first' at follows
        cases follows with
        | broken => exact .broken _
        | fault fault => exact .fault fault
        | @found found found' alike =>
            obtain ⟨value, rest, lt⟩ := found
            obtain ⟨_, rest', lt'⟩ := found'
            obtain ⟨rfl, continues⟩ := alike
            have more := ih _ (size ▸ lt) rfl continues
            cases value with
            | close => exact .found ⟨rfl, continues⟩
            | char c => exact more.map fun _ _ alike => ⟨congrArg (c :: ·) alike.1, alike.2⟩
            | stray =>
                dsimp only
                generalize read rest = text, read rest' = text' at more
                cases more with
                | broken => exact .broken _
                | fault fault => exact .fault fault
                | found => exact .fault _
            | unit code =>
                dsimp only
                split
                · exact .fault _
                · split
                  · have second := second_follows continues
                    generalize piece rest = next, piece rest' = next' at second
                    cases second with
                    | broken => exact .broken _
                    | fault fault => exact .fault fault
                    | @found found found' both =>
                        obtain ⟨value, later, nearer⟩ := found
                        obtain ⟨value', later', nearer'⟩ := found'
                        rcases both with ⟨rfl, continues⟩ | ⟨neither, neither'⟩
                        · cases value with
                          | unit second =>
                              dsimp only
                              split
                              · exact (ih _ (size ▸ Nat.lt_trans nearer lt) rfl continues).map
                                  fun _ _ alike =>
                                    ⟨congrArg (pair code second :: ·) alike.1, alike.2⟩
                              · exact .fault _
                          | close | char | stray => exact .fault _
                        · cases value with
                          | unit second => exact absurd rfl (neither second)
                          | close | char | stray =>
                              cases value' with
                              | unit second => exact absurd rfl (neither' second)
                              | close | char | stray => exact .fault _
                  · exact more.map fun _ _ alike =>
                      ⟨congrArg (Char.ofNat code :: ·) alike.1, alike.2⟩
      · rw [read_strays]
        exact .broken _

end Keypad.Json.Quoted
