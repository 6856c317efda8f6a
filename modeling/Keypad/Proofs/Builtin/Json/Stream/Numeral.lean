import Keypad.Proofs.Builtin.Json.Numeral
import Keypad.Proofs.Builtin.Json.Stream

/-!
Numerals on a source that breaks off. Digits right before the break may go on behind it, so a numeral
that reaches the break is met as a break. There is one exception: an exponent that is beyond all bounds
stays so with more digits, and such a numeral is refused at once.
-/
namespace Keypad.Json.Numeral

open Source (Continues ne_of_wide)

variable {cut whole : Source} {short : Ending → Fault}

/-! ## Digits -/

theorem digits_of_digit {c : Char} (digit : c.isDigit = true) (rest : Source) :
    (Source.char c rest).digits = (c :: rest.digits.1, rest.digits.2.behind c) := by
  rw [Source.digits, if_pos digit]

theorem digits_of_not {c : Char} (digit : ¬ c.isDigit = true) (rest : Source) :
    (Source.char c rest).digits = ([], .all (.char c rest)) := by
  rw [Source.digits, if_neg digit]

/-- Digits end before the break, or reach it. -/
theorem digits_continues (h : Continues cut whole) :
    Continues cut.digits.2.rest whole.digits.2.rest ∧
      (cut.digits.1 = whole.digits.1 ∨
        (cut.digits.2.rest = .stop .interrupted ∧ cut.digits.1 <+: whole.digits.1)) := by
  induction h with
  | broken whole => exact ⟨.broken _, .inr ⟨rfl, List.nil_prefix⟩⟩
  | char c h ih =>
      by_cases digit : c.isDigit = true
      · rw [digits_of_digit digit, digits_of_digit digit]
        obtain ⟨continues, same | ⟨reaches, front⟩⟩ := ih
        · exact ⟨continues, .inl (congrArg (c :: ·) same)⟩
        · exact ⟨continues, .inr ⟨reaches, List.cons_prefix_cons.mpr ⟨rfl, front⟩⟩⟩
      · rw [digits_of_not digit, digits_of_not digit]
        exact ⟨.char c h, .inl rfl⟩
  | stray byte h => exact ⟨.stray byte h, .inl rfl⟩
  | completed byte rest wide few =>
      rw [digits_of_not (by simp [Source.isDigit_of_wide wide])]
      exact ⟨.completed byte rest wide few, .inl rfl⟩

/-- A reader of digits reaches the break, where the continuation has those digits at least, or it is
not misled. -/
theorem someDigits_follows (breaks : short .interrupted = .unreadable) (h : Continues cut whole) :
    Follows Alike (someDigits short cut) (someDigits short whole) ∨
      ∃ found found', someDigits short cut = .ok found ∧ someDigits short whole = .ok found' ∧
        found.rest = .stop .interrupted ∧ found.value <+: found'.value := by
  cases h with
  | broken whole =>
      rw [someDigits, breaks]
      exact .inl (.broken _)
  | char c h =>
      rw [someDigits, someDigits]
      by_cases digit : c.isDigit = true
      · rw [if_pos digit, if_pos digit]
        obtain ⟨continues, same | ⟨reaches, front⟩⟩ := digits_continues h
        · exact .inl (.found ⟨congrArg (c :: ·) same, continues⟩)
        · exact .inr ⟨_, _, rfl, rfl, reaches, List.cons_prefix_cons.mpr ⟨rfl, front⟩⟩
      · rw [if_neg digit, if_neg digit]
        exact .inl (.fault _)
  | stray byte h => exact .inl (.fault _)
  | completed byte rest wide few =>
      rw [someDigits, someDigits, if_neg (by simp [Source.isDigit_of_wide wide])]
      exact .inl (.fault _)

/-- Digits that start with a zero too many still do with more digits behind them. -/
theorem head?_of_prefix {digits longer : Digits} (front : digits <+: longer)
    (h : digits.head? = some '0' ∧ digits ≠ ['0']) : longer.head? = some '0' ∧ longer ≠ ['0'] := by
  obtain ⟨more, rfl⟩ := front
  cases digits with
  | nil => cases h.1
  | cons c digits =>
      refine ⟨h.1, fun single => h.2 ?_⟩
      cases digits with
      | nil => rw [Option.some.inj h.1]
      | cons d digits => cases (List.cons.inj single).2

theorem wholeDigits_follows (breaks : short .interrupted = .unreadable) (h : Continues cut whole) :
    Follows Alike (wholeDigits short cut) (wholeDigits short whole) ∨
      ∃ found, wholeDigits short cut = .ok found ∧ found.rest = .stop .interrupted := by
  rw [wholeDigits, wholeDigits]
  rcases someDigits_follows breaks h with follows | ⟨found, found', read, read', reaches, front⟩
  · left
    refine follows.bind fun found found' alike => ?_
    rw [alike.1]
    split
    · exact .fault _
    · exact .found alike
  · rw [read, read']
    by_cases zero : found.value.head? = some '0' ∧ found.value ≠ ['0']
    · left
      have zero' := head?_of_prefix front zero
      simp only [bind, Except.bind, if_pos zero, if_pos zero']
      exact .fault _
    · right
      simp only [bind, Except.bind, if_neg zero]
      exact ⟨found, rfl, reaches⟩

/-- Two parts of a numeral that are the same, behind which the sources still go together. -/
def AlikePart {part : Type} (found : part × Remainder cut) (found' : part × Remainder whole) :
    Prop :=
  found.1 = found'.1 ∧ AlikeLeft found.2 found'.2

theorem fractionDigits_of_ne {c : Char} (other : c ≠ '.') (rest : Source) :
    fractionDigits short (.char c rest) = .ok (none, .all (.char c rest)) := by
  rw [fractionDigits]
  intro _ point
  cases point
  exact other rfl

theorem fractionDigits_follows (breaks : short .interrupted = .unreadable)
    (h : Continues cut whole) :
    Follows AlikePart (fractionDigits short cut) (fractionDigits short whole) ∨
      ∃ found, fractionDigits short cut = .ok found ∧ found.2.rest = .stop .interrupted := by
  cases h with
  | broken whole => exact .inr ⟨_, rfl, rfl⟩
  | char c h =>
      by_cases point : c = '.'
      · rw [point, fractionDigits, fractionDigits]
        rcases someDigits_follows breaks h with follows | ⟨found, found', read, read', reaches, -⟩
        · exact .inl (follows.map fun _ _ alike => ⟨congrArg some alike.1, alike.2⟩)
        · rw [read]
          exact .inr ⟨_, rfl, reaches⟩
      · rw [fractionDigits_of_ne point, fractionDigits_of_ne point]
        exact .inl (.found ⟨rfl, .char c h⟩)
  | stray byte h => exact .inl (.found ⟨rfl, .stray byte h⟩)
  | completed byte rest wide few =>
      rw [fractionDigits_of_ne (ne_of_wide wide (by decide))]
      exact .inl (.found ⟨rfl, .completed byte rest wide few⟩)

/-! ## Exponents -/

theorem sign_of_ne {c : Char} (minus : c ≠ '-') (plus : c ≠ '+') (rest : Source) :
    sign (.char c rest) = (false, .all (.char c rest)) := by
  rw [sign]
  · intro _ same
    cases same
    exact minus rfl
  · intro _ same
    cases same
    exact plus rfl

theorem sign_continues (h : Continues cut whole) :
    Continues (sign cut).2.rest (sign whole).2.rest ∧
      (cut = .stop .interrupted ∨ (sign cut).1 = (sign whole).1) := by
  cases h with
  | broken whole => exact ⟨.broken _, .inl rfl⟩
  | char c h =>
      by_cases minus : c = '-'
      · rw [minus]
        exact ⟨h, .inr rfl⟩
      · by_cases plus : c = '+'
        · rw [plus]
          exact ⟨h, .inr rfl⟩
        · rw [sign_of_ne minus plus, sign_of_ne minus plus]
          exact ⟨.char c h, .inr rfl⟩
  | stray byte h => exact ⟨.stray byte h, .inr rfl⟩
  | completed byte rest wide few =>
      rw [sign_of_ne (ne_of_wide wide (by decide)) (ne_of_wide wide (by decide))]
      exact ⟨.completed byte rest wide few, .inr rfl⟩

/-- An exponent, or none, that reached the break, and the exponent of the continuation. -/
def ExponentGrows (found : Option Exponent × Remainder cut)
    (result : Except Fault (Option Exponent × Remainder whole)) : Prop :=
  found.2.rest = .stop .interrupted ∧ (found.1 = none ∨
    ∃ exponent longer left, found.1 = some exponent ∧ result = .ok (some longer, left) ∧
      exponent.negative = longer.negative ∧ exponent.digits <+: longer.digits)

theorem exponentDigits_of_not {c : Char} (other : ¬ (c = 'e' ∨ c = 'E')) (rest : Source) :
    exponentDigits short (.char c rest) = .ok (none, .all (.char c rest)) := by
  rw [exponentDigits, if_neg other]

theorem exponentDigits_follows (breaks : short .interrupted = .unreadable)
    (h : Continues cut whole) :
    Follows AlikePart (exponentDigits short cut) (exponentDigits short whole) ∨
      ∃ found, exponentDigits short cut = .ok found ∧
        ExponentGrows found (exponentDigits short whole) := by
  cases h with
  | broken whole => exact .inr ⟨_, rfl, rfl, .inl rfl⟩
  | @char c cut whole h =>
      by_cases mark : c = 'e' ∨ c = 'E'
      · rw [exponentDigits, exponentDigits, if_pos mark, if_pos mark]
        dsimp only
        obtain ⟨continues, rfl | same⟩ := sign_continues h
        · have stops : someDigits short (sign (.stop .interrupted)).2.rest = .error .unreadable := by
            rw [← breaks]
            rfl
          rw [stops]
          exact .inl (.broken _)
        · rcases someDigits_follows breaks continues with
            follows | ⟨found, found', read, read', reaches, front⟩
          · refine .inl (follows.map fun found found' alike => ⟨?_, alike.2⟩)
            rw [same, alike.1]
          · rw [read, read']
            exact .inr ⟨_, rfl, reaches, .inr ⟨_, _, _, rfl, rfl, same, front⟩⟩
      · rw [exponentDigits_of_not mark, exponentDigits_of_not mark]
        exact .inl (.found ⟨rfl, .char c h⟩)
  | stray byte h => exact .inl (.found ⟨rfl, .stray byte h⟩)
  | @completed byte bytes c rest wide few =>
      have mark : ¬ (c = 'e' ∨ c = 'E') :=
        not_or.mpr ⟨ne_of_wide wide (by decide), ne_of_wide wide (by decide)⟩
      rw [exponentDigits_of_not mark]
      exact .inl (.found ⟨rfl, .completed byte rest wide few⟩)

/-! ## Numerals -/

/-- A refusal that more digits do not take back: only an exponent is refused, and then any longer
one. -/
structure Final (refused : Numeral → Bool) : Prop where
  none : ∀ negative whole fraction, refused ⟨negative, whole, fraction, none⟩ = false
  longer : ∀ negative whole fraction exponent exponent', exponent.negative = exponent'.negative →
    exponent.digits <+: exponent'.digits →
    refused ⟨negative, whole, fraction, some exponent⟩ = true →
    refused ⟨negative, whole, fraction, some exponent'⟩ = true

theorem final_of_never : Final fun _ => false := ⟨fun _ _ _ => rfl, nofun⟩

/-- More digits do not make an exponent smaller. -/
theorem bound_le_size {exponent longer : Exponent} (front : exponent.digits <+: longer.digits)
    (h : Exponent.bound ≤ exponent.size) : Exponent.bound ≤ longer.size := by
  obtain ⟨more, split⟩ := front
  have grown : Text.toNat exponent.digits ≤ Text.toNat longer.digits := by
    rw [← split]
    change _ ≤ Text.toNatFrom 0 (exponent.digits ++ more)
    rw [Text.toNatFrom, List.foldl_append]
    exact Text.le_toNatFrom _ _
  rw [Exponent.size_eq_min] at h ⊢
  omega

theorem final_isBeyond : Final isBeyond where
  none _ _ _ := rfl
  longer negative whole fraction exponent exponent' same front h := by
    simp only [isBeyond, Bool.and_eq_true, decide_eq_true_eq] at h ⊢
    rw [← same]
    exact ⟨h.1, bound_le_size front h.2⟩

/-- What has not come to the break is not over in any continuation. -/
theorem Continues.not_over (h : Continues cut whole) (before : cut ≠ .stop .interrupted) :
    whole ≠ .stop .interrupted := by
  cases h with
  | broken => exact absurd rfl before
  | char | stray | completed => exact nofun

theorem fractionDigits_break :
    fractionDigits short (.stop .interrupted) = .ok (none, ⟨.stop .interrupted, Nat.le_refl _⟩) :=
  rfl

theorem exponentDigits_break :
    exponentDigits short (.stop .interrupted) = .ok (none, ⟨.stop .interrupted, Nat.le_refl _⟩) :=
  rfl

/-- A numeral of which only whole digits are there before the break. -/
theorem unsigned_of_whole {refused : Numeral → Bool} (final : Final refused) {digits : Digits}
    {lt : (Source.stop .interrupted).length < cut.length} (negative : Bool)
    (read : wholeDigits short cut = .ok ⟨digits, .stop .interrupted, lt⟩) :
    unsigned short refused negative cut = .error .unreadable := by
  rw [unsigned, read]
  simp only [bind, Except.bind, fractionDigits_break, exponentDigits_break, final.none,
    Bool.false_eq_true, if_false]
  rfl

theorem unsigned_streams {refused : Numeral → Bool} (final : Final refused)
    (breaks : short .interrupted = .unreadable) (negative : Bool) :
    Decoder.Streams (unsigned short refused negative) := by
  intro cut whole h
  rcases wholeDigits_follows breaks h with follows | ⟨⟨digits, rest, lt⟩, read, rfl⟩
  · rw [unsigned, unsigned]
    refine follows.bind ?_
    rintro ⟨digits, rest, lt⟩ ⟨_, rest', lt'⟩ ⟨rfl, continues⟩
    rcases fractionDigits_follows breaks continues with
      follows | ⟨⟨fraction, left⟩, read, reaches⟩
    · refine follows.bind ?_
      rintro ⟨fraction, left⟩ ⟨_, left'⟩ ⟨rfl, continues⟩
      rcases exponentDigits_follows breaks continues with
        follows | ⟨⟨exponent, last⟩, read, reaches, grows⟩
      · refine follows.bind ?_
        rintro ⟨exponent, last⟩ ⟨_, last'⟩ ⟨rfl, continues⟩
        dsimp only
        split
        · exact .fault _
        · split
          · exact .broken _
          · rename_i before
            rw [if_neg (Continues.not_over continues before)]
            exact .found ⟨rfl, continues⟩
      · dsimp only at read grows ⊢
        rw [read]
        obtain rfl | ⟨exponent, longer, last', rfl, read', same, front⟩ := grows
        · simp only [bind, Except.bind, final.none, Bool.false_eq_true, if_false, if_pos reaches]
          exact .broken _
        · rw [read']
          simp only [bind, Except.bind]
          split
          · rename_i beyond
            rw [if_pos (final.longer _ _ _ _ _ same front beyond)]
            exact .fault _
          · exact .broken _
    · dsimp only at read reaches
      obtain ⟨_, le⟩ := left
      obtain rfl := reaches
      rw [read]
      simp only [bind, Except.bind, exponentDigits_break, final.none, Bool.false_eq_true, if_false]
      exact .broken _
  · rw [unsigned_of_whole final negative read]
    exact .broken _

theorem scan_of_ne {c : Char} (minus : c ≠ '-') (refused : Numeral → Bool) (rest : Source) :
    scan short refused (.char c rest) = unsigned short refused false (.char c rest) := by
  rw [scan]
  intro _ same
  cases same
  exact minus rfl

theorem scan_streams {refused : Numeral → Bool} (final : Final refused)
    (breaks : short .interrupted = .unreadable) : Decoder.Streams (scan short refused) := by
  intro cut whole h
  cases h with
  | broken whole =>
      have stops : scan short refused (.stop .interrupted) = .error (short .interrupted) := rfl
      rw [stops, breaks]
      exact .broken _
  | char c h =>
      by_cases minus : c = '-'
      · rw [minus]
        exact (unsigned_streams final breaks true h).map fun _ _ alike => alike
      · rw [scan_of_ne minus, scan_of_ne minus]
        exact unsigned_streams final breaks false (.char c h)
  | stray byte h => exact unsigned_streams final breaks false (.stray byte h)
  | completed byte rest wide few =>
      rw [scan_of_ne (ne_of_wide wide (by decide))]
      exact unsigned_streams final breaks false (.completed byte rest wide few)

theorem read_streams : Decoder.Streams read := by
  intro cut whole h
  rw [read, read]
  refine (scan_streams final_isBeyond rfl h).bind fun found found' alike => ?_
  rw [alike.1]
  split
  · exact .fault _
  · exact .found alike

theorem skip_streams : Decoder.Streams skip :=
  fun h => (scan_streams final_of_never rfl h).map fun _ _ alike => ⟨rfl, alike.2⟩

end Keypad.Json.Numeral
