import Keypad.Builtin.Gzip.Member

/-!
What is read off compressed data does not depend on what follows it. Each reader that succeeds takes
the same value when more bytes are appended, and leaves the same rest with those bytes behind it.
Only the text counts here: when a turn ends may change, since more data is at hand.
-/
namespace Keypad.Gzip

namespace Bits

variable {α β γ : Type} {bits rest : Bits}

theorem size_le_self (bits : Bits) : bits.size ≤ bits.size := Nat.le_refl _

def followedBy (bits : Bits) (tail : List UInt8) : Bits := ⟨bits.pending, bits.bytes ++ tail⟩

theorem size_followedBy (bits : Bits) (tail : List UInt8) :
    (bits.followedBy tail).size = bits.size + 8 * tail.length := by
  simp only [size, followedBy, List.length_append]
  omega

def Remainder.followedBy (left : Remainder bits) (tail : List UInt8) :
    Remainder (bits.followedBy tail) :=
  ⟨left.val.followedBy tail, by
    rw [size_followedBy, size_followedBy]
    exact Nat.add_le_add_right left.property _⟩

def Taken.followedBy (taken : Taken α bits) (tail : List UInt8) :
    Taken α (bits.followedBy tail) :=
  ⟨taken.value, taken.rest.followedBy tail, by
    rw [size_followedBy, size_followedBy]
    exact Nat.add_lt_add_right taken.shorter _⟩

/-- Reads alike at a place when more bytes are put behind it. -/
def LocalAt (read : (bits : Bits) → Except Damage (α × Remainder bits)) (bits : Bits) : Prop :=
  ∀ value left, read bits = .ok (value, left) →
    ∀ tail, read (bits.followedBy tail) = .ok (value, left.followedBy tail)

/-- A reader that takes what it takes also in front of other bytes. -/
def Local (read : (bits : Bits) → Except Damage (α × Remainder bits)) : Prop :=
  ∀ bits, LocalAt read bits

/-- The same for a reader that takes one bit at least. -/
def LocalTaking (read : (bits : Bits) → Except Damage (Taken α bits)) : Prop :=
  ∀ (bits : Bits) (taken : Taken α bits), read bits = .ok taken →
    ∀ tail, read (bits.followedBy tail) = .ok (taken.followedBy tail)

/-! ### One reader after the other -/

def Remainder.reach (left : Remainder bits) (later : Remainder left.val) : Remainder bits :=
  ⟨later.val, Nat.le_trans later.property left.property⟩

def chain (read : (bits : Bits) → Except Damage (α × Remainder bits))
    (next : α → (bits : Bits) → Except Damage (β × Remainder bits)) (join : α → β → γ)
    (bits : Bits) : Except Damage (γ × Remainder bits) :=
  (read bits).bind fun (value, left) =>
    (next value left.val).map fun (more, later) => (join value more, left.reach later)

theorem LocalAt.chain {read : (bits : Bits) → Except Damage (α × Remainder bits)}
    {next : α → (bits : Bits) → Except Damage (β × Remainder bits)} {join : α → β → γ}
    (h : LocalAt read bits)
    (h' : ∀ value left, read bits = .ok (value, left) → LocalAt (next value) left.val) :
    LocalAt (Bits.chain read next join) bits := by
  intro value left found tail
  rw [Bits.chain] at found ⊢
  cases first : read bits with
  | error damage =>
    rw [first] at found
    cases found
  | ok taken =>
    obtain ⟨value, left⟩ := taken
    rw [first] at found
    rw [h _ _ first tail]
    dsimp only [Except.bind, Remainder.followedBy] at found ⊢
    cases second : next value left.val with
    | error damage =>
      rw [second] at found
      cases found
    | ok more =>
      rw [second] at found
      cases found
      rw [h' _ _ first _ _ second tail]
      rfl

def Taken.forget (taken : Taken α bits) : α × Remainder bits :=
  (taken.value, ⟨taken.rest, Nat.le_of_lt taken.shorter⟩)

/-- A reader that takes one bit at least, as a reader. -/
def taking (read : (bits : Bits) → Except Damage (Taken α bits)) (bits : Bits) :
    Except Damage (α × Remainder bits) :=
  (read bits).map Taken.forget

section

variable {read : (bits : Bits) → Except Damage (Taken α bits)}

theorem LocalTaking.taking (h : LocalTaking read) : Local (taking read) := by
  intro bits value left found tail
  rw [Bits.taking] at found ⊢
  cases first : read bits with
  | error damage =>
    rw [first] at found
    cases found
  | ok taken =>
    rw [first] at found
    cases found
    rw [h _ _ first tail]
    rfl

theorem shorter_of_taking {value : α} {left : Remainder bits}
    (h : taking read bits = .ok (value, left)) : left.val.size < bits.size := by
  rw [taking] at h
  cases first : read bits with
  | error damage =>
    rw [first] at h
    cases h
  | ok taken =>
    rw [first] at h
    cases h
    exact taken.shorter

end

theorem next_local : LocalTaking next := by
  intro bits taken h tail
  obtain ⟨pending, bytes⟩ := bits
  match pending, bytes with
  | bit :: pending, bytes =>
    cases h
    rfl
  | [], byte :: bytes =>
    cases h
    rfl
  | [], [] => cases h

theorem number_succ (width : Nat) :
    number (width + 1) =
      chain (taking next) (fun _ => number width) fun bit higher => bit.toNat + 2 * higher := by
  funext bits
  -- The equations of a reader would name the proofs inside it.
  conv => lhs; whnf
  rw [chain, taking]
  cases bits.next with
  | error damage => rfl
  | ok taken =>
    dsimp only [Except.map, Except.bind, Taken.forget]
    cases number width taken.rest <;> rfl

theorem number_local (width : Nat) : Local (number width) := by
  induction width with
  | zero =>
    intro bits value left h tail
    cases h
    rfl
  | succ width ih =>
    intro bits
    rw [number_succ]
    exact (next_local.taking bits).chain fun _ left _ => ih left.val

end Bits

namespace Code

theorem walk_branch (zero one : Code) :
    walk (.branch zero one) = Bits.chain (Bits.taking Bits.next)
      (fun bit rest => if bit then walk one rest else walk zero rest) fun _ value => value := by
  funext bits
  conv => lhs; whnf
  rw [Bits.chain, Bits.taking]
  cases bits.next with
  | error damage => rfl
  | ok taken =>
    dsimp only [Except.map, Except.bind, Bits.Taken.forget]
    generalize (if taken.value then walk one taken.rest else walk zero taken.rest) = found
    cases found <;> rfl

theorem walk_local (code : Code) : Bits.Local (walk code) := by
  induction code with
  | unused => intro bits value left h; cases h
  | symbol value =>
    intro bits value left h tail
    cases h
    rfl
  | branch zero one zeroLocal oneLocal =>
    intro bits
    rw [walk_branch]
    refine (Bits.next_local.taking bits).chain fun bit left _ => ?_
    cases bit with
    | true => exact oneLocal _
    | false => exact zeroLocal _

theorem read_local (code : Code) : Bits.LocalTaking code.read := by
  intro bits taken h tail
  rw [read] at h ⊢
  split at h
  · cases h
  · rename_i bit later less first
    have next := Bits.next_local _ _ first tail
    dsimp only [Bits.Taken.followedBy] at next
    rw [next]
    cases code with
    | unused => cases h
    | symbol value => cases h
    | branch zero one =>
      simp only at h ⊢
      split at h
      · cases h
      · rename_i found final le walked
        cases h
        simp only [walk_local _ _ _ _ walked tail]
        rfl

end Code

namespace Inflate

open Bits (Local LocalTaking)

theorem tabled_local (table : List (Nat × Nat)) (first symbol : Nat) :
    Local (tabled table first symbol) := by
  intro bits value left h tail
  rw [tabled] at h ⊢
  generalize (table.zipIdx first).find? _ = found at h ⊢
  match found with
  | none => cases h
  | some ((least, width), row) =>
    simp only at h ⊢
    split at h
    · cases h
    · rename_i more later read
      cases h
      rw [Bits.number_local width _ _ _ read tail]

theorem phrase_eq (distanceCode : Code) (symbol : Nat) :
    phrase distanceCode symbol = Bits.chain (tabled lengths 257 symbol)
      (fun _ => Bits.chain (Bits.taking distanceCode.read) (tabled distances 0)
        fun _ distance => distance)
      fun length distance => ⟨distance, length⟩ := by
  funext bits
  rw [phrase, Bits.chain]
  cases tabled lengths 257 symbol bits with
  | error damage => rfl
  | ok length =>
    dsimp only [Except.bind, Bits.chain, Bits.taking]
    cases distanceCode.read length.2.val with
    | error damage => rfl
    | ok row =>
      dsimp only [Except.map, Except.bind, Bits.Taken.forget]
      cases tabled distances 0 row.value row.rest <;> rfl

theorem phrase_local (distanceCode : Code) (symbol : Nat) : Local (phrase distanceCode symbol) := by
  intro bits
  rw [phrase_eq]
  exact Bits.LocalAt.chain (tabled_local _ _ _ _) fun _ afterLength _ =>
    ((Code.read_local distanceCode).taking afterLength.val).chain fun _ _ _ =>
      tabled_local _ _ _ _

theorem numbers_succ (width count : Nat) :
    numbers width (count + 1) =
      Bits.chain (Bits.number width) (fun _ => numbers width count) List.cons := by
  funext bits
  conv => lhs; whnf
  rw [Bits.chain]
  cases bits.number width with
  | error damage => rfl
  | ok first =>
    dsimp only [Except.bind]
    cases numbers width count first.2.val <;> rfl

theorem numbers_local (width count : Nat) : Local (numbers width count) := by
  induction count with
  | zero =>
    intro bits value left h tail
    cases h
    rfl
  | succ count ih =>
    intro bits
    rw [numbers_succ]
    exact Bits.LocalAt.chain (Bits.number_local _ _) fun _ left _ => ih left.val

/-- A number of equal word lengths, at least `least` of them. -/
def repeatedLengths (width least : Nat) (length : Option Nat) (bits : Bits) :
    Except Damage (List Nat × Bits.Remainder bits) :=
  match length with
  | none => .error .invalid
  | some length =>
    match bits.number width with
    | .error damage => .error damage
    | .ok (more, later) => .ok (List.replicate (least + more) length, later)

/-- The word lengths that a symbol stands for, where `last` is the length before them. -/
def symbolLengths (symbol : Nat) (last : Option Nat) (bits : Bits) :
    Except Damage (List Nat × Bits.Remainder bits) :=
  if symbol < 16 then .ok ([symbol], ⟨bits, bits.size_le_self⟩)
  else if symbol = 16 then repeatedLengths 2 3 last bits
  else if symbol = 17 then repeatedLengths 3 3 (some 0) bits
  else repeatedLengths 7 11 (some 0) bits

theorem wordLengths_eq (code : Code) (wanted : Nat) (found : List Nat) (bits : Bits) :
    wordLengths code wanted found bits =
      if wanted ≤ found.length then
        if found.length = wanted then .ok (found, ⟨bits, bits.size_le_self⟩) else .error .invalid
      else Bits.chain (Bits.taking code.read)
        (fun symbol => Bits.chain (symbolLengths symbol found.getLast?)
          (fun block => wordLengths code wanted (found ++ block)) fun _ all => all)
        (fun _ all => all) bits := by
  rw [wordLengths]
  split
  · rfl
  · rw [Bits.chain, Bits.taking]
    cases code.read bits with
    | error damage => rfl
    | ok taken =>
      obtain ⟨symbol, rest, less⟩ := taken
      dsimp only [Except.map, Except.bind, Bits.Taken.forget, Bits.chain]
      conv in (if symbol < 16 then _ else _) => change symbolLengths symbol found.getLast? rest
      cases symbolLengths symbol found.getLast? rest with
      | error damage => rfl
      | ok block =>
        dsimp only [Except.bind]
        cases wordLengths code wanted (found ++ block.1) block.2.val <;> rfl

theorem repeatedLengths_local (width least : Nat) (length : Option Nat) :
    Local (repeatedLengths width least length) := by
  intro bits value left h tail
  cases length with
  | none => cases h
  | some length =>
    rw [repeatedLengths] at h ⊢
    split at h
    · cases h
    · rename_i more later read
      cases h
      rw [Bits.number_local _ _ _ _ read tail]

theorem symbolLengths_local (symbol : Nat) (last : Option Nat) :
    Local (symbolLengths symbol last) := by
  by_cases low : symbol < 16
  · intro bits value left h tail
    rw [symbolLengths, if_pos low] at h ⊢
    cases h
    rfl
  · have branches : ∃ width least length, ∀ bits, symbolLengths symbol last bits =
        repeatedLengths width least length bits := by
      by_cases sixteen : symbol = 16
      · exact ⟨2, 3, last, fun bits => by rw [symbolLengths, if_neg low, if_pos sixteen]⟩
      · by_cases seventeen : symbol = 17
        · exact ⟨3, 3, some 0, fun bits => by
            rw [symbolLengths, if_neg low, if_neg sixteen, if_pos seventeen]⟩
        · exact ⟨7, 11, some 0, fun bits => by
            rw [symbolLengths, if_neg low, if_neg sixteen, if_neg seventeen]⟩
    obtain ⟨width, least, length, same⟩ := branches
    intro bits value left h tail
    rw [same] at h ⊢
    exact repeatedLengths_local _ _ _ _ _ _ h tail

theorem wordLengths_local (code : Code) (wanted : Nat) (found : List Nat) :
    Local (wordLengths code wanted found) := by
  intro bits
  induction size : bits.size using Nat.strongRecOn generalizing bits found with
  | ind n ih =>
    intro value left h tail
    rw [wordLengths_eq] at h ⊢
    by_cases filled : wanted ≤ found.length
    · rw [if_pos filled] at h ⊢
      split at h
      · rename_i fits
        rw [if_pos fits]
        cases h
        rfl
      · cases h
    · rw [if_neg filled] at h ⊢
      refine Bits.LocalAt.chain ((Code.read_local code).taking bits) ?_ _ _ h tail
      intro symbol left read
      refine Bits.LocalAt.chain (symbolLengths_local _ _ _) fun block later _ => ?_
      have smaller : later.val.size < n :=
        size ▸ Nat.lt_of_le_of_lt later.property (Bits.shorter_of_taking read)
      exact ih _ smaller _ later.val rfl

theorem bind_eq_ok {α β : Type} {action : Except Damage α} {next : α → Except Damage β} {value : β}
    (h : action >>= next = .ok value) : ∃ first, action = .ok first ∧ next first = .ok value := by
  cases action with
  | error damage => cases h
  | ok first => exact ⟨first, rfl, h⟩

theorem carriedCodes_local : Local carriedCodes := by
  intro bits value left h tail
  rw [carriedCodes] at h ⊢
  obtain ⟨⟨moreLiterals, afterLiterals, _⟩, first, h⟩ := bind_eq_ok h
  obtain ⟨⟨moreDistances, afterDistances, _⟩, second, h⟩ := bind_eq_ok h
  obtain ⟨⟨moreWidths, afterWidths, _⟩, third, h⟩ := bind_eq_ok h
  dsimp only at h
  split at h
  · cases h
  · rename_i few
    obtain ⟨⟨given, afterGiven, _⟩, fourth, h⟩ := bind_eq_ok h
    obtain ⟨code, fifth, h⟩ := bind_eq_ok h
    obtain ⟨⟨all, afterAll, _⟩, sixth, h⟩ := bind_eq_ok h
    obtain ⟨literals, seventh, h⟩ := bind_eq_ok h
    obtain ⟨distanceCode, eighth, h⟩ := bind_eq_ok h
    cases h
    dsimp only at fifth sixth seventh eighth
    rw [Bits.number_local _ _ _ _ first tail]
    simp only [bind, Except.bind, Bits.Remainder.followedBy, Bits.number_local _ _ _ _ second tail,
      Bits.number_local _ _ _ _ third tail, if_neg few, numbers_local _ _ _ _ _ fourth tail, fifth,
      wordLengths_local _ _ _ _ _ _ sixth tail, seventh, eighth]
    rfl

end Inflate

namespace Output

variable {output longer : Output}

/-! The text that is put out does not depend on when turns began. -/

theorem bytes_push (same : longer.bytes = output.bytes) (spent spent' : Bool) (byte : UInt8) :
    (longer.push spent' byte).bytes = (output.push spent byte).bytes := by
  simp only [push, same]

theorem back_eq (same : longer.bytes = output.bytes) (distance : Nat) :
    longer.back distance = output.back distance := by
  rw [back, back, size, size, same]

theorem bytes_repeatBack (same : longer.bytes = output.bytes) (spent spent' : Bool)
    (distance length : Nat) :
    (longer.repeatBack spent' distance length).bytes =
      (output.repeatBack spent distance length).bytes := by
  induction length generalizing output longer with
  | zero => exact same
  | succ length ih =>
    rw [repeatBack, repeatBack, back_eq same]
    exact ih (bytes_push same _ _ _)

theorem bytes_foldl_push (same : longer.bytes = output.bytes) (spent : Bool)
    (bytes : List UInt8) :
    (bytes.foldl (push spent) longer).bytes = (bytes.foldl (push spent) output).bytes := by
  induction bytes generalizing output longer with
  | nil => exact same
  | cons byte bytes ih => exact ih (bytes_push same _ _ _)

end Output

/-- A decompression that went well comes to the same text with more bytes behind its data. -/
def Inflated.Carries {limit limit' : Nat} (found : Inflated limit) (longer : Inflated limit')
    (tail : List UInt8) : Prop :=
  ∀ left, found.rest = .ok left → longer.output.bytes = found.output.bytes ∧
    ∃ later, longer.rest = .ok later ∧ later.val = left.val.followedBy tail

namespace Inflate

variable {limit limit' : Nat} {output longer : Output} {bits : Bits} {tail : List UInt8}

theorem symbols_carries (literals distanceCode : Code) (same : longer.bytes = output.bytes)
    (le : bits.size ≤ limit) (le' : (bits.followedBy tail).size ≤ limit') :
    (symbols limit literals distanceCode output bits le).Carries
      (symbols limit' literals distanceCode longer (bits.followedBy tail) le') tail := by
  induction size : bits.size using Nat.strongRecOn generalizing bits output longer with
  | ind n ih =>
    rw [symbols]
    cases read : literals.read bits with
    | error damage => exact nofun
    | ok taken =>
      obtain ⟨symbol, rest, less⟩ := taken
      have next := Code.read_local literals _ _ read tail
      dsimp only [Bits.Taken.followedBy] at next
      rw [symbols, next]
      dsimp only
      by_cases literal : symbol < endOfBlock
      · rw [if_pos literal, if_pos literal]
        exact ih _ (size ▸ less) (Output.bytes_push same _ _ _) _ _ rfl
      · rw [if_neg literal, if_neg literal]
        by_cases closing : symbol = endOfBlock
        · rw [if_pos closing, if_pos closing]
          rintro left ⟨⟩
          exact ⟨same, _, rfl, rfl⟩
        · rw [if_neg closing, if_neg closing]
          cases taken : phrase distanceCode symbol rest with
          | error damage => exact nofun
          | ok found =>
            obtain ⟨found, later, near⟩ := found
            have again := phrase_local distanceCode symbol _ _ _ taken tail
            dsimp only [Bits.Remainder.followedBy] at again
            rw [again]
            exact ih _ (size ▸ Nat.lt_of_le_of_lt near less) (Output.bytes_repeatBack same _ _ _ _)
              _ _ rfl

theorem stored_carries (same : longer.bytes = output.bytes) (le : bits.size ≤ limit)
    (le' : (bits.followedBy tail).size ≤ limit') :
    (stored limit output bits le).Carries
      (stored limit' longer (bits.followedBy tail) le') tail := by
  unfold stored
  split
  · rename_i a b c d bytes aligned
    have alignedToo : (bits.followedBy tail).align = a :: b :: c :: d :: (bytes ++ tail) := by
      change bits.align ++ tail = _
      rw [aligned]
      rfl
    split
    · rename_i counted
      dsimp only
      split
      · exact nofun
      · rename_i whole
        have enough : pair a b ≤ bytes.length := by
          rw [List.length_take] at whole
          omega
        rintro left ⟨⟩
        split
        · rename_i a' b' c' d' more again
          cases alignedToo.symm.trans again
          rw [if_pos counted]
          simp only [List.take_append_of_le_length enough, if_neg whole]
          exact ⟨Output.bytes_foldl_push same _ _, _, rfl,
            congrArg Bits.ofBytes (List.drop_append_of_le_length enough)⟩
        · rename_i short
          exact absurd alignedToo (short a b c d (bytes ++ tail))
    · exact nofun
  · exact nofun

theorem block_carries (kind : Nat) (same : longer.bytes = output.bytes) (le : bits.size ≤ limit)
    (le' : (bits.followedBy tail).size ≤ limit') :
    (block limit kind output bits le).Carries
      (block limit' kind longer (bits.followedBy tail) le') tail := by
  rw [block, block]
  by_cases plain : kind = 0
  · rw [if_pos plain, if_pos plain]
    exact stored_carries same le le'
  · rw [if_neg plain, if_neg plain]
    by_cases fixed : kind = 1
    · rw [if_pos fixed, if_pos fixed]
      cases fixedLiterals with
      | error damage => exact nofun
      | ok literals =>
        cases fixedDistances with
        | error damage => exact nofun
        | ok distanceCode => exact symbols_carries literals distanceCode same le le'
    · rw [if_neg fixed, if_neg fixed]
      by_cases carried : kind = 2
      · rw [if_pos carried, if_pos carried]
        cases read : carriedCodes bits with
        | error damage => exact nofun
        | ok codes =>
          obtain ⟨⟨literals, distanceCode⟩, rest, near⟩ := codes
          have again := carriedCodes_local _ _ _ read tail
          dsimp only [Bits.Remainder.followedBy] at again
          rw [again]
          exact symbols_carries literals distanceCode same _ _
      · rw [if_neg carried]
        exact nofun

/-- Data that is decompressed without damage comes to the same text, and to the same rest, with more
bytes behind it. -/
theorem blocks_followedBy {text : Output} {rest : Bits} (same : longer.bytes = output.bytes)
    (h : blocks output bits = (text, .ok rest)) (tail : List UInt8) :
    ∃ text', blocks longer (bits.followedBy tail) = (text', .ok (rest.followedBy tail)) ∧
      text'.bytes = text.bytes := by
  induction size : bits.size using Nat.strongRecOn generalizing bits output longer with
  | ind n ih =>
    rw [blocks] at h ⊢
    cases first : bits.next with
    | error damage =>
      rw [first] at h
      cases h
    | ok taken =>
      obtain ⟨last, afterLast, less⟩ := taken
      have next := Bits.next_local _ _ first tail
      dsimp only [Bits.Taken.followedBy] at next
      rw [first] at h
      rw [next]
      dsimp only at h ⊢
      cases second : afterLast.number 2 with
      | error damage =>
        rw [second] at h
        cases h
      | ok numbered =>
        obtain ⟨kind, body, le⟩ := numbered
        have number := Bits.number_local _ _ _ _ second tail
        dsimp only [Bits.Remainder.followedBy] at number
        rw [second] at h
        rw [number]
        dsimp only at h ⊢
        have carries := block_carries kind same (Nat.le_refl body.size)
          (Nat.le_refl (body.followedBy tail).size)
        generalize block body.size kind output body _ = found at h carries
        generalize block (body.followedBy tail).size kind longer (body.followedBy tail) _ = again
          at carries ⊢
        obtain ⟨found, left⟩ := found
        obtain ⟨again, later⟩ := again
        cases left with
        | error damage => cases h
        | ok left =>
          obtain ⟨text', later, rfl, rest'⟩ := carries left rfl
          obtain ⟨left, near⟩ := left
          obtain ⟨later, nearer⟩ := later
          dsimp only at h text' rest' ⊢
          subst rest'
          by_cases final : last = true
          · rw [if_pos final] at h ⊢
            cases h
            exact ⟨_, rfl, text'⟩
          · rw [if_neg final] at h ⊢
            exact ih _ (by omega) text' h rfl

end Inflate

/-! ## The member -/

variable {bytes rest : List UInt8}

theorem dropCounted_append (h : dropCounted bytes = some rest) (tail : List UInt8) :
    dropCounted (bytes ++ tail) = some (rest ++ tail) := by
  match bytes with
  | [] | [_] => cases h
  | low :: high :: bytes =>
    rw [dropCounted] at h
    rw [List.cons_append, List.cons_append, dropCounted]
    split at h
    · cases h
    · rename_i enough
      cases h
      rw [Nat.not_lt] at enough
      rw [if_neg (by rw [List.length_append]; omega), List.drop_append_of_le_length enough]

theorem dropField_append (h : dropField bytes = some rest) (tail : List UInt8) :
    dropField (bytes ++ tail) = some (rest ++ tail) := by
  rw [dropField] at h ⊢
  split at h
  · cases h
  · rename_i zero later found
    have again : (bytes ++ tail).dropWhile (· != 0) = zero :: (later ++ tail) := by
      rw [List.dropWhile_append, found]
      rfl
    rw [again]
    split at h
    · cases h
    · rename_i short
      cases h
      dsimp only
      rw [if_neg]
      simp only [List.length_append]
      omega

theorem dropCheck_append {crc : UInt32} (h : dropCheck crc bytes = some rest)
    (tail : List UInt8) : dropCheck crc (bytes ++ tail) = some (rest ++ tail) := by
  match bytes with
  | [] | [_] => cases h
  | low :: high :: bytes =>
    rw [dropCheck] at h
    rw [List.cons_append, List.cons_append, dropCheck]
    split at h
    · rename_i same
      cases h
      rw [if_pos same]
    · cases h

/-- A field that may be missing is dropped in front of other bytes if it is dropped at all. -/
theorem optional_append {field : List UInt8 → Option (List UInt8)} {tail : List UInt8}
    (drops : ∀ {bytes rest}, field bytes = some rest → field (bytes ++ tail) = some (rest ++ tail))
    (present : Bool) (h : (if present then field bytes else some bytes) = some rest) :
    (if present then field (bytes ++ tail) else some (bytes ++ tail)) = some (rest ++ tail) := by
  cases present with
  | true => exact drops h
  | false =>
    cases h
    rfl

/-- What stands in a file before its last bytes stands there also in a longer file. -/
theorem take_before_append (file bytes tail : List UInt8) :
    (file ++ tail).take ((file ++ tail).length - (bytes ++ tail).length) =
      file.take (file.length - bytes.length) := by
  rw [List.length_append, List.length_append, Nat.add_sub_add_right,
    List.take_append_of_le_length (Nat.sub_le _ _)]

theorem body?_append (h : body? bytes = some rest) (tail : List UInt8) :
    body? (bytes ++ tail) = some (rest ++ tail) := by
  unfold body? at h
  split at h
  · rename_i flags _ _ _ _ _ _ fields
    dsimp only at h
    split at h
    · cases h
    · rename_i known
      obtain ⟨afterExtra, extra, h⟩ := Option.bind_eq_some_iff.mp h
      obtain ⟨afterName, name, h⟩ := Option.bind_eq_some_iff.mp h
      obtain ⟨afterComment, comment, check⟩ := Option.bind_eq_some_iff.mp h
      have extra := @optional_append _ _ dropCounted tail (dropCounted_append · tail) _ extra
      have name := @optional_append _ _ dropField tail (dropField_append · tail) _ name
      have comment := @optional_append _ _ dropField tail (dropField_append · tail) _ comment
      have check := @optional_append _ _ (dropCheck _) tail (dropCheck_append · tail) _ check
      rw [← take_before_append _ afterComment tail] at check
      simp only [List.cons_append] at check ⊢
      rw [body?.eq_1]
      simp only [if_neg known]
      exact Option.bind_eq_some_iff.mpr ⟨_, extra, Option.bind_eq_some_iff.mpr ⟨_, name,
        Option.bind_eq_some_iff.mpr ⟨_, comment, check⟩⟩⟩
  · cases h

theorem closes_append {text : List UInt8} (h : closes text bytes = true) (tail : List UInt8) :
    closes text (bytes ++ tail) = true := by
  match bytes with
  | a :: b :: c :: d :: e :: f :: g :: i :: bytes => exact h

/-- A member that is unpacked without damage is unpacked to the same bytes with anything behind
it. -/
theorem unpack_append {member text : List UInt8} (h : unpack member = ⟨text, .finished⟩)
    (tail : List UInt8) : unpack (member ++ tail) = ⟨text, .finished⟩ := by
  rw [unpack] at h
  split at h
  · cases h
  · rename_i data header
    split at h
    · rename_i output rest inflated
      rw [ByteStream.mk.injEq] at h
      obtain ⟨rfl, ending⟩ := h
      split at ending
      · rename_i closed
        obtain ⟨output', again, same⟩ := Inflate.blocks_followedBy rfl inflated tail
        have again' : inflate (data ++ tail) = (output', .ok (rest.followedBy tail)) := again
        have text : output'.toList = output.toList := congrArg Array.toList same
        rw [unpack, body?_append header]
        simp only [again', text]
        have closedToo : closes output.toList (rest.followedBy tail).align = true :=
          closes_append closed tail
        rw [closedToo]
        rfl
      · cases ending
    · cases h

end Keypad.Gzip
