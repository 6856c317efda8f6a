import Keypad.Name.Search

/-!
The search finds the first candidate. A memo is sound when no reading goes on from a state it holds
as failed; every step of the search keeps the memo sound and answers with the first reading of the
enumeration that has no memo.
-/
namespace Keypad.Name

/-! ## The readings one by one

The readings of a query that use initials, listed without any memo: by ascending word, then by
ascending length of its initial, then the readings along the chain by ascending first word, then
those that take further initials. -/

/-- The readings of a query from each of the given words. -/
def readings : List Word → Digits → List (List Span)
  | [], _ => []
  | word :: later, query => (read (word :: later) query).toList ++ readings later query

/-- The readings that start with an initial of one of the given words. -/
def candidates (policy : Policy) (count : Nat) : List Word → Digits → List (List Span)
  | [], _ => []
  | [_], _ => []
  | word :: next :: later, query =>
    let continuations (rest : Digits) : List (List Span) :=
      if rest.isEmpty then [[]]
      else
        readings ((next :: later).filter (inChain policy count)) rest ++
          candidates policy count (next :: later) rest
    let lengths :=
      if policy.allowsInitial word.index count then initialLengths policy word query else []
    (lengths.flatMap fun length =>
      (continuations (query.drop length)).map (word.initial length :: ·)) ++
        candidates policy count (next :: later) query

/-! ## Numbered words -/

/-- Words with their ranks among `count` words, of which they are the last ones. -/
def Numbered (count : Nat) : List Word → Prop
  | [] => True
  | word :: later => word.index + later.length + 1 = count ∧ Numbered count later

namespace Numbered

theorem of_suffix {count : Nat} {part whole : List Word} (h : Numbered count whole)
    (suffix : part <:+ whole) : Numbered count part := by
  induction whole with
  | nil => rwa [List.suffix_nil.mp suffix]
  | cons word later ih =>
      rcases List.suffix_cons_iff.mp suffix with rfl | inner
      · exact h
      · exact ih h.2 inner

/-- The rank of a word says how many words stand before it. -/
theorem drop_index {words later : List Word} {word : Word} (h : Numbered words.length words)
    (suffix : word :: later <:+ words) : words.drop word.index = word :: later := by
  have rank := (h.of_suffix suffix).1
  rw [List.suffix_iff_eq_drop.mp suffix, List.length_cons]
  congr 1
  omega

end Numbered

theorem numbered_mapIdx (runs : List Run) (first : Nat) :
    Numbered (first + runs.length) (runs.mapIdx fun index run => ⟨run, first + index⟩) := by
  induction runs generalizing first with
  | nil => trivial
  | cons run later ih =>
      rw [List.mapIdx_cons]
      refine ⟨?_, ?_⟩
      · change first + 0 + _ + 1 = _
        rw [List.length_mapIdx, List.length_cons]
        omega
      · have next := ih (first + 1)
        simp only [Nat.add_assoc, Nat.add_comm 1] at next ⊢
        exact next

theorem numbered_words (layout : Layout) (name : Text) :
    Numbered (words layout name).length (words layout name) := by
  have all := numbered_mapIdx (Run.ofText layout 0 name) 0
  simp only [Nat.zero_add] at all
  rw [words, List.length_mapIdx]
  exact all

/-- The lengths of the initials a word may give to a query. -/
def openings (policy : Policy) (count : Nat) (word : Word) (query : Digits) : List Nat :=
  if policy.allowsInitial word.index count then initialLengths policy word query else []

/-- The readings of what is left of a query after an initial. -/
def continuations (policy : Policy) (count : Nat) (later : List Word) (rest : Digits) :
    List (List Span) :=
  if rest.isEmpty then [[]]
  else readings (later.filter (inChain policy count)) rest ++ candidates policy count later rest

theorem candidates_cons (policy : Policy) (count : Nat) (word next : Word) (later : List Word)
    (query : Digits) :
    candidates policy count (word :: next :: later) query =
      ((openings policy count word query).flatMap fun length =>
        (continuations policy count (next :: later) (query.drop length)).map
          (word.initial length :: ·)) ++
      candidates policy count (next :: later) query := rfl

theorem read_of_inside {word : Word} {later : List Word} {query : Digits}
    (inside : query <+: word.keys) :
    read (word :: later) query = some [word.initial query.length] := by
  rw [read, if_pos (List.isPrefixOf_iff_prefix.mpr inside)]

theorem read_of_past {word : Word} {later : List Word} {rest : Digits} (left : rest ≠ []) :
    read (word :: later) (word.keys ++ rest) = (read later rest).map (attach word later) := by
  have inside : ¬ word.keys ++ rest <+: word.keys := fun inside => by
    have short := inside.length_le
    have long := List.length_pos_iff.mpr left
    rw [List.length_append] at short
    omega
  rw [read, if_neg (by simpa using inside), if_pos (by simp), List.drop_left]

theorem read_of_outside {word : Word} {later : List Word} {query : Digits}
    (inside : ¬ query <+: word.keys) (past : ¬ word.keys <+: query) :
    read (word :: later) query = none := by
  rw [read, if_neg (by simpa using inside), if_neg (by simpa using past)]

/-- A query ends inside the first word, goes on after it, or does not start with it. -/
theorem read_cases (word : Word) (query : Digits) :
    query <+: word.keys ∨ (∃ rest, rest ≠ [] ∧ query = word.keys ++ rest) ∨
      ¬ query <+: word.keys ∧ ¬ word.keys <+: query := by
  by_cases inside : query <+: word.keys
  · exact .inl inside
  by_cases past : word.keys <+: query
  · obtain ⟨rest, rfl⟩ := past
    refine .inr (.inl ⟨rest, ?_, rfl⟩)
    rintro rfl
    exact inside (by simp)
  · exact .inr (.inr ⟨inside, past⟩)

theorem readAnywhere_eq_head? (words : List Word) (query : Digits) :
    readAnywhere words query = (readings words query).head? := by
  induction words with
  | nil => rfl
  | cons word later ih =>
      rw [readAnywhere, readings, List.head?_append, ih]
      cases read (word :: later) query <;> rfl

theorem mem_initialLengths_iff {length : Nat} {policy : Policy} {word : Word} {query : Digits} :
    length ∈ initialLengths policy word query ↔
      0 < length ∧ length ≤ policy.initialLimit ∧ length ≤ agreement word.keys query := by
  simp only [initialLengths, List.mem_range'_1]
  omega

theorem le_agreement_iff (length : Nat) (keys query : Digits) :
    length ≤ agreement keys query ↔
      length ≤ keys.length ∧ length ≤ query.length ∧ keys.take length = query.take length := by
  induction keys generalizing length query with
  | nil =>
      change length ≤ 0 ↔ length ≤ 0 ∧ _
      refine ⟨fun h => ?_, fun h => h.1⟩
      obtain rfl := Nat.le_zero.mp h
      exact ⟨Nat.le_refl _, Nat.zero_le _, rfl⟩
  | cons key keys ih =>
      cases query with
      | nil =>
          change length ≤ 0 ↔ _ ∧ length ≤ 0 ∧ _
          refine ⟨fun h => ?_, fun h => h.2.1⟩
          obtain rfl := Nat.le_zero.mp h
          exact ⟨Nat.zero_le _, Nat.le_refl _, rfl⟩
      | cons digit query =>
          cases length with
          | zero => simp
          | succ length =>
              rw [agreement]
              split
              · rename_i same
                simp [ih, same]
              · rename_i differ
                simp [differ]

theorem agreement_le (keys query : Digits) : agreement keys query ≤ query.length :=
  ((le_agreement_iff _ keys query).mp (Nat.le_refl _)).2.1

/-- An attempt that, from a sound memo, answers with the first of the given outcomes and leaves a
sound memo. -/
def Finds (sound : Memo → Prop) (attempt : Attempt) (outcomes : List (List Span)) : Prop :=
  ∀ memo, sound memo → (attempt memo).1 = outcomes.head? ∧ sound (attempt memo).2

namespace Finds

variable {sound : Memo → Prop}

/-- One attempt after another that fails. -/
theorem orElse {first second : Attempt} {near far : List (List Span)}
    (hfirst : Finds sound first near) (hsecond : Finds sound second far) :
    Finds sound (fun memo =>
      match first memo with
      | (some spans, memo) => (some spans, memo)
      | (none, memo) => second memo) (near ++ far) := by
  intro memo good
  obtain ⟨found, kept⟩ := hfirst memo good
  rw [List.head?_append, ← found]
  rcases outcome : first memo with ⟨_ | spans, next⟩ <;> rw [outcome] at kept <;>
    simp only [outcome]
  · rw [Option.none_or]
    exact hsecond next kept
  · exact ⟨rfl, kept⟩

theorem map {attempt : Attempt} {outcomes : List (List Span)} (h : Finds sound attempt outcomes)
    (f : List Span → List Span) :
    Finds sound (fun memo => ((attempt memo).1.map f, (attempt memo).2)) (outcomes.map f) := by
  intro memo good
  obtain ⟨found, kept⟩ := h memo good
  rw [List.head?_map, ← found]
  exact ⟨rfl, kept⟩

theorem firstOf {choices : List Nat} {attempt : Nat → Attempt} {outcomes : Nat → List (List Span)}
    (h : ∀ choice ∈ choices, Finds sound (attempt choice) (outcomes choice)) :
    Finds sound (Name.firstOf choices attempt) (choices.flatMap outcomes) := by
  induction choices with
  | nil => exact fun memo good => ⟨rfl, good⟩
  | cons choice more ih =>
      rw [List.flatMap_cons]
      exact orElse (h choice List.mem_cons_self)
        (ih fun other mem => h other (List.mem_cons_of_mem _ mem))

end Finds

/-- No reading goes on from a state that the memo holds as failed. -/
def Memo.Sound (policy : Policy) (words : List Word) (query : Digits) (memo : Memo) : Prop :=
  ∀ state ∈ memo.failed,
    continuations policy words.length (words.drop state.word) (query.drop state.used) = []

theorem Memo.sound_empty (policy : Policy) (words : List Word) (query : Digits) :
    Memo.empty.Sound policy words query := by
  intro state mem
  cases mem

section

variable {policy : Policy} {words later : List Word} {query : Digits} {next used : Nat}

theorem afterInitial_finds {further : Attempt} (rank : words.drop next = later)
    (spent : used ≤ query.length)
    (h : Finds (Memo.Sound policy words query) further
      (candidates policy words.length later (query.drop used))) :
    Finds (Memo.Sound policy words query)
      (afterInitial policy words.length query later next used further)
      (continuations policy words.length later (query.drop used)) := by
  intro memo good
  unfold afterInitial
  by_cases done : used = query.length
  · rw [if_pos done, continuations, done, List.drop_length]
    exact ⟨rfl, good⟩
  have left : (query.drop used).isEmpty = false := by
    rw [List.isEmpty_eq_false_iff, ne_eq, List.drop_eq_nil_iff]
    omega
  rw [if_neg done]
  by_cases known : memo.hasFailed ⟨next, used⟩ = true
  · have nothing := good _ (Memo.hasFailed_iff.mp known)
    rw [rank] at nothing
    rw [if_pos known, nothing]
    exact ⟨rfl, good⟩
  rw [if_neg known, continuations, left, if_neg Bool.false_ne_true, List.head?_append,
    ← readAnywhere_eq_head?]
  cases reading : readAnywhere (later.filter (inChain policy words.length)) (query.drop used) with
  | some spans => exact ⟨rfl, good⟩
  | none =>
      obtain ⟨found, kept⟩ := h (memo.enter ⟨next, used⟩) good
      rw [Option.none_or, ← found]
      rcases outcome : further (memo.enter ⟨next, used⟩) with ⟨_ | spans, after⟩ <;>
        rw [outcome] at found kept <;> simp only [outcome]
      · refine ⟨trivial, ?_⟩
        intro state mem
        rcases List.mem_cons.mp mem with rfl | old
        · -- Both ways on are empty, so the new entry is sound.
          rw [readAnywhere_eq_head?] at reading
          rw [rank, continuations, left, if_neg Bool.false_ne_true,
            List.head?_eq_none_iff.mp reading, List.head?_eq_none_iff.mp found.symm,
            List.append_nil]
        · exact kept state old
      · exact ⟨trivial, kept⟩

theorem takeInitials_finds (numbered : Numbered words.length words) {part : List Word}
    (suffix : part <:+ words) (spent : used ≤ query.length) :
    Finds (Memo.Sound policy words query) (takeInitials policy words.length query part used)
      (candidates policy words.length part (query.drop used)) := by
  induction part generalizing used with
  | nil => exact fun memo good => ⟨rfl, good⟩
  | cons word later ih =>
      have inner : later <:+ words := (List.suffix_cons word later).trans suffix
      cases later with
      | nil => exact fun memo good => ⟨rfl, good⟩
      | cons next later =>
          rw [candidates_cons]
          refine Finds.orElse (Finds.firstOf ?_) (ih inner spent)
          intro length mem
          have short : length ≤ (query.drop used).length := by
            split at mem
            · exact Nat.le_trans (mem_initialLengths_iff.mp mem).2.2 (agreement_le _ _)
            · cases mem
          rw [List.length_drop] at short
          rw [List.drop_drop]
          refine Finds.map ?_ (word.initial length :: ·)
          exact afterInitial_finds (numbered.drop_index inner) (by omega) (ih inner (by omega))

end

/-- The search answers with the first reading of the enumeration. -/
theorem searchWords_eq_head? (policy : Policy) {words : List Word} (query : Digits)
    (numbered : Numbered words.length words) :
    (searchWords policy words query).1 =
      (readings words query ++
        if policy.allowInitials then candidates policy words.length words query else []).head? := by
  unfold searchWords
  rw [List.head?_append, ← readAnywhere_eq_head?]
  cases readAnywhere words query with
  | some spans => rfl
  | none =>
      rw [Option.none_or]
      cases policy.allowInitials with
      | true =>
          exact (takeInitials_finds numbered List.suffix_rfl (Nat.zero_le _) .empty
            (Memo.sound_empty policy words query)).1
      | false => rfl

end Keypad.Name
