import Keypad.Proofs.Name.Search
import Mathlib.Data.List.Nodup
import Mathlib.Data.List.Perm.Subperm
import Mathlib.Data.List.ProdSigma

/-!
The memo of a search. A search enters no state twice, so it gives none up twice either, and all its
states lie between the first and the last word and between the first and the last key. This bounds
the work of a search by the product of words and keys, however many ways to take initials there are.
-/
namespace Keypad.Name

/-- A state after an initial that a query goes on from: some word but the first comes next, and some
keys of the query are used, though not all. -/
def State.Within (count size : Nat) (state : State) : Prop :=
  (1 ≤ state.word ∧ state.word ≤ count - 1) ∧ 1 ≤ state.used ∧ state.used < size

/-- A memo at some moment of a search: no state was entered twice, and the entered ones are those
under way and those that failed. -/
structure Memo.Tidy (count size : Nat) (underway : List State) (memo : Memo) : Prop where
  once : memo.opened.Nodup
  parts : memo.opened.Perm (underway ++ memo.failed)
  within : ∀ state ∈ memo.opened, state.Within count size

namespace Memo.Tidy

variable {count size : Nat} {underway : List State} {memo : Memo} {state : State}

theorem empty : Memo.empty.Tidy count size [] where
  once := List.nodup_nil
  parts := .refl _
  within state mem := by cases mem

theorem enter (h : memo.Tidy count size underway) (within : state.Within count size)
    (fresh : state ∉ underway) (unfailed : state ∉ memo.failed) :
    (memo.enter state).Tidy count size (state :: underway) where
  once := by
    refine List.nodup_cons.mpr ⟨fun mem => ?_, h.once⟩
    exact (List.mem_append.mp (h.parts.mem_iff.mp mem)).elim fresh unfailed
  parts := h.parts.cons state
  within other mem := by
    rcases List.mem_cons.mp mem with rfl | old
    · exact within
    · exact h.within other old

theorem giveUp (h : memo.Tidy count size (state :: underway)) :
    (memo.giveUp state).Tidy count size underway where
  once := h.once
  parts := h.parts.trans List.perm_middle.symm
  within := h.within

theorem mem_opened (h : memo.Tidy count size underway) (mem : state ∈ memo.failed) :
    state ∈ memo.opened :=
  h.parts.mem_iff.mpr (List.mem_append_right underway mem)

theorem nodup_failed (h : memo.Tidy count size underway) : memo.failed.Nodup :=
  List.Nodup.of_append_right (h.parts.nodup_iff.mp h.once)

/-- There are no more states than pairs of a word and a number of keys. -/
theorem length_opened_le (h : memo.Tidy count size underway) :
    memo.opened.length ≤ (count - 1) * (size - 1) := by
  have pairs : memo.opened ⊆
      (List.range' 1 (count - 1) ×ˢ List.range' 1 (size - 1)).map fun pair =>
        ⟨pair.1, pair.2⟩ := by
    intro state mem
    obtain ⟨⟨first, last⟩, low, high⟩ := h.within state mem
    refine List.mem_map.mpr ⟨(state.word, state.used), ?_, rfl⟩
    rw [List.mem_product, List.mem_range'_1, List.mem_range'_1]
    omega
  have fits := (h.once.subperm pairs).length_le
  rwa [List.length_map, List.length_product, List.length_range', List.length_range'] at fits

theorem length_failed_le (h : memo.Tidy count size underway) :
    memo.failed.length ≤ (count - 1) * (size - 1) := by
  have parts := h.parts.length_eq
  rw [List.length_append] at parts
  have := h.length_opened_le
  omega

end Memo.Tidy

/-- What an attempt leaves: what holds during the search if it failed, and what is to hold in the end
if it succeeded. -/
def Leaves (during final : Memo → Prop) : Option (List Span) × Memo → Prop
  | (none, memo) => during memo
  | (some _, memo) => final memo

/-- An attempt that may be made whenever the search is under way. -/
def Keeps (during final : Memo → Prop) (attempt : Attempt) : Prop :=
  ∀ memo, during memo → Leaves during final (attempt memo)

namespace Keeps

variable {during final : Memo → Prop}

theorem fail : Keeps during final fun memo => (none, memo) := fun _ held => held

/-- One attempt after another that fails. -/
theorem orElse {first second : Attempt} (hfirst : Keeps during final first)
    (hsecond : Keeps during final second) :
    Keeps during final fun memo =>
      match first memo with
      | (some spans, memo) => (some spans, memo)
      | (none, memo) => second memo := by
  intro memo held
  have left := hfirst memo held
  rcases outcome : first memo with ⟨_ | spans, next⟩ <;> rw [outcome] at left <;>
    simp only [outcome]
  · exact hsecond next left
  · exact left

theorem map {attempt : Attempt} (h : Keeps during final attempt) (f : List Span → List Span) :
    Keeps during final fun memo => ((attempt memo).1.map f, (attempt memo).2) := by
  intro memo held
  have left := h memo held
  rcases outcome : attempt memo with ⟨_ | spans, next⟩ <;> rw [outcome] at left <;>
    simp only [outcome] <;> exact left

theorem firstOf {choices : List Nat} {attempt : Nat → Attempt}
    (h : ∀ choice ∈ choices, Keeps during final (attempt choice)) :
    Keeps during final (Name.firstOf choices attempt) := by
  induction choices with
  | nil => exact fail
  | cons choice more ih =>
      exact orElse (h choice List.mem_cons_self)
        (ih fun other mem => h other (List.mem_cons_of_mem _ mem))

end Keeps

/-- The memo of a search that has ended. A search that succeeds may leave states under way. -/
def Memo.Ended (count size : Nat) (memo : Memo) : Prop := ∃ underway, memo.Tidy count size underway

section

variable {policy : Policy} {count next used : Nat} {query : Digits} {underway : List State}
  {later part : List Word}

/-- Going on after an initial enters one state more, which comes after all that are under way. The
state is under way itself until both ways on have failed. -/
theorem afterInitial_keeps {further : Attempt} (within : used ≠ query.length →
      State.Within count query.length ⟨next, used⟩)
    (ahead : ∀ state ∈ underway, state.word < next)
    (h : Keeps (Memo.Tidy count query.length (⟨next, used⟩ :: underway))
      (Memo.Ended count query.length) further) :
    Keeps (Memo.Tidy count query.length underway) (Memo.Ended count query.length)
      (afterInitial policy count query later next used further) := by
  intro memo tidy
  unfold afterInitial
  by_cases done : used = query.length
  · rw [if_pos done]
    exact ⟨underway, tidy⟩
  rw [if_neg done]
  by_cases known : memo.hasFailed ⟨next, used⟩ = true
  · rw [if_pos known]
    exact tidy
  rw [if_neg known]
  have entered := tidy.enter (within done)
    (fun mem => Nat.lt_irrefl _ (ahead _ mem)) (mt Memo.hasFailed_iff.mpr known)
  cases readAnywhere (later.filter (inChain policy count)) (query.drop used) with
  | some spans => exact ⟨_, entered⟩
  | none =>
      have left := h _ entered
      rcases outcome : further (memo.enter ⟨next, used⟩) with ⟨_ | spans, after⟩ <;>
        rw [outcome] at left <;> simp only [outcome]
      · exact left.giveUp
      · exact left

/-- Taking initials enters only states that come after all that are under way, since the word of a
state is later than the one that gave the initial. -/
theorem takeInitials_keeps (numbered : Numbered count part)
    (ahead : ∀ first ∈ part.head?, ∀ state ∈ underway, state.word ≤ first.index) :
    Keeps (Memo.Tidy count query.length underway) (Memo.Ended count query.length)
      (takeInitials policy count query part used) := by
  induction part generalizing used underway with
  | nil => exact Keeps.fail
  | cons word later ih =>
      cases later with
      | nil => exact Keeps.fail
      | cons next later =>
          have rank : word.index + (later.length + 1) + 1 = count := numbered.1
          have nextRank : next.index + later.length + 1 = count := numbered.2.1
          have behind : ∀ state ∈ underway, state.word < next.index := by
            intro state mem
            have := ahead word rfl state mem
            omega
          refine Keeps.orElse (Keeps.firstOf ?_) (ih numbered.2 ?_)
          · intro length mem
            have short : 1 ≤ length ∧ length ≤ (query.drop used).length := by
              split at mem
              · obtain ⟨low, -, agreed⟩ := mem_initialLengths_iff.mp mem
                exact ⟨low, Nat.le_trans agreed (agreement_le _ _)⟩
              · cases mem
            rw [List.length_drop] at short
            refine Keeps.map (afterInitial_keeps ?_ behind (ih numbered.2 ?_))
              (word.initial length :: ·)
            · intro left
              refine ⟨⟨?_, ?_⟩, ?_, ?_⟩ <;> simp only <;> omega
            · rintro _ ⟨⟩ state mem
              rcases List.mem_cons.mp mem with rfl | old
              · exact Nat.le_refl _
              · exact Nat.le_of_lt (behind state old)
          · rintro _ ⟨⟩ state mem
            exact Nat.le_of_lt (behind state mem)

end

/-- A search ends with a tidy memo, and one without spans has no state left under way. -/
theorem searchWords_tidy (policy : Policy) {words : List Word} (query : Digits)
    (numbered : Numbered words.length words) :
    ∃ underway, (searchWords policy words query).2.Tidy words.length query.length underway ∧
      ((searchWords policy words query).1 = none → underway = []) := by
  unfold searchWords
  cases readAnywhere words query with
  | some spans => exact ⟨[], .empty, fun _ => rfl⟩
  | none =>
      cases policy.allowInitials with
      | false => exact ⟨[], .empty, fun _ => rfl⟩
      | true =>
          have left : Leaves (Memo.Tidy words.length query.length []) _
              (takeInitials policy words.length query words 0 .empty) :=
            takeInitials_keeps numbered (by simp) .empty .empty
          rcases outcome : takeInitials policy words.length query words 0 .empty with
            ⟨_ | spans, memo⟩ <;> rw [outcome] at left <;> simp only [if_true]
          · exact ⟨[], left, fun _ => rfl⟩
          · obtain ⟨underway, tidy⟩ := left
            exact ⟨underway, tidy, fun failed => (Option.some_ne_none _ failed).elim⟩

/-- However a search for a query in a name ends, it entered no state twice and gave none up twice.
It gave up only states that it entered, and all of them when it found nothing. In each of its states
some word but the first comes next and some keys but not all are used, so there are no more of them
than the words but one times the keys but one. Both logs only grow, so this holds of them at every
moment of the search. -/
theorem states_entered_once (layout : Layout) (policy : Policy) (name : Text) (query : Digits) :
    let outcome := searchWords policy (words layout name) query
    let memo := outcome.2
    let count := (words layout name).length
    memo.opened.Nodup ∧ memo.failed.Nodup ∧ memo.failed ⊆ memo.opened ∧
      (outcome.1 = none → memo.opened ⊆ memo.failed) ∧
      (∀ state ∈ memo.opened, (1 ≤ state.word ∧ state.word ≤ count - 1) ∧
        1 ≤ state.used ∧ state.used < query.length) ∧
      memo.opened.length ≤ (count - 1) * (query.length - 1) ∧
      memo.failed.length ≤ (count - 1) * (query.length - 1) := by
  intro outcome memo count
  obtain ⟨underway, tidy, ended⟩ := searchWords_tidy policy query (numbered_words layout name)
  refine ⟨tidy.once, tidy.nodup_failed, fun _ => tidy.mem_opened, ?_, tidy.within,
    tidy.length_opened_le, tidy.length_failed_le⟩
  intro nothing state mem
  obtain rfl := ended nothing
  exact tidy.parts.mem_iff.mp mem

/-- The bound is reached: with two words and two keys one state is entered and given up. -/
example : (searchWords .standard (words .latin "A B".toList) "29".toList).2.failed = [⟨1, 1⟩] := by
  decide +kernel

end Keypad.Name
