import Keypad.Proofs.Name.Search
import Mathlib.Data.List.Basic

/-!
The search by initials, with its memo and its early ends, answers with the first plan that spells
the query. A plan is cut off early only when its initials already differ from the query, and the
plans that succeed are, in their order, the readings of the enumeration.
-/
namespace Keypad.Name

/-! ## Plans

The ways to type a name by initials, listed before any query is known, in a fixed order: by ascending
word, then by ascending length of its initial, and after an initial first the plan that ends there,
then the chains by ascending first word, then the plans that take further initials. Each plan is
tried on a query by itself, and nothing is remembered from one to the next. -/

/-- Some initials and the words that are read after the last one. Without such words a query has to
end with the last initial. -/
structure Plan where
  /-- The words that give an initial, each with the number of keys it gives. -/
  initials : List (Word × Nat)
  chain : List Word
  deriving DecidableEq, Repr

namespace Plan

/-- The keys of the initials. -/
def keys (plan : Plan) : Digits := plan.initials.flatMap fun (word, length) => word.keys.take length

def spans (plan : Plan) : List Span := plan.initials.map fun (word, length) => word.initial length

/-- The same plan with one more initial in front. -/
def openedBy (word : Word) (length : Nat) (plan : Plan) : Plan :=
  { plan with initials := (word, length) :: plan.initials }

/-- What a query highlights when it is typed by the plan: it takes all initials, and what is left of
it is read along the chain. -/
def reading? (query : Digits) (plan : Plan) : Option (List Span) :=
  if plan.keys.isPrefixOf query then
    match query.drop plan.keys.length, plan.chain with
    | [], [] => some plan.spans
    | [], _ :: _ => none
    | key :: rest, chain => (read chain (key :: rest)).map (plan.spans ++ ·)
  else none

end Plan

/-- The words from each one on. -/
def tails : List Word → List (List Word)
  | [] => []
  | word :: later => (word :: later) :: tails later

/-- The plans for the given words, which end with the last word of a name with `count` words. -/
def plans (policy : Policy) (count : Nat) : List Word → List Plan
  | [] => []
  | [_] => []
  | word :: next :: later =>
    let further := plans policy count (next :: later)
    let chains := tails ((next :: later).filter (inChain policy count))
    let lengths :=
      if policy.allowsInitial word.index count then
        List.range' 1 (min policy.initialLimit word.keys.length)
      else []
    (lengths.flatMap fun length =>
      ((⟨[], []⟩ :: chains.map (Plan.mk []) ++ further).map (Plan.openedBy word length))) ++ further

/-! ## The search and the plans -/

theorem take_prefix_iff {length : Nat} {keys query : Digits} (inside : length ≤ keys.length) :
    keys.take length <+: query ↔ length ≤ agreement keys query := by
  have front := List.length_take_of_le inside
  rw [le_agreement_iff, List.prefix_iff_eq_take, front]
  constructor
  · intro same
    have short := congrArg List.length same
    rw [front, List.length_take] at short
    exact ⟨inside, by omega, same⟩
  · exact fun agreed => agreed.2.2

/-- Only the lengths up to where a word and the query part leave an initial that fits. -/
theorem flatMap_lengths {α : Type} (policy : Policy) (word : Word) (query : Digits)
    (f : Nat → List α) :
    ((List.range' 1 (min policy.initialLimit word.keys.length)).flatMap fun length =>
      if word.keys.take length <+: query then f length else []) =
    (initialLengths policy word query).flatMap f := by
  have bound : agreement word.keys query ≤ word.keys.length :=
    ((le_agreement_iff _ _ _).mp (Nat.le_refl _)).1
  obtain ⟨past, total⟩ := Nat.exists_eq_add_of_le
    (show min policy.initialLimit (agreement word.keys query) ≤
      min policy.initialLimit word.keys.length by omega)
  rw [total, ← List.range'_append_1, List.flatMap_append, initialLengths]
  have fits : ∀ length ∈ List.range' 1 (min policy.initialLimit (agreement word.keys query)),
      (if word.keys.take length <+: query then f length else []) = f length := by
    intro length mem
    rw [List.mem_range'_1] at mem
    exact if_pos ((take_prefix_iff (by omega)).mpr (by omega))
  have parts : ∀ length ∈
      List.range' (1 + min policy.initialLimit (agreement word.keys query)) past,
      (if word.keys.take length <+: query then f length else []) = [] := by
    intro length mem
    rw [List.mem_range'_1] at mem
    refine if_neg fun front => ?_
    have agreed := (take_prefix_iff (by omega)).mp front
    omega
  rw [List.flatMap_congr fits, List.flatMap_eq_nil_iff.mpr parts, List.append_nil]

namespace Plan

theorem keys_openedBy (word : Word) (length : Nat) (plan : Plan) :
    (plan.openedBy word length).keys = word.keys.take length ++ plan.keys := rfl

theorem reading?_eq_none {query : Digits} {plan : Plan} (h : ¬ plan.keys <+: query) :
    plan.reading? query = none := by
  rw [reading?, if_neg (by simpa using h)]

/-- An initial in front takes its keys off the query and lights up before all else. -/
theorem reading?_openedBy {word : Word} {length : Nat} (inside : length ≤ word.keys.length)
    (query : Digits) (plan : Plan) :
    (plan.openedBy word length).reading? query =
      if word.keys.take length <+: query then
        (plan.reading? (query.drop length)).map (word.initial length :: ·)
      else none := by
  have front := List.length_take_of_le inside
  split
  · rename_i fits
    obtain ⟨rest, rfl⟩ := fits
    rw [List.drop_left' front]
    by_cases more : plan.keys <+: rest
    · obtain ⟨left, rfl⟩ := more
      have whole : (plan.openedBy word length).keys <+:
          word.keys.take length ++ (plan.keys ++ left) := by
        rw [keys_openedBy, ← List.append_assoc]
        exact List.prefix_append _ _
      have rest : (word.keys.take length ++ (plan.keys ++ left)).drop
          (plan.openedBy word length).keys.length = left := by
        rw [keys_openedBy, ← List.append_assoc, List.drop_left]
      rw [reading?, reading?, if_pos (List.isPrefixOf_iff_prefix.mpr whole), rest,
        if_pos (List.isPrefixOf_iff_prefix.mpr (List.prefix_append _ _)), List.drop_left]
      obtain ⟨initials, chain⟩ := plan
      cases left with
      | nil => cases chain <;> rfl
      | cons key left =>
          change (read chain (key :: left)).map _ = ((read chain (key :: left)).map _).map _
          rw [Option.map_map]
          rfl
    · rw [reading?_eq_none more, Option.map_none, reading?_eq_none]
      rwa [keys_openedBy, List.prefix_append_right_inj]
  · rename_i differs
    refine reading?_eq_none fun whole => differs ?_
    rw [keys_openedBy] at whole
    exact (List.prefix_append _ _).trans whole

theorem filterMap_openedBy {word : Word} {length : Nat} (inside : length ≤ word.keys.length)
    (query : Digits) (plans : List Plan) :
    (plans.map (openedBy word length)).filterMap (reading? query) =
      if word.keys.take length <+: query then
        (plans.filterMap (reading? (query.drop length))).map (word.initial length :: ·)
      else [] := by
  rw [List.filterMap_map]
  split
  · rename_i fits
    rw [List.map_filterMap]
    refine List.filterMap_congr fun plan _ => ?_
    exact (reading?_openedBy inside query plan).trans (if_pos fits)
  · rename_i differs
    rw [List.filterMap_eq_nil_iff]
    intro plan _
    exact (reading?_openedBy inside query plan).trans (if_neg differs)

theorem reading?_of_nil (query : Digits) (chain : List Word) :
    (Plan.mk [] chain).reading? query =
      if query.isEmpty then if chain.isEmpty then some [] else none else read chain query := by
  cases query <;> cases chain <;> simp [reading?, keys, spans]

end Plan

theorem filterMap_tails {query : Digits} (left : query ≠ []) (words : List Word) :
    ((tails words).map (Plan.mk [])).filterMap (Plan.reading? query) = readings words query := by
  induction words with
  | nil => rfl
  | cons word later ih =>
      have typed : ¬ query.isEmpty = true := by simpa using left
      rw [tails, List.map_cons, List.filterMap_cons, ih, readings, Plan.reading?_of_nil,
        if_neg typed]
      cases read (word :: later) query <;> rfl

theorem candidates_nil (policy : Policy) (count : Nat) (words : List Word) :
    candidates policy count words [] = [] := by
  induction words with
  | nil => rfl
  | cons word later ih =>
      cases later with
      | nil => rfl
      | cons next later =>
          have none : openings policy count word [] = [] := by
            rw [openings, initialLengths, Nat.le_zero.mp (agreement_le word.keys []), Nat.min_zero]
            exact ite_self _
          rw [candidates_cons, none, ih]
          rfl

/-- A chain reads nothing once a query is used up. -/
theorem filterMap_tails_nil (words : List Word) :
    ((tails words).map (Plan.mk [])).filterMap (Plan.reading? []) = [] := by
  induction words with
  | nil => rfl
  | cons word later ih => exact ih

/-- After an initial the plans succeed that end there, that read a chain or that take further
initials. -/
theorem filterMap_continuations {policy : Policy} {count : Nat} {later : List Word} {rest : Digits}
    (further : candidates policy count later rest =
      (plans policy count later).filterMap (Plan.reading? rest)) :
    (Plan.mk [] [] :: (tails (later.filter (inChain policy count))).map (Plan.mk []) ++
      plans policy count later).filterMap (Plan.reading? rest) =
    continuations policy count later rest := by
  rw [List.filterMap_append, List.filterMap_cons, Plan.reading?_of_nil, ← further, continuations]
  by_cases done : rest = []
  · subst done
    rw [filterMap_tails_nil, candidates_nil]
    rfl
  · have typed : ¬ rest.isEmpty = true := by simpa using done
    rw [filterMap_tails done, if_neg typed, if_neg typed]
    rfl

/-- The plans that spell a query are, in their order, the readings of the enumeration. -/
theorem candidates_eq_filterMap (policy : Policy) (count : Nat) (words : List Word)
    (query : Digits) :
    candidates policy count words query =
      (plans policy count words).filterMap (Plan.reading? query) := by
  induction words generalizing query with
  | nil => rfl
  | cons word later ih =>
      cases later with
      | nil => rfl
      | cons next later =>
          have opened : ∀ length ∈ List.range' 1 (min policy.initialLimit word.keys.length),
              ((Plan.mk [] [] ::
                (tails ((next :: later).filter (inChain policy count))).map (Plan.mk []) ++
                  plans policy count (next :: later)).map (Plan.openedBy word length)).filterMap
                (Plan.reading? query) =
              if word.keys.take length <+: query then
                (continuations policy count (next :: later) (query.drop length)).map
                  (word.initial length :: ·)
              else [] := by
            intro length mem
            rw [List.mem_range'_1] at mem
            rw [Plan.filterMap_openedBy (by omega), filterMap_continuations (ih _)]
          rw [candidates_cons, plans, List.filterMap_append, ← ih query]
          congr 1
          rw [List.filterMap_flatMap, openings]
          split
          · rw [List.flatMap_congr opened, flatMap_lengths]
          · rfl

/-- The memo and the early ends of the search change nothing: where no words are read in full, it
answers with the first plan that spells the query, and fails just when no plan does. -/
theorem search_eq_first_plan (layout : Layout) (policy : Policy) (name : Text) (query : Digits)
    (allowed : policy.allowInitials = true) (typed : query ≠ [])
    (fits : query.length ≤ name.length) (whole : readAnywhere (words layout name) query = none) :
    let all := words layout name
    let found := (searchWords policy all query).1
    search layout policy name query = found ∧
      found = (plans policy all.length all).findSome? (Plan.reading? query) ∧
      (found = none ↔ ∀ plan ∈ plans policy all.length all, plan.reading? query = none) := by
  intro all found
  have first : found = (plans policy all.length all).findSome? (Plan.reading? query) := by
    rw [← List.head?_filterMap, ← candidates_eq_filterMap]
    have listed := searchWords_eq_head? policy query (numbered_words layout name)
    rwa [List.head?_append, ← readAnywhere_eq_head?, whole, Option.none_or,
      if_pos allowed] at listed
  refine ⟨if_neg ?_, first, ?_⟩
  · simp only [List.isEmpty_iff, typed, false_or]
    omega
  · rw [first, List.findSome?_eq_none_iff]

/-- In `Al Bo Sam` the keys `27` are the initials of the first and of the second word before `Sam`;
the first word is taken. -/
theorem search_eq_first_plan_al_bo_sam :
    let name := "Al Bo Sam".toList
    let query := "27".toList
    let all := words .latin name
    readAnywhere all query = none ∧
      search .latin .standard name query = some [⟨0, 1⟩, ⟨6, 7⟩] ∧
      (plans .standard all.length all).findSome? (Plan.reading? query) =
        some [⟨0, 1⟩, ⟨6, 7⟩] := by
  intro name query all
  have whole : readAnywhere all query = none := by decide +kernel
  have found : search .latin .standard name query = some [⟨0, 1⟩, ⟨6, 7⟩] := by decide +kernel
  obtain ⟨run, first, _⟩ :=
    search_eq_first_plan .latin .standard name query rfl (by decide) (by decide) whole
  exact ⟨whole, found, first.symm.trans (run.symm.trans found)⟩

end Keypad.Name
