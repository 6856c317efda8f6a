import Keypad.Name.Index
import Mathlib.Data.List.Flatten

/-!
The index of a name read from left to right. It holds every chain of tokens that runs to the end of
the name, the shortest one first, and, when initials are allowed, every way to put initials of
earlier window tokens in front of a chain of later ones.
-/
namespace Keypad.Name

/-- The tokens from each one on, put together. -/
def tailChains : List Digits → List Digits
  | [] => []
  | token :: later => (token :: later).flatten :: tailChains later

theorem tailChains_eq (tokens : List Digits) :
    tailChains tokens = (List.range tokens.length).map fun k => (tokens.drop k).flatten := by
  induction tokens with
  | nil => rfl
  | cons token later ih =>
      rw [tailChains, ih, List.length_cons, List.range_succ_eq_map, List.map_cons, List.map_map]
      rfl

theorem reverse_tailChains (tokens : List Digits) :
    (tailChains tokens).reverse = (List.range tokens.length).map fun k =>
      (tokens.drop (tokens.length - (k + 1))).flatten := by
  rw [tailChains_eq, ← List.map_reverse, List.range_eq_range', List.reverse_range', List.map_map,
    ← List.range_eq_range']
  refine List.map_congr_left fun k _ => ?_
  rw [Function.comp_apply, Nat.zero_add, Nat.sub_sub, Nat.add_comm]

/-- The chains that begin with an initial: of a later token, or of the first one and then a chain of
later tokens with or without initials in front. -/
def abbreviations (limit : Nat) : List Digits → List Digits
  | [] => []
  | token :: later =>
    abbreviations limit later ++
      (beginnings limit token).flatMap fun initial =>
        ((tailChains later).reverse ++ abbreviations limit later).map (initial ++ ·)

/-- The tokens that lie in a window, and the last one. -/
def windowChain (policy : Policy) (tokens : List Digits) : List Digits :=
  (tokens.zipIdx.filter fun entry =>
    entry.2 + 1 == tokens.length || policy.allowsInitial entry.2 tokens.length).map (·.1)

theorem fullChains_append (chain : Digits) (near far : List Digits) :
    fullChains chain (near ++ far) =
      fullChains chain near ++ fullChains (near.reverse.flatten ++ chain) far := by
  induction near generalizing chain with
  | nil => rfl
  | cons token near ih =>
      simp only [List.cons_append, fullChains, ih, List.reverse_cons, List.flatten_append,
        List.flatten_singleton, List.append_assoc]

theorem fullChains_reverse (chain : Digits) (tokens : List Digits) :
    fullChains chain tokens.reverse = ((tailChains tokens).map (· ++ chain)).reverse := by
  induction tokens with
  | nil => rfl
  | cons token later ih =>
      rw [List.reverse_cons, fullChains_append, ih, List.reverse_reverse, fullChains, fullChains,
        tailChains, List.map_cons, List.reverse_cons, List.flatten_cons, List.append_assoc]

/-- Walking the window tokens from the last one backwards builds the same chains as reading them
from left to right. -/
theorem foldl_grow (limit : Nat) (tokens : List Digits) (last : Digits) :
    tokens.reverse.foldl (Chains.grow limit) (.ofLast last) =
      { plain := (tailChains (tokens ++ [last])).reverse
        longest := (tokens ++ [last]).flatten
        abbreviated := abbreviations limit (tokens ++ [last]) } := by
  induction tokens with
  | nil => simp [Chains.ofLast, tailChains, abbreviations]
  | cons token later ih =>
      rw [List.reverse_cons, List.foldl_append, ih, List.foldl_cons, List.foldl_nil, Chains.grow,
        List.cons_append, tailChains, abbreviations, List.flatten_cons, List.reverse_cons]

/-- Numbering tokens from the back and turning the numbers around picks those that numbering them
from the front picks. -/
theorem filter_zipIdx_reverse (chosen : Nat → Bool) (back : List Digits) :
    (back.zipIdx.filter fun entry => chosen (back.length - 1 - entry.2)).map (·.1) =
      ((back.reverse.zipIdx.filter fun entry => chosen entry.2).map (·.1)).reverse := by
  induction back with
  | nil => rfl
  | cons token back ih =>
      have shifted : (List.map (·.1)
          ((back.zipIdx 1).filter fun entry => chosen (back.length - entry.2))) =
          (back.zipIdx.filter fun entry => chosen (back.length - 1 - entry.2)).map (·.1) := by
        rw [List.zipIdx_succ, List.filter_map, List.map_map]
        refine congrArg (List.map _) (List.filter_congr ?_)
        rintro ⟨piece, index⟩ _
        change chosen (back.length - (index + 1)) = chosen (back.length - 1 - index)
        rw [Nat.add_comm, Nat.sub_add_eq]
      rw [List.zipIdx_cons, List.reverse_cons, List.zipIdx_append, List.filter_append,
        List.map_append, List.reverse_append, ← ih, ← shifted]
      simp only [List.length_cons, List.length_reverse, Nat.add_sub_cancel, Nat.zero_add,
        List.zipIdx_singleton, List.filter_cons, List.filter_nil]
      cases chosen back.length <;> rfl

theorem windowChain_append (policy : Policy) (tokens : List Digits) (last : Digits) :
    windowChain policy (tokens ++ [last]) =
      (tokens.zipIdx.filter fun entry =>
        policy.allowsInitial entry.2 (tokens.length + 1)).map (·.1) ++ [last] := by
  have earlier : tokens.zipIdx.filter (fun entry =>
      entry.2 + 1 == tokens.length + 1 || policy.allowsInitial entry.2 (tokens.length + 1)) =
      tokens.zipIdx.filter fun entry => policy.allowsInitial entry.2 (tokens.length + 1) := by
    apply List.filter_congr
    intro entry mem
    have low : entry.2 < tokens.length := by simpa using List.snd_lt_of_mem_zipIdx mem
    rw [beq_eq_false_iff_ne.mpr (by omega), Bool.false_or]
  simp only [windowChain, List.length_append, List.length_singleton, List.zipIdx_append,
    List.filter_append, List.map_append, earlier, Nat.zero_add, List.zipIdx_singleton]
  simp

theorem initialChains_reverse (policy : Policy) (tokens : List Digits) :
    initialChains policy tokens.reverse =
      abbreviations policy.initialLimit (windowChain policy tokens) := by
  rcases List.eq_nil_or_concat tokens with rfl | ⟨earlier, last, rfl⟩
  · rfl
  · have turned := filter_zipIdx_reverse (policy.allowsInitial · (earlier.length + 1))
      earlier.reverse
    rw [List.reverse_reverse, List.length_reverse] at turned
    have back : ∀ index, earlier.length + 1 - 2 - index = earlier.length - 1 - index := by omega
    rw [List.concat_eq_append, List.reverse_append, windowChain_append]
    simp only [List.reverse_singleton, List.singleton_append, initialChains, List.length_reverse,
      back, turned, foldl_grow]

theorem sublist_of_mem_tailChains {tokens : List Digits} {chain : Digits}
    (h : chain ∈ tailChains tokens) : chain.Sublist tokens.flatten := by
  induction tokens with
  | nil => cases h
  | cons token later ih =>
      rcases List.mem_cons.mp h with rfl | inner
      · exact List.Sublist.refl _
      · exact (ih inner).trans (List.sublist_append_right _ _)

theorem sublist_of_mem_abbreviations {limit : Nat} {tokens : List Digits} {chain : Digits}
    (h : chain ∈ abbreviations limit tokens) : chain.Sublist tokens.flatten := by
  induction tokens generalizing chain with
  | nil => cases h
  | cons token later ih =>
      rcases List.mem_append.mp h with old | new
      · exact (ih old).trans (List.sublist_append_right _ _)
      · obtain ⟨initial, begins, made⟩ := List.mem_flatMap.mp new
        obtain ⟨rest, listed, rfl⟩ := List.mem_map.mp made
        obtain ⟨length, _, rfl⟩ := List.mem_map.mp begins
        refine (List.take_sublist _ _).append ?_
        rcases List.mem_append.mp listed with plain | short
        · exact sublist_of_mem_tailChains (List.mem_reverse.mp plain)
        · exact ih short

theorem windowChain_sublist (policy : Policy) (tokens : List Digits) :
    (windowChain policy tokens).Sublist tokens := by
  have whole := (List.filter_sublist (l := tokens.zipIdx) (p := fun entry =>
    entry.2 + 1 == tokens.length || policy.allowsInitial entry.2 tokens.length)).map Prod.fst
  rwa [List.zipIdx_map_fst] at whole

/-- The index of a name from its tokens. -/
theorem index_eq (layout : Layout) (policy : Policy) (name : Text) :
    index layout policy name =
      (tailChains (tokens layout name)).reverse ++
        if policy.allowInitials then
          abbreviations policy.initialLimit (windowChain policy (tokens layout name))
        else [] := by
  simp only [index, fullChains_reverse, initialChains_reverse, List.append_nil, List.map_id_fun',
    id_eq]

/-- The index leaves keys of the name out, but it adds none and keeps their order. -/
theorem sublist_of_mem_index {layout : Layout} {policy : Policy} {name : Text} {entry : Digits}
    (h : entry ∈ index layout policy name) : entry.Sublist (tokens layout name).flatten := by
  rw [index_eq] at h
  rcases List.mem_append.mp h with plain | short
  · exact sublist_of_mem_tailChains (List.mem_reverse.mp plain)
  · split at short
    · exact (sublist_of_mem_abbreviations short).trans (windowChain_sublist policy _).flatten
    · cases short

end Keypad.Name
