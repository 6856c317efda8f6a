import Keypad.Proofs.Name.Chains
import Mathlib.Data.List.Nodup

/-!
The index of a name as an enumeration. Its first entries are the chains that run to the end of the
name, one for each token. When initials are allowed, every other entry belongs to a choice of
pieces of window tokens and of a window token behind them, or the last one, from which a chain is
read; each choice gives one entry, and there are no others.
-/
namespace Keypad.Name

/-- The tokens that lie in a window, and the last one, each with its index. -/
def windowEntries (policy : Policy) (tokens : List Digits) : List (Digits × Nat) :=
  tokens.zipIdx.filter fun entry =>
    entry.2 + 1 == tokens.length || policy.allowsInitial entry.2 tokens.length

/-- The entries stand in the order of their indices. -/
def Ascending (entries : List (Digits × Nat)) : Prop := entries.Pairwise fun a b => a.2 < b.2

/-- A choice of leading pieces of tokens, each given by the index of the token and the number of
its keys, and of the token from which a chain is read behind them. -/
structure Combination where
  pieces : List (Nat × Nat)
  chain : Nat
  deriving DecidableEq, Repr

namespace Combination

/-- The tokens that are chosen, in the order in which they are read. -/
def indices (choice : Combination) : List Nat := choice.pieces.map (·.1) ++ [choice.chain]

/-- The same choice with one more piece in front. -/
def ledBy (piece : Nat × Nat) (choice : Combination) : Combination :=
  { choice with pieces := piece :: choice.pieces }

/-- What is typed: the pieces of the tokens, and then whatever entries stand from the start of the
chain on. -/
def spell (tokens : List Digits) (entries : List (Digits × Nat)) (choice : Combination) : Digits :=
  (choice.pieces.flatMap fun piece => (tokens.getD piece.1 []).take piece.2) ++
    (entries.filter fun entry => choice.chain ≤ entry.2).flatMap (·.1)

/-- What is typed for the tokens of a name; a chain is read along the window tokens and the last
one. -/
def keys (policy : Policy) (tokens : List Digits) (choice : Combination) : Digits :=
  choice.spell tokens (windowEntries policy tokens)

/-- The choices that may be typed for a name: at least one piece, the tokens in ascending order, a
piece no longer than the limit and its token, and every token in a window, save that a chain may
also start with the last one. -/
structure Allowed (policy : Policy) (tokens : List Digits) (choice : Combination) : Prop where
  abbreviates : choice.pieces ≠ []
  ascending : choice.indices.Pairwise (· < ·)
  pieces : ∀ piece ∈ choice.pieces, ∃ token, tokens[piece.1]? = some token ∧
    piece.1 + 1 < tokens.length ∧ policy.allowsInitial piece.1 tokens.length = true ∧
    1 ≤ piece.2 ∧ piece.2 ≤ min policy.initialLimit token.length
  chain : choice.chain + 1 = tokens.length ∨
    choice.chain < tokens.length ∧ policy.allowsInitial choice.chain tokens.length = true

/-- The choices among some entries, with or without pieces. -/
structure Among (limit : Nat) (entries : List (Digits × Nat)) (choice : Combination) : Prop where
  ascending : choice.indices.Pairwise (· < ·)
  pieces : ∀ piece ∈ choice.pieces, ∃ token, (token, piece.1) ∈ entries ∧
    1 ≤ piece.2 ∧ piece.2 ≤ min limit token.length
  chain : ∃ token, (token, choice.chain) ∈ entries

end Combination

/-- The bare chains of some entries, from the last entry backwards. -/
def bareChains (entries : List (Digits × Nat)) : List Combination :=
  (entries.map fun entry => ⟨[], entry.2⟩).reverse

/-- The choices with pieces among some entries, in the order of the index. -/
def combinations (limit : Nat) : List (Digits × Nat) → List Combination
  | [] => []
  | entry :: later =>
    combinations limit later ++
      (List.range (min limit entry.1.length)).flatMap fun n =>
        (bareChains later ++ combinations limit later).map (Combination.ledBy (entry.2, n + 1))

section

variable {limit : Nat} {tokens : List Digits} {entry : Digits × Nat}
  {entries later : List (Digits × Nat)} {choice : Combination}

theorem Ascending.tail (h : Ascending (entry :: later)) : Ascending later :=
  (List.pairwise_cons.mp h).2

theorem Ascending.lt (h : Ascending (entry :: later)) {other : Digits × Nat}
    (mem : other ∈ later) : entry.2 < other.2 :=
  (List.pairwise_cons.mp h).1 other mem

namespace Combination

theorem ledBy_inj {piece other : Nat × Nat} {a b : Combination}
    (h : a.ledBy piece = b.ledBy other) : piece = other ∧ a = b := by
  obtain ⟨pieces, chain⟩ := a
  obtain ⟨others, start⟩ := b
  cases h
  exact ⟨rfl, rfl⟩

theorem spell_ledBy (piece : Nat × Nat) (choice : Combination) :
    (choice.ledBy piece).spell tokens entries =
      (tokens.getD piece.1 []).take piece.2 ++ choice.spell tokens entries := by
  rw [spell, spell, ledBy, List.flatMap_cons, List.append_assoc]

/-- An entry before the start of the chain is not typed. -/
theorem spell_cons (h : entry.2 < choice.chain) :
    choice.spell tokens (entry :: later) = choice.spell tokens later := by
  rw [spell, spell, List.filter_cons_of_neg (by simpa using h)]

theorem Among.cons (h : choice.Among limit later) : choice.Among limit (entry :: later) where
  ascending := h.ascending
  pieces piece mem := by
    obtain ⟨token, here, fits⟩ := h.pieces piece mem
    exact ⟨token, List.mem_cons_of_mem _ here, fits⟩
  chain := by
    obtain ⟨token, here⟩ := h.chain
    exact ⟨token, List.mem_cons_of_mem _ here⟩

/-- A choice that leaves the first entry out is a choice among the later ones. -/
theorem Among.tail (h : choice.Among limit (entry :: later))
    (apart : ∀ index ∈ choice.indices, entry.2 < index) : choice.Among limit later where
  ascending := h.ascending
  pieces piece mem := by
    obtain ⟨token, here, fits⟩ := h.pieces piece mem
    have behind := apart piece.1 (List.mem_append_left _ (List.mem_map_of_mem mem))
    rcases List.mem_cons.mp here with rfl | here
    · exact absurd behind (Nat.lt_irrefl _)
    · exact ⟨token, here, fits⟩
  chain := by
    obtain ⟨token, here⟩ := h.chain
    have behind := apart choice.chain (List.mem_append_right _ List.mem_cons_self)
    rcases List.mem_cons.mp here with rfl | here
    · exact absurd behind (Nat.lt_irrefl _)
    · exact ⟨token, here⟩

theorem Among.exists_mem (h : choice.Among limit entries) {index : Nat}
    (mem : index ∈ choice.indices) : ∃ token, (token, index) ∈ entries := by
  rcases List.mem_append.mp mem with front | last
  · obtain ⟨piece, among, rfl⟩ := List.mem_map.mp front
    obtain ⟨token, here, -⟩ := h.pieces piece among
    exact ⟨token, here⟩
  · obtain rfl := List.mem_singleton.mp last
    exact h.chain

/-- Tokens chosen among later entries lie behind the entries before them. -/
theorem Among.lt (h : choice.Among limit later)
    (ascending : Ascending (entry :: later)) {index : Nat}
    (mem : index ∈ choice.indices) : entry.2 < index := by
  obtain ⟨token, here⟩ := h.exists_mem mem
  exact ascending.lt here

theorem Among.ledBy (h : choice.Among limit later)
    (ascending : Ascending (entry :: later)) {length : Nat}
    (low : 1 ≤ length) (high : length ≤ min limit entry.1.length) :
    (choice.ledBy (entry.2, length)).Among limit (entry :: later) where
  ascending := List.pairwise_cons.mpr ⟨fun _ mem => h.lt ascending mem, h.ascending⟩
  pieces piece mem := by
    rcases List.mem_cons.mp mem with rfl | mem
    · exact ⟨entry.1, List.mem_cons_self, low, high⟩
    · exact h.cons.pieces piece mem
  chain := h.cons.chain

/-- A choice with pieces leaves the first entry out or opens with a piece of it. -/
theorem among_cons_iff (ascending : Ascending (entry :: later)) :
    choice.pieces ≠ [] ∧ choice.Among limit (entry :: later) ↔
      (choice.pieces ≠ [] ∧ choice.Among limit later) ∨
      ∃ n < min limit entry.1.length, ∃ rest : Combination,
        rest.Among limit later ∧ rest.ledBy (entry.2, n + 1) = choice := by
  constructor
  · rintro ⟨filled, h⟩
    obtain ⟨pieces, chain⟩ := choice
    obtain ⟨⟨index, length⟩, more, rfl⟩ := List.exists_cons_of_ne_nil filled
    obtain ⟨token, here, low, high⟩ := h.pieces _ List.mem_cons_self
    obtain ⟨first, ordered⟩ := List.pairwise_cons.mp h.ascending
    dsimp only at here low high first
    rcases List.mem_cons.mp here with rfl | here
    · have rest : Combination.Among limit ((token, index) :: later) ⟨more, chain⟩ :=
        ⟨ordered, fun piece mem => h.pieces piece (List.mem_cons_of_mem _ mem), h.chain⟩
      refine .inr ⟨length - 1, by dsimp only; omega, ⟨more, chain⟩, rest.tail first, ?_⟩
      rw [Nat.sub_add_cancel low]
      rfl
    · have behind : entry.2 < index := ascending.lt here
      refine .inl ⟨filled, h.tail fun other mem => ?_⟩
      rcases List.mem_cons.mp mem with rfl | mem
      · exact behind
      · exact Nat.lt_trans behind (first other mem)
  · rintro (⟨filled, h⟩ | ⟨n, inside, rest, h, rfl⟩)
    · exact ⟨filled, h.cons⟩
    · exact ⟨List.cons_ne_nil _ _, h.ledBy ascending (by omega) (by omega)⟩

end Combination

theorem pieces_of_mem_bareChains (h : choice ∈ bareChains entries) : choice.pieces = [] := by
  obtain ⟨entry, -, rfl⟩ := List.mem_map.mp (List.mem_reverse.mp h)
  rfl

theorem mem_bareChains_iff :
    choice ∈ bareChains entries ↔ choice.pieces = [] ∧ choice.Among limit entries := by
  obtain ⟨pieces, chain⟩ := choice
  simp only [bareChains, List.mem_reverse, List.mem_map, Combination.mk.injEq]
  constructor
  · rintro ⟨⟨token, index⟩, mem, rfl, rfl⟩
    exact ⟨rfl, List.pairwise_singleton _ _, by simp, token, mem⟩
  · rintro ⟨rfl, h⟩
    obtain ⟨token, mem⟩ := h.chain
    exact ⟨(token, chain), mem, rfl, rfl⟩

theorem mem_combinations_iff (ascending : Ascending entries) :
    choice ∈ combinations limit entries ↔ choice.pieces ≠ [] ∧ choice.Among limit entries := by
  induction entries generalizing choice with
  | nil =>
      simp only [combinations, List.not_mem_nil, false_iff, not_and]
      intro _ h
      obtain ⟨_, here⟩ := h.chain
      cases here
  | cons entry later ih =>
      have rest : ∀ rest : Combination, rest ∈ bareChains later ++ combinations limit later ↔
          rest.Among limit later := by
        intro rest
        rw [List.mem_append, mem_bareChains_iff, ih ascending.tail, ← or_and_right]
        exact and_iff_right (Decidable.em _)
      rw [combinations, List.mem_append, ih ascending.tail, Combination.among_cons_iff ascending]
      simp only [List.mem_flatMap, List.mem_range, List.mem_map, rest]

theorem nodup_bareChains (ascending : Ascending entries) :
    (bareChains entries).Nodup := by
  rw [bareChains, List.nodup_reverse, List.nodup_iff_pairwise_ne, List.pairwise_map]
  refine List.Pairwise.imp ?_ ascending
  intro a b less same
  exact Nat.ne_of_lt less (congrArg Combination.chain same)

/-- Pieces of different lengths in front keep different choices apart. -/
theorem nodup_ledBy {choices : List Combination} (distinct : choices.Nodup) (index bound : Nat) :
    ((List.range bound).flatMap fun n =>
      choices.map (Combination.ledBy (index, n + 1))).Nodup := by
  refine List.nodup_flatMap.mpr ⟨?_, List.nodup_range.imp ?_⟩
  · intro n _
    exact distinct.map fun _ _ same => (Combination.ledBy_inj same).2
  · intro n m differ choice first second
    obtain ⟨a, -, rfl⟩ := List.mem_map.mp first
    obtain ⟨b, -, same⟩ := List.mem_map.mp second
    have lengths := congrArg Prod.snd (Combination.ledBy_inj same).1
    exact differ (Nat.succ.inj lengths.symm)

/-- No choice is listed twice. -/
theorem nodup_combinations (ascending : Ascending entries) :
    (combinations limit entries).Nodup := by
  induction entries with
  | nil => exact List.nodup_nil
  | cons entry later ih =>
      have behind : Ascending later := ascending.tail
      have rest : (bareChains later ++ combinations limit later).Nodup := by
        refine (nodup_bareChains behind).append (ih behind) ?_
        intro choice bare led
        exact ((mem_combinations_iff behind).mp led).1 (pieces_of_mem_bareChains bare)
      rw [combinations]
      refine (ih behind).append (nodup_ledBy rest _ _) ?_
      -- The choices among the later entries never open with a piece of the first one.
      intro choice old new
      obtain ⟨n, -, made⟩ := List.mem_flatMap.mp new
      obtain ⟨rest, -, rfl⟩ := List.mem_map.mp made
      have among := ((mem_combinations_iff behind).mp old).2
      exact Nat.lt_irrefl _ (among.lt ascending (List.mem_cons_self ..))

/-- An entry before the start of every chain is passed over. -/
theorem map_spell_cons {choices : List Combination}
    (behind : ∀ choice ∈ choices, entry.2 < choice.chain) :
    choices.map (Combination.spell tokens (entry :: later)) =
      choices.map (Combination.spell tokens later) :=
  List.map_congr_left fun choice mem => Combination.spell_cons (behind choice mem)

theorem map_spell_bareChains_cons (ascending : Ascending (entry :: later)) :
    (bareChains later).map (Combination.spell tokens (entry :: later)) =
      (bareChains later).map (Combination.spell tokens later) := by
  refine map_spell_cons fun choice mem => ?_
  obtain ⟨other, among, rfl⟩ := List.mem_map.mp (List.mem_reverse.mp mem)
  exact ascending.lt among

theorem map_spell_bareChains (ascending : Ascending entries) :
    (bareChains entries).map (Combination.spell tokens entries) =
      (tailChains (entries.map (·.1))).reverse := by
  induction entries with
  | nil => rfl
  | cons entry later ih =>
      have whole : Combination.spell tokens (entry :: later) ⟨[], entry.2⟩ =
          ((entry :: later).map (·.1)).flatten := by
        have all : ((entry :: later).filter fun other => entry.2 ≤ other.2) = entry :: later := by
          refine List.filter_eq_self.mpr fun other mem => decide_eq_true ?_
          rcases List.mem_cons.mp mem with rfl | mem
          · exact Nat.le_refl _
          · exact Nat.le_of_lt (ascending.lt mem)
        rw [Combination.spell, all, List.flatMap_def]
        rfl
      rw [bareChains, List.map_cons, List.reverse_cons, List.map_append, ← bareChains,
        map_spell_bareChains_cons ascending, ih ascending.tail, List.map_singleton, whole,
        List.map_cons, tailChains, List.reverse_cons]

/-- The choices among some entries, in their order, are typed with the chains that begin with an
initial. -/
theorem map_spell_combinations (ascending : Ascending entries)
    (named : ∀ entry ∈ entries, tokens[entry.2]? = some entry.1) :
    (combinations limit entries).map (Combination.spell tokens entries) =
      abbreviations limit (entries.map (·.1)) := by
  induction entries with
  | nil => rfl
  | cons entry later ih =>
      have behind : Ascending later := ascending.tail
      have led : (combinations limit later).map (Combination.spell tokens (entry :: later)) =
          abbreviations limit (later.map (·.1)) := by
        rw [map_spell_cons, ih behind fun other mem => named other (List.mem_cons_of_mem _ mem)]
        intro choice mem
        have h := ((mem_combinations_iff behind).mp mem).2
        exact h.lt ascending (List.mem_append_right _ List.mem_cons_self)
      have opened : ∀ n, ((bareChains later ++ combinations limit later).map
          (Combination.ledBy (entry.2, n + 1))).map (Combination.spell tokens (entry :: later)) =
          ((tailChains (later.map (·.1))).reverse ++ abbreviations limit (later.map (·.1))).map
            (entry.1.take (n + 1) ++ ·) := by
        intro n
        have piece : tokens.getD entry.2 [] = entry.1 := by
          rw [List.getD_eq_getElem?_getD, named entry List.mem_cons_self, Option.getD_some]
        rw [← led, ← map_spell_bareChains behind, ← map_spell_bareChains_cons ascending,
          ← List.map_append, List.map_map, List.map_map]
        refine List.map_congr_left fun choice _ => ?_
        rw [Function.comp_apply, Combination.spell_ledBy, piece]
        rfl
      rw [combinations, List.map_append, led, List.map_flatMap, List.map_cons, abbreviations,
        beginnings, List.flatMap_map]
      simp only [opened]

end

section

variable (policy : Policy) (tokens : List Digits)

theorem windowChain_eq : windowChain policy tokens = (windowEntries policy tokens).map (·.1) := rfl

theorem mem_windowEntries_iff {token : Digits} {index : Nat} :
    (token, index) ∈ windowEntries policy tokens ↔ tokens[index]? = some token ∧
      (index + 1 = tokens.length ∨ policy.allowsInitial index tokens.length = true) := by
  rw [windowEntries, List.mem_filter, List.mem_zipIdx_iff_getElem?]
  simp

theorem windowEntries_ascending : Ascending (windowEntries policy tokens) := by
  refine List.Pairwise.filter _ (List.pairwise_map.mp ?_)
  rw [List.zipIdx_map_snd]
  exact List.pairwise_lt_range' ..

/-- A choice among the window tokens and the last one is an allowed one: a piece never comes from
the last token, as a chain stands behind it. -/
theorem allowed_iff {choice : Combination} :
    choice.Allowed policy tokens ↔
      choice.pieces ≠ [] ∧ choice.Among policy.initialLimit (windowEntries policy tokens) := by
  constructor
  · intro h
    refine ⟨h.abbreviates, h.ascending, ?_, ?_⟩
    · intro piece mem
      obtain ⟨token, here, -, window, low, high⟩ := h.pieces piece mem
      exact ⟨token, (mem_windowEntries_iff policy tokens).mpr ⟨here, .inr window⟩, low, high⟩
    · have inside : choice.chain < tokens.length := by
        rcases h.chain with last | ⟨inside, -⟩ <;> omega
      exact ⟨tokens[choice.chain], (mem_windowEntries_iff policy tokens).mpr
        ⟨List.getElem?_eq_getElem inside, h.chain.imp_right And.right⟩⟩
  · rintro ⟨filled, h⟩
    obtain ⟨last, chained⟩ := h.chain
    obtain ⟨there, chained⟩ := (mem_windowEntries_iff policy tokens).mp chained
    obtain ⟨inside, -⟩ := List.getElem?_eq_some_iff.mp there
    refine ⟨filled, h.ascending, ?_, chained.imp_right fun window => ⟨inside, window⟩⟩
    intro piece mem
    obtain ⟨token, among, low, high⟩ := h.pieces piece mem
    obtain ⟨here, window⟩ := (mem_windowEntries_iff policy tokens).mp among
    have before : piece.1 < choice.chain := (List.pairwise_append.mp h.ascending).2.2 piece.1
      (List.mem_map_of_mem mem) choice.chain List.mem_cons_self
    exact ⟨token, here, by omega, window.resolve_left (by omega), low, high⟩

end

/-- The index of a name lists, for each token from the last one backwards, the tokens from there to
the end, and after them, when initials are allowed, what each allowed choice types, once for every
choice. -/
theorem index_enumerates (layout : Layout) (policy : Policy) (name : Text) :
    let parts := tokens layout name
    (index layout policy name).take parts.length =
        ((List.range parts.length).map fun k =>
          (parts.drop (parts.length - (k + 1))).flatten) ∧
      ∃ choices : List Combination, choices.Nodup ∧
        (∀ choice, choice ∈ choices ↔ choice.Allowed policy parts) ∧
        (index layout policy name).drop parts.length =
          if policy.allowInitials then choices.map (Combination.keys policy parts) else [] := by
  intro parts
  have ascending := windowEntries_ascending policy parts
  have size : (tailChains parts).reverse.length = parts.length := by
    rw [reverse_tailChains, List.length_map, List.length_range]
  have named : ∀ entry ∈ windowEntries policy parts, parts[entry.2]? = some entry.1 :=
    fun _ mem => ((mem_windowEntries_iff policy parts).mp mem).1
  refine ⟨?_, combinations policy.initialLimit (windowEntries policy parts),
    nodup_combinations ascending, ?_, ?_⟩
  · rw [index_eq, List.take_left' size, reverse_tailChains]
  · intro choice
    rw [mem_combinations_iff ascending, allowed_iff]
  · rw [index_eq, List.drop_left' size, windowChain_eq, ← map_spell_combinations ascending named]
    rfl

end Keypad.Name
