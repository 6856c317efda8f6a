import Keypad.Matcher
import Keypad.Proofs.Name.Search
import Keypad.Proofs.Name.Words
import Keypad.Proofs.Span

/-!
What a query lights up in a name. The spans of a match are not empty, lie in the name, keep their
order with a separator between neighbours, begin where a word begins and end on a dialable
character, and the keys of the characters they cover are the query, no more and no less.
-/
namespace Keypad

namespace Name

/-- The keys of the characters between two places of a name. -/
def typedIn (layout : Layout) (name : Text) (start stop : Nat) : Digits :=
  (Span.slice ⟨start, stop⟩ name).filterMap layout.numeral?

section

variable {layout : Layout} {name : Text}

theorem typedIn_append {start middle stop : Nat} (before : start ≤ middle)
    (after : middle ≤ stop) :
    typedIn layout name start middle ++ typedIn layout name middle stop =
      typedIn layout name start stop := by
  unfold typedIn
  rw [← List.filterMap_append, Span.slice_append name before after]

theorem typedIn_self (start : Nat) : typedIn layout name start start = [] := by
  unfold typedIn
  rw [Span.slice_eq, List.drop_eq_nil_iff.mpr (List.length_take_le _ _), List.filterMap_nil]

theorem typedIn_succ (place : Nat) :
    typedIn layout name place (place + 1) = (numeralAt? layout name place).toList := by
  have one : (name.take (place + 1)).drop place = name[place]?.toList := by
    rw [List.drop_take, Nat.add_sub_cancel_left, List.take_one, List.head?_drop]
  rw [typedIn, Span.slice_eq, one, numeralAt?]
  cases name[place]? with
  | none => rfl
  | some c =>
      change [c].filterMap layout.numeral? = (layout.numeral? c).toList
      rw [List.filterMap_cons]
      cases layout.numeral? c <;> rfl

/-- Characters that are typed with given keys one after the other are typed with them together. -/
theorem typedIn_of_numeralAt? {start length : Nat} {keys : Digits}
    (typed : ∀ i < keys.length, numeralAt? layout name (start + i) = keys[i]?)
    (inside : length ≤ keys.length) :
    typedIn layout name start (start + length) = keys.take length := by
  induction length with
  | zero => exact typedIn_self start
  | succ length ih =>
      rw [← Nat.add_assoc, ← typedIn_append (Nat.le_add_right start length) (Nat.le_succ _),
        ih (by omega), typedIn_succ, typed length inside, List.take_add_one]

theorem typedIn_silent {start stop : Nat} (order : start ≤ stop)
    (silent : ∀ i, start ≤ i → i < stop → numeralAt? layout name i = none) :
    typedIn layout name start stop = [] := by
  obtain ⟨length, rfl⟩ := Nat.exists_eq_add_of_le order
  induction length with
  | zero => exact typedIn_self start
  | succ length ih =>
      have before := ih (Nat.le_add_right _ _) fun i low high => silent i low (by omega)
      rw [← Nat.add_assoc, ← typedIn_append (Nat.le_add_right start length) (Nat.le_succ _),
        before, typedIn_succ, silent _ (Nat.le_add_right _ _) (by omega)]
      rfl

end

/-- Some words of a name in their order: where they stand, and that nothing is typed between
neighbours. -/
structure Spaced (layout : Layout) (name : Text) (words : List Word) : Prop where
  typed : ∀ word ∈ words, ∀ i < word.keys.length,
    numeralAt? layout name (word.start + i) = word.keys[i]?
  nonempty : ∀ word ∈ words, 0 < word.keys.length
  opens : ∀ word ∈ words,
    word.start = 0 ∨ 0 < word.start ∧ numeralAt? layout name (word.start - 1) = none
  apart : words.Pairwise fun a b => a.stop < b.start ∧
    (b.index = a.index + 1 → ∀ i, a.stop ≤ i → i < b.start → numeralAt? layout name i = none)

/-- What spans light up in a name: they start with given words, end on a key, have a separator
between them, and are typed with the query. -/
structure Lights (layout : Layout) (name : Text) (words : List Word) (query : Digits)
    (spans : List Span) : Prop where
  starts : ∀ span ∈ spans, ∃ word ∈ words, span.start = word.start
  ends : ∀ span ∈ spans, span.start < span.stop ∧
    (numeralAt? layout name (span.stop - 1)).isSome = true
  apart : spans.Pairwise fun a b =>
    ∃ gap, a.stop ≤ gap ∧ gap < b.start ∧ numeralAt? layout name gap = none
  typed : (spans.flatMap fun span => typedIn layout name span.start span.stop) = query

section

variable {layout : Layout} {name : Text} {words part later : List Word} {word next : Word}
  {query : Digits} {span : Span} {spans : List Span}

theorem Spaced.sublist (h : Spaced layout name words) (sub : part.Sublist words) :
    Spaced layout name part where
  typed word mem := h.typed word (sub.subset mem)
  nonempty word mem := h.nonempty word (sub.subset mem)
  opens word mem := h.opens word (sub.subset mem)
  apart := h.apart.sublist sub

theorem Spaced.tail (h : Spaced layout name (word :: later)) : Spaced layout name later :=
  h.sublist (List.sublist_cons_self word later)

theorem Spaced.stop_lt (h : Spaced layout name (word :: later)) (mem : next ∈ later) :
    word.stop < next.start :=
  ((List.pairwise_cons.mp h.apart).1 next mem).1

theorem Spaced.silent_before (h : Spaced layout name (word :: later)) (mem : next ∈ later) :
    numeralAt? layout name (next.start - 1) = none := by
  have low := h.stop_lt mem
  rcases h.opens next (List.mem_cons_of_mem _ mem) with first | ⟨_, silent⟩
  · omega
  · exact silent

/-- The words of a name are its maximal runs, so between two of neighbouring rank nothing is
typed. -/
theorem spaced_words (layout : Layout) (name : Text) :
    Spaced layout name (Name.words layout name) := by
  have cut := Run.cut_ofText layout name name 0 rfl
  have ranked : ∀ word ∈ Name.words layout name, word.toRun ∈ Run.ofText layout 0 name := by
    intro word mem
    obtain ⟨index, low, rfl⟩ := List.mem_mapIdx.mp mem
    exact List.getElem_mem low
  refine ⟨fun word mem => cut.typed _ (ranked word mem),
    fun word mem => cut.nonempty _ (ranked word mem),
    fun word mem => cut.opens _ (ranked word mem), ?_⟩
  unfold Name.words
  rw [List.pairwise_iff_getElem]
  intro i j low high order
  rw [List.length_mapIdx] at low high
  rw [List.getElem_mapIdx, List.getElem_mapIdx]
  refine ⟨cut.stop_lt_start order high, ?_⟩
  rintro rfl index past before
  exact cut.silent_between high past before

theorem Lights.nil : Lights layout name words [] [] :=
  ⟨by simp, by simp, List.Pairwise.nil, rfl⟩

theorem Lights.mono (h : Lights layout name part query spans) (sub : part ⊆ words) :
    Lights layout name words query spans where
  starts span mem := by
    obtain ⟨word, among, start⟩ := h.starts span mem
    exact ⟨word, sub among, start⟩
  ends := h.ends
  apart := h.apart
  typed := h.typed

/-- The beginning of a word lights up in front of what lights up in later words. -/
theorem Lights.cons {length : Nat} (spaced : Spaced layout name (word :: later))
    (h : Lights layout name later query spans) (low : 0 < length)
    (inside : length ≤ word.keys.length) :
    Lights layout name (word :: later) (word.keys.take length ++ query)
      (word.initial length :: spans) where
  starts span mem := by
    rcases List.mem_cons.mp mem with rfl | rest
    · exact ⟨word, List.mem_cons_self, rfl⟩
    · obtain ⟨other, among, start⟩ := h.starts span rest
      exact ⟨other, List.mem_cons_of_mem _ among, start⟩
  ends span mem := by
    rcases List.mem_cons.mp mem with rfl | rest
    · have last := spaced.typed word List.mem_cons_self (length - 1) (by omega)
      rw [List.getElem?_eq_getElem (by omega), ← Nat.add_sub_assoc low] at last
      exact ⟨Nat.lt_add_of_pos_right low, Option.isSome_iff_exists.mpr ⟨_, last⟩⟩
    · exact h.ends span rest
  apart := by
    refine List.pairwise_cons.mpr ⟨?_, h.apart⟩
    intro other mem
    obtain ⟨next, among, start⟩ := h.starts other mem
    have order : word.start + word.keys.length < next.start := spaced.stop_lt among
    refine ⟨next.start - 1, ?_, by omega, spaced.silent_before among⟩
    change word.start + length ≤ _
    omega
  typed := by
    rw [List.flatMap_cons, h.typed]
    congr 1
    exact typedIn_of_numeralAt? (spaced.typed word List.mem_cons_self) inside

/-- A whole word joins the first span when that one starts with the next word. -/
theorem Lights.merge (spaced : Spaced layout name (word :: next :: later))
    (h : Lights layout name (next :: later) query (span :: spans)) (start : span.start = next.start)
    (rank : next.index = word.index + 1) :
    Lights layout name (word :: next :: later) (word.keys ++ query)
      (⟨word.start, span.stop⟩ :: spans) where
  starts other mem := by
    rcases List.mem_cons.mp mem with rfl | rest
    · exact ⟨word, List.mem_cons_self, rfl⟩
    · obtain ⟨found, among, start⟩ := h.starts other (List.mem_cons_of_mem _ rest)
      exact ⟨found, List.mem_cons_of_mem _ among, start⟩
  ends other mem := by
    rcases List.mem_cons.mp mem with rfl | rest
    · obtain ⟨order, key⟩ := h.ends span List.mem_cons_self
      have before := spaced.stop_lt List.mem_cons_self
      refine ⟨?_, key⟩
      simp only [Word.stop] at before ⊢
      omega
    · exact h.ends other (List.mem_cons_of_mem _ rest)
  apart := by
    obtain ⟨first, rest⟩ := List.pairwise_cons.mp h.apart
    exact List.pairwise_cons.mpr ⟨first, rest⟩
  typed := by
    obtain ⟨apart, silent⟩ := (List.pairwise_cons.mp spaced.apart).1 next List.mem_cons_self
    have order := (h.ends span List.mem_cons_self).1
    have front : typedIn layout name word.start word.stop = word.keys.take word.keys.length :=
      typedIn_of_numeralAt? (spaced.typed word List.mem_cons_self) (Nat.le_refl _)
    have low : word.start ≤ word.stop := Nat.le_add_right _ _
    have gap : typedIn layout name word.stop next.start = [] :=
      typedIn_silent (Nat.le_of_lt apart) (silent rank)
    rw [List.take_length] at front
    have spelled := h.typed
    rw [List.flatMap_cons, start] at spelled
    rw [start] at order
    have whole : typedIn layout name word.start span.stop =
        word.keys ++ typedIn layout name next.start span.stop := by
      rw [← typedIn_append low (Nat.le_of_lt (Nat.lt_trans apart order)), front,
        ← typedIn_append (Nat.le_of_lt apart) (Nat.le_of_lt order), gap, List.nil_append]
    rw [List.flatMap_cons, whole, List.append_assoc, spelled]

theorem Lights.of_inside (spaced : Spaced layout name (word :: later)) (typed : query ≠ [])
    (inside : query <+: word.keys) :
    Lights layout name (word :: later) query [word.initial query.length] := by
  have lit := Lights.nil.cons spaced (List.length_pos_iff.mpr typed) inside.length_le
  rwa [List.append_nil, ← List.prefix_iff_eq_take.mp inside] at lit

/-- A reading lights up where its first word starts and goes on through the words after it. -/
theorem lights_of_read (spaced : Spaced layout name (word :: later)) (typed : query ≠ [])
    (h : read (word :: later) query = some spans) :
    ∃ span more, spans = span :: more ∧ span.start = word.start ∧
      Lights layout name (word :: later) query (span :: more) := by
  induction later generalizing word query spans with
  | nil =>
      rcases read_cases word query with inside | ⟨rest, left, rfl⟩ | ⟨inside, past⟩
      · rw [read_of_inside inside] at h
        obtain rfl := Option.some.inj h
        exact ⟨_, [], rfl, rfl, .of_inside spaced typed inside⟩
      · rw [read_of_past left] at h
        cases h
      · rw [read_of_outside inside past] at h
        cases h
  | cons next later ih =>
      rcases read_cases word query with inside | ⟨rest, left, rfl⟩ | ⟨inside, past⟩
      · rw [read_of_inside inside] at h
        obtain rfl := Option.some.inj h
        exact ⟨_, [], rfl, rfl, .of_inside spaced typed inside⟩
      · rw [read_of_past left, Option.map_eq_some_iff] at h
        obtain ⟨inner, reads, rfl⟩ := h
        obtain ⟨span, more, rfl, start, lit⟩ := ih spaced.tail left reads
        rw [attach]
        -- Words of neighbouring rank share a span, others keep their own.
        split
        · rename_i rank
          exact ⟨_, more, rfl, rfl, lit.merge spaced start rank⟩
        · have whole := lit.cons spaced (spaced.nonempty word List.mem_cons_self) (Nat.le_refl _)
          rw [List.take_length] at whole
          exact ⟨_, span :: more, rfl, rfl, whole⟩
      · rw [read_of_outside inside past] at h
        cases h

theorem lights_of_mem_readings (spaced : Spaced layout name words) (typed : query ≠ [])
    (h : spans ∈ readings words query) : Lights layout name words query spans := by
  induction words with
  | nil => cases h
  | cons word later ih =>
      rcases List.mem_append.mp h with here | after
      · obtain ⟨span, more, rfl, _, lit⟩ :=
          lights_of_read spaced typed (Option.mem_toList.mp here)
        exact lit
      · exact (ih spaced.tail after).mono (List.subset_cons_self word later)

section

variable {policy : Policy} {count : Nat}

theorem lights_of_mem_continuations (spaced : Spaced layout name words)
    (further : spans ∈ candidates policy count words query → Lights layout name words query spans)
    (h : spans ∈ continuations policy count words query) :
    Lights layout name words query spans := by
  unfold continuations at h
  split at h
  · rename_i done
    obtain rfl := List.isEmpty_iff.mp done
    obtain rfl := List.mem_singleton.mp h
    exact Lights.nil
  · rename_i left
    rcases List.mem_append.mp h with plain | short
    · have chain : (words.filter (inChain policy count)).Sublist words := List.filter_sublist
      exact (lights_of_mem_readings (spaced.sublist chain) (by simpa using left) plain).mono
        chain.subset
    · exact further short

/-- Initials light up the beginnings of their words in front of what is read after them. -/
theorem lights_of_mem_candidates (spaced : Spaced layout name words)
    (h : spans ∈ candidates policy count words query) : Lights layout name words query spans := by
  induction words generalizing query spans with
  | nil => cases h
  | cons word later ih =>
      cases later with
      | nil => cases h
      | cons next later =>
          rw [candidates_cons] at h
          rcases List.mem_append.mp h with opened | after
          · obtain ⟨length, listed, made⟩ := List.mem_flatMap.mp opened
            obtain ⟨rest, continued, rfl⟩ := List.mem_map.mp made
            unfold openings at listed
            split at listed
            · obtain ⟨low, _, agreed⟩ := mem_initialLengths_iff.mp listed
              obtain ⟨inside, _, same⟩ := (le_agreement_iff _ _ _).mp agreed
              have lit := lights_of_mem_continuations spaced.tail (ih spaced.tail) continued
              have whole := lit.cons spaced low inside
              rwa [same, List.take_append_drop] at whole
            · cases listed
          · exact (ih spaced.tail after).mono (List.subset_cons_self word _)

end

end

theorem lights_of_search {layout : Layout} {policy : Policy} {name : Text} {query : Digits}
    {spans : List Span} (h : search layout policy name query = some spans) :
    query ≠ [] ∧ Lights layout name (words layout name) query spans := by
  unfold search at h
  split at h
  · cases h
  · rename_i fits
    have typed : query ≠ [] := fun empty => fits (.inl (List.isEmpty_iff.mpr empty))
    have spaced := spaced_words layout name
    refine ⟨typed, ?_⟩
    rw [searchWords_eq_head? policy query (numbered_words layout name)] at h
    rcases List.mem_append.mp (List.mem_of_head? h) with plain | short
    · exact lights_of_mem_readings spaced typed plain
    · split at short
      · exact lights_of_mem_candidates spaced short
      · cases short

/-- The spans of a name that spell a query: each starts where a word begins and ends on a dialable
character, a separator lies between neighbours, and the keys of the characters under them, read from
left to right, are the query. -/
structure Highlights (layout : Layout) (name : Text) (query : Digits) (spans : List Span) :
    Prop where
  nonempty : spans ≠ []
  within : ∀ span ∈ spans, span.start < span.stop ∧ span.stop ≤ name.length
  apart : spans.Pairwise fun a b => ∃ gap c,
    a.stop ≤ gap ∧ gap < b.start ∧ name[gap]? = some c ∧ layout.isDialable c = false
  opens : ∀ span ∈ spans, (∃ c, name[span.start]? = some c ∧ layout.isDialable c = true) ∧
    (span.start = 0 ∨
      ∃ c, name[span.start - 1]? = some c ∧ layout.isDialable c = false)
  closes : ∀ span ∈ spans, ∃ c, name[span.stop - 1]? = some c ∧ layout.isDialable c = true
  spells : ((spans.flatMap fun span => span.slice name).filter layout.isDialable).map
    layout.digitChar = query

section

variable {layout : Layout} {name : Text} {index : Nat}

theorem isSome_numeralAt?_iff :
    (numeralAt? layout name index).isSome = true ↔
      ∃ c, name[index]? = some c ∧ layout.isDialable c = true := by
  rw [numeralAt?, Option.isSome_bind]
  cases name[index]? <;> simp [Layout.isSome_numeral?]

theorem exists_silent (inside : index < name.length)
    (silent : numeralAt? layout name index = none) :
    ∃ c, name[index]? = some c ∧ layout.isDialable c = false := by
  refine ⟨name[index], List.getElem?_eq_getElem inside, ?_⟩
  rw [numeralAt?, List.getElem?_eq_getElem inside, Option.bind_some] at silent
  rw [← Layout.isSome_numeral?, silent, Option.isSome_none]

theorem filterMap_numeral? (text : Text) :
    text.filterMap layout.numeral? = (text.filter layout.isDialable).map layout.digitChar := by
  induction text with
  | nil => rfl
  | cons c rest ih =>
      cases dialable : layout.isDialable c with
      | true =>
          rw [List.filterMap_cons_some (Layout.numeral?_of_isDialable dialable),
            List.filter_cons_of_pos dialable, List.map_cons, ih]
      | false =>
          have silent : layout.numeral? c = none := by
            rw [← Option.not_isSome_iff_eq_none, Layout.isSome_numeral?, dialable]
            exact Bool.false_ne_true
          rw [List.filterMap_cons_none silent, List.filter_cons_of_neg (by simp [dialable]), ih]

end

theorem Lights.highlights {layout : Layout} {name : Text} {query : Digits} {spans : List Span}
    (h : Lights layout name (words layout name) query spans) (typed : query ≠ []) :
    Highlights layout name query spans := by
  have spaced := spaced_words layout name
  have closes : ∀ span ∈ spans, ∃ c, name[span.stop - 1]? = some c ∧ layout.isDialable c = true :=
    fun span mem => isSome_numeralAt?_iff.mp (h.ends span mem).2
  have within : ∀ span ∈ spans, span.start < span.stop ∧ span.stop ≤ name.length := by
    intro span mem
    obtain ⟨c, last, _⟩ := closes span mem
    obtain ⟨inside, _⟩ := List.getElem?_eq_some_iff.mp last
    have order := (h.ends span mem).1
    omega
  constructor
  case nonempty =>
    rintro rfl
    exact typed h.typed.symm
  case within => exact within
  case apart =>
    refine h.apart.imp_of_mem ?_
    rintro a b _ mem ⟨gap, low, high, silent⟩
    obtain ⟨order, inside⟩ := within b mem
    obtain ⟨c, here, separator⟩ := exists_silent (by omega) silent
    exact ⟨gap, c, low, high, here, separator⟩
  case opens =>
    intro span mem
    obtain ⟨order, inside⟩ := within span mem
    obtain ⟨word, among, start⟩ := h.starts span mem
    -- The first key of the word is what stands where the span starts.
    have key := spaced.typed word among 0 (spaced.nonempty word among)
    rw [Nat.add_zero, ← start, List.getElem?_eq_getElem (spaced.nonempty word among)] at key
    refine ⟨isSome_numeralAt?_iff.mp (by rw [key, Option.isSome_some]), ?_⟩
    rcases spaced.opens word among with first | ⟨_, silent⟩
    · exact .inl (start.trans first)
    · exact .inr (exists_silent (by omega) (by rw [start, silent]))
  case closes => exact closes
  case spells =>
    rw [← filterMap_numeral?, List.filterMap_flatMap]
    exact h.typed

end Name

namespace Matcher

/-- Whatever a matcher highlights in a name spells the query. -/
theorem highlights_nameSpans {matcher : Matcher} {name query : Text} {spans : List Span}
    (h : matcher.nameSpans name query = some spans) :
    Name.Highlights matcher.layout name (Text.digits query) spans := by
  obtain ⟨typed, lit⟩ := Name.lights_of_search h
  exact lit.highlights typed

/-- In `Ann-Mary Lee` the keys `2627953` stand for an initial, a word and the beginning of the next
word; the last two share a span. -/
theorem highlights_ann_mary_lee :
    let matcher : Matcher := ⟨.latin, .standard, .unknown, [], [], [], [], []⟩
    let name := "Ann-Mary Lee".toList
    matcher.nameSpans name "2627953".toList = some [⟨0, 1⟩, ⟨4, 11⟩] ∧
      Name.Highlights .latin name "2627953".toList [⟨0, 1⟩, ⟨4, 11⟩] := by
  intro matcher name
  have found : matcher.nameSpans name "2627953".toList = some [⟨0, 1⟩, ⟨4, 11⟩] := by
    decide +kernel
  exact ⟨found, highlights_nameSpans found⟩

end Matcher
end Keypad
