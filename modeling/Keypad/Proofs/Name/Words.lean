import Keypad.Name.Index
import Keypad.Name.Words
import Keypad.Proofs.Layout

/-!
The words of a name. Every word opens right after a character without a key or at the very start,
is typed with its keys one by one, and ends before the next word starts; the words hold all the
characters that have a key. Cutting the keys of a name into tokens yields the keys of its words.
-/
namespace Keypad

/-- The numeral a character is typed with. -/
def Layout.numeral? (layout : Layout) (c : Char) : Option Char := (layout.key? c).map Key.char

theorem Layout.isSome_numeral? (layout : Layout) (c : Char) :
    (layout.numeral? c).isSome = layout.isDialable c := by
  rw [numeral?, Option.isSome_map, isSome_key?]

theorem Layout.numeral?_of_isDialable {layout : Layout} {c : Char}
    (h : layout.isDialable c = true) : layout.numeral? c = some (layout.digitChar c) := by
  rw [← isSome_key?, Option.isSome_iff_exists] at h
  obtain ⟨key, found⟩ := h
  rw [numeral?, found, digitChar_of_key? found, Option.map_some]

namespace Name

/-- The numeral typed at an index of a name; there is none at a separator or past the end. -/
def numeralAt? (layout : Layout) (name : Text) (index : Nat) : Option Char :=
  name[index]?.bind layout.numeral?

theorem cut_cons_some (key : Key) (keys : List (Option Key)) :
    cut (some key :: keys) = (key.char :: (cut keys).1, (cut keys).2) := rfl

theorem cut_cons_none (keys : List (Option Key)) :
    cut (none :: keys) = ([], close (cut keys).1 (cut keys).2) := rfl

theorem flatten_close (front : Digits) (later : List Digits) :
    (close front later).flatten = front ++ later.flatten := by
  unfold close
  split
  · rename_i empty
    rw [List.isEmpty_iff.mp empty, List.nil_append]
  · rw [List.flatten_cons]

/-- Cutting a sequence of keys loses none of them. -/
theorem flatten_cut (keys : List (Option Key)) :
    (cut keys).1 ++ (cut keys).2.flatten = keys.filterMap fun key => key.map Key.char := by
  induction keys with
  | nil => rfl
  | cons key rest ih =>
      cases key with
      | some key =>
          rw [List.filterMap_cons]
          exact congrArg (key.char :: ·) ih
      | none =>
          rw [List.filterMap_cons, cut_cons_none, flatten_close]
          exact ih

/-- The tokens of a name together are what the whole name is typed with. -/
theorem flatten_tokens (layout : Layout) (name : Text) :
    (tokens layout name).flatten = name.filterMap layout.numeral? := by
  simp only [tokens, flatten_close, flatten_cut, List.filterMap_map, Layout.key?_normalize]
  rfl

/-- Runs that cut a name from `place` on: each is typed with its keys and opens at `place` or after
a separator, each ends before the next one starts, and together they hold every numeral. -/
structure Run.Cut (layout : Layout) (name : Text) (place : Nat) (runs : List Run) : Prop where
  typed : ∀ run ∈ runs, ∀ i < run.keys.length,
    numeralAt? layout name (run.start + i) = run.keys[i]?
  nonempty : ∀ run ∈ runs, 0 < run.keys.length
  opens : ∀ run ∈ runs,
    run.start = place ∨ place < run.start ∧ numeralAt? layout name (run.start - 1) = none
  apart : runs.Pairwise fun a b => a.start + a.keys.length < b.start
  holds : ∀ index, place ≤ index → (numeralAt? layout name index).isSome = true →
    ∃ run ∈ runs, run.start ≤ index ∧ index < run.start + run.keys.length

namespace Run

variable {layout : Layout} {name : Text} {place : Nat} {runs : List Run}

theorem Cut.le_start (h : Cut layout name place runs) {run : Run} (mem : run ∈ runs) :
    place ≤ run.start := by
  rcases h.opens run mem with same | ⟨after, _⟩
  · exact Nat.le_of_eq same.symm
  · exact Nat.le_of_lt after

theorem Cut.skip (h : Cut layout name (place + 1) runs)
    (silent : numeralAt? layout name place = none) : Cut layout name place runs where
  typed := h.typed
  nonempty := h.nonempty
  opens run mem := by
    rcases h.opens run mem with same | ⟨after, before⟩
    · exact .inr ⟨by omega, by rw [same]; exact silent⟩
    · exact .inr ⟨by omega, before⟩
  apart := h.apart
  holds index low heard := by
    rcases Nat.eq_or_lt_of_le low with rfl | later
    · rw [silent] at heard
      cases heard
    · exact h.holds index later heard

/-- A run at `place` of the runs after it, when the next one does not follow at once. -/
theorem Cut.cons (front : Run) (h : Cut layout name (front.start + front.keys.length) runs)
    (typed : ∀ i < front.keys.length, numeralAt? layout name (front.start + i) = front.keys[i]?)
    (nonempty : 0 < front.keys.length)
    (gap : ∀ run ∈ runs, run.start ≠ front.start + front.keys.length) :
    Cut layout name front.start (front :: runs) where
  typed run mem := by
    rcases List.mem_cons.mp mem with rfl | later
    · exact typed
    · exact h.typed run later
  nonempty run mem := by
    rcases List.mem_cons.mp mem with rfl | later
    · exact nonempty
    · exact h.nonempty run later
  opens run mem := by
    rcases List.mem_cons.mp mem with rfl | later
    · exact .inl rfl
    · rcases h.opens run later with same | ⟨after, before⟩
      · exact absurd same (gap run later)
      · exact .inr ⟨by omega, before⟩
  apart := List.pairwise_cons.mpr
    ⟨fun run mem => Nat.lt_of_le_of_ne (h.le_start mem) (gap run mem).symm, h.apart⟩
  holds index low heard := by
    by_cases inside : index < front.start + front.keys.length
    · exact ⟨front, List.mem_cons_self, low, inside⟩
    · obtain ⟨run, mem, bounds⟩ := h.holds index (Nat.not_lt.mp inside) heard
      exact ⟨run, List.mem_cons_of_mem _ mem, bounds⟩

theorem Cut.nil (h : name.length ≤ place) : Cut layout name place [] where
  typed run mem := by cases mem
  nonempty run mem := by cases mem
  opens run mem := by cases mem
  apart := List.Pairwise.nil
  holds index low heard := by
    have past : name[index]? = none := List.getElem?_eq_none (Nat.le_trans h low)
    rw [numeralAt?, past] at heard
    cases heard

theorem Cut.tail {run : Run} (h : Cut layout name place (run :: runs)) :
    Cut layout name (run.start + run.keys.length) runs where
  typed later mem := h.typed later (List.mem_cons_of_mem _ mem)
  nonempty later mem := h.nonempty later (List.mem_cons_of_mem _ mem)
  opens later mem := by
    have first := h.le_start List.mem_cons_self
    have apart := (List.pairwise_cons.mp h.apart).1 later mem
    rcases h.opens later (List.mem_cons_of_mem _ mem) with same | ⟨_, before⟩
    · omega
    · exact .inr ⟨apart, before⟩
  apart := (List.pairwise_cons.mp h.apart).2
  holds index low heard := by
    have first := h.le_start List.mem_cons_self
    obtain ⟨other, mem, start, stop⟩ := h.holds index (by omega) heard
    rcases List.mem_cons.mp mem with rfl | later
    · omega
    · exact ⟨other, later, start, stop⟩

theorem Cut.stop_lt_start (h : Cut layout name place runs) {i j : Nat} (order : i < j)
    (inside : j < runs.length) :
    runs[i].start + runs[i].keys.length < runs[j].start :=
  List.pairwise_iff_getElem.mp h.apart i j (Nat.lt_trans order inside) inside order

/-- Nothing is typed between a run and the next one. -/
theorem Cut.silent_between (h : Cut layout name place runs) {i : Nat}
    (inside : i + 1 < runs.length) {index : Nat}
    (low : runs[i].start + runs[i].keys.length ≤ index) (high : index < runs[i + 1].start) :
    numeralAt? layout name index = none := by
  rw [← Option.not_isSome_iff_eq_none]
  intro typed
  have first := h.le_start (List.getElem_mem (Nat.lt_of_succ_lt inside))
  obtain ⟨run, mem, start, stop⟩ := h.holds index (by omega) typed
  obtain ⟨rank, ranked, rfl⟩ := List.getElem_of_mem mem
  rcases Nat.lt_trichotomy rank i with before | rfl | after
  · have := h.stop_lt_start before (Nat.lt_of_succ_lt inside)
    omega
  · omega
  · rcases Nat.eq_or_lt_of_le (show i + 1 ≤ rank from after) with rfl | later
    · omega
    · have := h.stop_lt_start (i := i + 1) later ranked
      omega

theorem extend_of_apart {key : Char} (h : ∀ run ∈ runs.head?, run.start ≠ place + 1) :
    extend place key runs = ⟨place, [key]⟩ :: runs := by
  cases runs with
  | nil => rfl
  | cons run later => rw [extend, if_neg (h run rfl)]

theorem Cut.extend (h : Cut layout name (place + 1) runs) {key : Char}
    (here : numeralAt? layout name place = some key) :
    Cut layout name place (extend place key runs) := by
  have alone : ∀ i < [key].length, numeralAt? layout name (place + i) = [key][i]? := by
    intro i low
    obtain rfl : i = 0 := by simpa using low
    exact here
  cases runs with
  | nil => exact Cut.cons ⟨place, [key]⟩ h alone Nat.one_pos (by simp)
  | cons run later =>
      have apart := (List.pairwise_cons.mp h.apart).1
      by_cases next : run.start = place + 1
      · -- The next run starts right here, so the key joins it.
        rw [Run.extend, if_pos next]
        have stop : place + (key :: run.keys).length = run.start + run.keys.length := by
          rw [next, List.length_cons]
          omega
        refine Cut.cons ⟨place, key :: run.keys⟩ (stop ▸ h.tail) ?_ (Nat.succ_pos _) ?_
        · intro i low
          cases i with
          | zero => exact here
          | succ i =>
              have inner := h.typed run List.mem_cons_self i (Nat.lt_of_succ_lt_succ low)
              rw [next, Nat.add_assoc, Nat.add_comm 1 i] at inner
              exact inner
        · intro other mem
          have := apart other mem
          simp only [stop]
          omega
      · rw [extend_of_apart (by simpa using next)]
        refine Cut.cons ⟨place, [key]⟩ h alone Nat.one_pos ?_
        intro other mem
        rcases List.mem_cons.mp mem with rfl | more
        · exact next
        · have first := h.le_start List.mem_cons_self
          have := apart other more
          change other.start ≠ place + 1
          omega

theorem ofText_cons_of_key {c : Char} {key : Key} (h : layout.key? c = some key) (rest : Text) :
    ofText layout place (c :: rest) = extend place key.char (ofText layout (place + 1) rest) := by
  have dialable : layout.isDialable (layout.normalize c) = true := by
    rw [Layout.isDialable_normalize, ← layout.isSome_key?, h, Option.isSome_some]
  rw [ofText, if_pos dialable, Layout.digitChar_of_key? (by rw [layout.key?_normalize, h])]

theorem ofText_cons_of_not {c : Char} (h : layout.key? c = none) (rest : Text) :
    ofText layout place (c :: rest) = ofText layout (place + 1) rest := by
  have silent : layout.isDialable (layout.normalize c) = false := by
    rw [Layout.isDialable_normalize, ← layout.isSome_key?, h, Option.isSome_none]
  rw [ofText, silent, if_neg Bool.false_ne_true]

/-- The runs found from a place on cut the name from there. -/
theorem cut_ofText (layout : Layout) (name text : Text) (place : Nat)
    (h : name.drop place = text) : Cut layout name place (ofText layout place text) := by
  induction text generalizing place with
  | nil => exact Cut.nil (List.drop_eq_nil_iff.mp h)
  | cons c rest ih =>
      have after : name.drop (place + 1) = rest := by
        rw [← List.drop_drop, h]
        rfl
      have here : numeralAt? layout name place = layout.numeral? c := by
        have char : name[place]? = some c := by
          rw [← Nat.add_zero place, ← List.getElem?_drop, h]
          rfl
        rw [numeralAt?, char, Option.bind_some]
      cases found : layout.key? c with
      | some key =>
          rw [ofText_cons_of_key found]
          apply (ih (place + 1) after).extend
          rw [here, Layout.numeral?, found, Option.map_some]
      | none =>
          rw [ofText_cons_of_not found]
          apply (ih (place + 1) after).skip
          rw [here, Layout.numeral?, found, Option.map_none]

/-- The token at the front of a text is that of a run which starts with the text; without one, the
first run starts later. -/
theorem cut_keys (layout : Layout) (text : Text) (place : Nat) :
    let pieces := Name.cut (text.map layout.key?)
    (∃ later, ofText layout place text = ⟨place, pieces.1⟩ :: later ∧ pieces.1 ≠ [] ∧
      pieces.2 = later.map Run.keys) ∨
    (pieces.1 = [] ∧ pieces.2 = (ofText layout place text).map Run.keys ∧
      ∀ run ∈ (ofText layout place text).head?, place < run.start) := by
  induction text generalizing place with
  | nil => exact .inr ⟨rfl, rfl, by intro run mem; cases mem⟩
  | cons c rest ih =>
      simp only [List.map_cons]
      cases found : layout.key? c with
      | some key =>
          left
          rw [ofText_cons_of_key found, cut_cons_some]
          rcases ih (place + 1) with ⟨later, runs, _, keys⟩ | ⟨front, keys, next⟩
          · refine ⟨later, ?_, List.cons_ne_nil _ _, keys⟩
            rw [runs, extend, if_pos rfl]
          · refine ⟨_, ?_, List.cons_ne_nil _ _, keys⟩
            rw [extend_of_apart, front]
            intro run mem
            exact Nat.ne_of_gt (next run mem)
      | none =>
          right
          rw [ofText_cons_of_not found, cut_cons_none]
          rcases ih (place + 1) with ⟨later, runs, front, keys⟩ | ⟨front, keys, next⟩
          · refine ⟨rfl, ?_, ?_⟩
            · simp only [close, List.isEmpty_eq_false_iff.mpr front, runs, keys, List.map_cons,
                Bool.false_eq_true, if_false]
            · rw [runs]
              intro run mem
              obtain rfl := Option.some.inj mem
              exact Nat.lt_succ_self place
          · refine ⟨rfl, ?_, ?_⟩
            · simp only [close, front, keys, List.isEmpty_nil, if_true]
            · intro run mem
              exact Nat.lt_of_succ_lt (next run mem)

end Run

/-- The words of a name are its runs, numbered. -/
theorem toRun_words (layout : Layout) (name : Text) :
    (words layout name).map Word.toRun = Run.ofText layout 0 name := by
  apply List.ext_getElem?
  intro index
  rw [words, List.getElem?_map, List.getElem?_mapIdx, Option.map_map]
  exact Option.map_id'

/-- The tokens of a name are the keys of its runs. -/
theorem tokens_eq_keys (layout : Layout) (name : Text) :
    tokens layout name = (Run.ofText layout 0 name).map Run.keys := by
  have keys : (name.map fun c => layout.key? (layout.normalize c)) = name.map layout.key? := by
    simp only [Layout.key?_normalize]
  rw [tokens, keys]
  rcases Run.cut_keys layout name 0 with ⟨later, runs, front, keys⟩ | ⟨front, keys, _⟩
  · rw [runs, List.map_cons, ← keys]
    exact if_neg (by simpa using front)
  · rw [← keys]
    exact if_pos (by simpa using front)

end Name
end Keypad
