import Keypad.Matcher
import Keypad.Name.Index
import Keypad.Proofs.Name.Words

/-!
A name is known by its keys alone. Cutting it, indexing it and searching it read nothing of a
character but its key, so two names with the same keys, each on a layout of its own, are alike.
-/
namespace Keypad.Name

/-- The runs of a sequence of keys whose first one is typed at `place`. -/
def Run.ofKeys : Nat → List (Option Key) → List Run
  | _, [] => []
  | place, some key :: rest => extend place key.char (ofKeys (place + 1) rest)
  | place, none :: rest => ofKeys (place + 1) rest

theorem Run.ofText_eq_ofKeys (layout : Layout) (place : Nat) (text : Text) :
    ofText layout place text = ofKeys place (text.map layout.key?) := by
  induction text generalizing place with
  | nil => rfl
  | cons c rest ih =>
      rw [List.map_cons]
      cases found : layout.key? c with
      | some key => rw [ofText_cons_of_key found, ofKeys, ih]
      | none => rw [ofText_cons_of_not found, ofKeys, ih]

/-- Two names, each on a layout of its own, that nothing tells apart: neither their tokens, nor
what they are indexed under, nor what a query highlights in them. -/
structure Alike (first : Layout) (left : Text) (second : Layout) (right : Text) : Prop where
  tokens : tokens first left = tokens second right
  index : ∀ policy, index first policy left = index second policy right
  spans : ∀ (matcher : Matcher) (query : Text),
    { matcher with layout := first }.nameSpans left query =
      { matcher with layout := second }.nameSpans right query

section

variable {first second : Layout} {left right : Text}

theorem tokens_congr (same : left.map first.key? = right.map second.key?) :
    tokens first left = tokens second right := by
  simp only [tokens, Layout.key?_normalize, same]

theorem words_congr (same : left.map first.key? = right.map second.key?) :
    words first left = words second right := by
  simp only [words, Run.ofText_eq_ofKeys, same]

theorem search_congr (same : left.map first.key? = right.map second.key?) (policy : Policy)
    (query : Digits) : search first policy left query = search second policy right query := by
  have lengths : left.length = right.length := by
    simpa only [List.length_map] using congrArg List.length same
  simp only [search, words_congr same, lengths]

theorem alike_of_map_key? (same : left.map first.key? = right.map second.key?) :
    Alike first left second right where
  tokens := tokens_congr same
  index policy := by simp only [index, tokens_congr same]
  spans matcher query := search_congr same matcher.policy (Text.digits query)

end

/-- A layout that cannot type what the Latin keypad cannot type gives every character its Latin
key. -/
theorem map_key?_eq_latin {layout : Layout} {name : Text} (h : layout ≠ .russian)
    (silent : ∀ c ∈ name, Layout.latin.isDialable c = false → layout.isDialable c = false) :
    name.map layout.key? = name.map Layout.latin.key? := by
  refine List.map_congr_left ?_
  intro c mem
  cases found : Layout.latin.key? c with
  | some key => exact Layout.key?_of_latin h found
  | none =>
      have unknown : Layout.latin.isDialable c = false := by
        rw [← Layout.isSome_key?, found, Option.isSome_none]
      rw [← Option.not_isSome_iff_eq_none, Layout.isSome_key?, silent c mem unknown]
      exact Bool.false_ne_true

/-- Names with the same keys are alike, whatever the layouts they are typed on. So normalizing a name
changes nothing, and on a name whose other characters it cannot type either, every layout but the
bare Russian one is as good as the Latin keypad. -/
theorem alike_of_same_keys :
    (∀ (first second : Layout) (left right : Text),
      left.map first.key? = right.map second.key? → Alike first left second right) ∧
    (∀ (layout : Layout) (name : Text), Alike layout (name.map layout.normalize) layout name) ∧
    ∀ (layout : Layout) (name : Text), layout ≠ .russian →
      (∀ c ∈ name, Layout.latin.isDialable c = false → layout.isDialable c = false) →
      Alike layout name .latin name := by
  refine ⟨fun _ _ _ _ same => alike_of_map_key? same, ?_, ?_⟩
  · intro layout name
    apply alike_of_map_key?
    rw [List.map_map]
    exact List.map_congr_left fun c _ => layout.key?_normalize c
  · intro layout name h silent
    exact alike_of_map_key? (map_key?_eq_latin h silent)

/-- `Иван` on the Russian keypad is typed like `Hack` on the Latin one, its capital does not matter,
and a name in basic letters is the same to a keypad that knows Cyrillic letters as well. -/
theorem alike_ivan_hack :
    let layered : Layout := .latinThen .russian
    Alike .russian "Иван".toList .latin "Hack".toList ∧
      Alike .russian "иван".toList .russian "Иван".toList ∧
      Alike layered "John Smith-2".toList .latin "John Smith-2".toList := by
  intro layered
  obtain ⟨keys, normal, latin⟩ := alike_of_same_keys
  have small : "Иван".toList.map Layout.russian.normalize = "иван".toList := by decide +kernel
  have silent : ("John Smith-2".toList.all fun c =>
      Layout.latin.isDialable c || !layered.isDialable c) = true := by decide +kernel
  refine ⟨keys _ _ _ _ (by decide +kernel), ?_, ?_⟩
  · rw [← small]
    exact normal .russian _
  · refine latin layered _ (by decide) ?_
    intro c mem unknown
    simpa [unknown] using List.all_eq_true.mp silent c mem

end Keypad.Name
