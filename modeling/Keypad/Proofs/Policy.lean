import Keypad.Loading
import Keypad.Proofs.Builtin
import Mathlib.Data.List.Nodup

/-!
A policy is read from any of its fields. What the text gives is put over the standard policy, and
the result is judged as a whole. The text may be an object with the fields in any order and with
members that a policy does not know, or an array of the first fields; a field that an object gives
twice is refused. The text is read by any codec that reads texts as what they describe.
-/
namespace Keypad.Policy

open Json (Record)
open Json.Record (Partial Fills)
open Json.Grammar (Blank IsValue)

/-- One field of a policy and what it is set to. -/
inductive Setting where
  | allowInitials (on : Bool)
  | initialLimit (length : Nat)
  | leadingWords (words : Nat)
  | trailingWords (words : Nat)
  | matchEmpty (on : Bool)
  deriving DecidableEq, Repr

/-- The fields of a policy in the order of an array. -/
def fieldNames : List Text :=
  ["allow_initial_match".toList, "initial_length_limit".toList, "first_tokens_for_initials".toList,
    "last_tokens_for_initials".toList, "match_empty_query".toList]

namespace Setting

def name : Setting → Text
  | allowInitials _ => "allow_initial_match".toList
  | initialLimit _ => "initial_length_limit".toList
  | leadingWords _ => "first_tokens_for_initials".toList
  | trailingWords _ => "last_tokens_for_initials".toList
  | matchEmpty _ => "match_empty_query".toList

theorem plain_name (setting : Setting) : ∀ c ∈ setting.name, Json.Grammar.Plain c := by
  have all : setting.name.all (fun c => decide (Json.Grammar.Plain c)) = true := by
    cases setting <;> rfl
  exact fun c mem => of_decide_eq_true (List.all_eq_true.mp all c mem)

/-- The value of a field in JSON. -/
def written : Setting → Text
  | allowInitials on | matchEmpty on => if on then "true".toList else "false".toList
  | initialLimit n | leadingWords n | trailingWords n => Text.ofNat n

/-- Counts are below 2 to the 64th. -/
def InRange : Setting → Prop
  | allowInitials _ | matchEmpty _ => True
  | initialLimit n | leadingWords n | trailingWords n => n < Text.countBound

def put : Setting → Policy → Policy
  | allowInitials on, policy => { policy with allowInitials := on }
  | initialLimit length, policy => { policy with initialLimit := length }
  | leadingWords words, policy => { policy with leadingWords := words }
  | trailingWords words, policy => { policy with trailingWords := words }
  | matchEmpty on, policy => { policy with matchEmpty := on }

/-- Every setting has its field in the written form of a policy. -/
theorem exists_field {setting : Setting} (h : setting.InRange) :
    ∃ field ∈ Schema.policy.fields, field.name = setting.name ∧
      ∃ data, field.kind.Denotes setting.written data ∧ field.set data = setting.put := by
  cases setting with
  | allowInitials on => exact ⟨_, .head _, rfl, on, rfl, rfl⟩
  | initialLimit n => exact ⟨_, .tail _ (.head _), rfl, n, ⟨h, rfl⟩, rfl⟩
  | leadingWords n => exact ⟨_, .tail _ (.tail _ (.head _)), rfl, n, ⟨h, rfl⟩, rfl⟩
  | trailingWords n => exact ⟨_, .tail _ (.tail _ (.tail _ (.head _))), rfl, n, ⟨h, rfl⟩, rfl⟩
  | matchEmpty on =>
      exact ⟨_, .tail _ (.tail _ (.tail _ (.tail _ (.head _)))), rfl, on, rfl, rfl⟩

/-- The only field of that name is the field of the setting. -/
theorem denotes_of_name {setting : Setting} (h : setting.InRange) {field : Record.Field Policy}
    (known : field ∈ Schema.policy.fields) (named : field.name = setting.name) :
    ∃ data, field.kind.Denotes setting.written data ∧ field.set data = setting.put := by
  obtain ⟨own, known', named', denotes⟩ := exists_field h
  have unique : field = own :=
    List.inj_on_of_nodup_map Schema.policy.distinct known known' (named.trans named'.symm)
  rwa [unique]

/-- Gives a setting to a policy that is being read. -/
def give (found : Partial Policy) (setting : Setting) : Partial Policy :=
  ⟨setting.put found.value, setting.name :: found.given⟩

theorem give_eq {setting : Setting} {field : Record.Field Policy} {data : field.kind.Data}
    (named : field.name = setting.name) (same : field.set data = setting.put)
    (found : Partial Policy) : found.give field data = setting.give found := by
  rw [Partial.give, give, same, named]

end Setting

/-- The standard policy with settings put over it, one after the other. -/
def overlay (settings : List Setting) : Policy :=
  settings.foldl (fun policy setting => setting.put policy) .standard

/-- What reading a policy comes to once its fields are known. -/
def judged (policy : Policy) : Except Failure Policy :=
  match policy.validate with
  | .error fault => .error (.invalidPolicy fault)
  | .ok () => .ok policy

/-! ## Written policies -/

/-- A member of an object, by its name and its value as it is written: a setting, or a member that
no policy has. -/
inductive IsMember : Option Setting → Text × Text → Prop where
  | setting {setting : Setting} (range : setting.InRange) :
      IsMember (some setting) (setting.name, setting.written)
  | unknown {name written : Text} (unknown : name ∉ fieldNames) : IsMember none (name, written)

/-- A text that is an object, with the settings among its members in their order. -/
inductive IsObject : List Setting → Text → Prop where
  | braces {front text back : Text} {entries : List (Option Setting)}
      {members : List (Text × Text)} (h : Blank front) (h' : Blank back)
      (all : List.Forall₂ IsMember entries members) (object : Json.IsObject members text) :
      IsObject (entries.filterMap id) (front ++ (text ++ back))

/-- A text that is an array of the first fields. -/
inductive IsArray : List Setting → Text → Prop where
  | brackets {front text back : Text} {settings : List Setting} (h : Blank front) (h' : Blank back)
      (leading : settings.map Setting.name <+: fieldNames)
      (range : ∀ setting ∈ settings, setting.InRange)
      (array : Json.IsArray (settings.map Setting.written) text) :
      IsArray settings (front ++ (text ++ back))

/-! ## Reading them -/

variable {found : Partial Policy} {setting : Setting} {settings : List Setting}

/-- A policy that has been given settings is complete, and is the standard policy with them. -/
theorem finish_giveAll (settings : List Setting) :
    Schema.policy.finish (settings.foldl Setting.give (.start Schema.policy)) =
      .ok (overlay settings) := by
  have value : (settings.foldl Setting.give (.start Schema.policy)).value = overlay settings :=
    (List.foldl_hom Partial.value fun _ _ => rfl).symm
  exact congrArg Except.ok value

theorem visits_setting {later : List (Text × Text)} {result : Except Json.Fault (Partial Policy)}
    (range : setting.InRange) (fresh : setting.name ∉ found.given)
    (more : Schema.policy.Visits (setting.give found) later result) :
    Schema.policy.Visits found ((setting.name, setting.written) :: later) result := by
  obtain ⟨field, known, named, data, denotes, same⟩ := Setting.exists_field range
  rw [← Setting.give_eq named same] at more
  rw [← named] at fresh ⊢
  exact .field known fresh denotes more

theorem visits_unknown {name written : Text} {later : List (Text × Text)}
    {result : Except Json.Fault (Partial Policy)} (unknown : name ∉ fieldNames)
    (more : Schema.policy.Visits found later result) :
    Schema.policy.Visits found ((name, written) :: later) result :=
  .unknown (fun _ known same => unknown (same ▸ List.mem_map_of_mem known)) more

/-- Settings that differ from each other and from those before them are all given. -/
theorem visits_of_nodup {entries : List (Option Setting)} {members : List (Text × Text)}
    (all : List.Forall₂ IsMember entries members) (found : Partial Policy)
    (distinct : ((entries.filterMap id).map Setting.name).Nodup)
    (fresh : ∀ setting ∈ entries.filterMap id, setting.name ∉ found.given) :
    Schema.policy.Visits found members (.ok ((entries.filterMap id).foldl Setting.give found)) := by
  induction all generalizing found with
  | nil => exact .done
  | @cons entry member entries members isMember _ ih =>
      cases isMember with
      | unknown unknown => exact visits_unknown unknown (ih found distinct fresh)
      | @setting setting range =>
          obtain ⟨own, others⟩ := List.forall_mem_cons.mp fresh
          obtain ⟨apart, distinct⟩ := List.nodup_cons.mp distinct
          refine visits_setting range own (ih _ distinct fun other mem => ?_)
          refine List.not_mem_cons_of_ne_of_not_mem (fun same => apart ?_) (others other mem)
          exact same ▸ List.mem_map_of_mem mem

/-- The first setting that repeats one before it is where the object is refused. -/
theorem visits_of_repeated {entries : List (Option Setting)} {members : List (Text × Text)}
    (all : List.Forall₂ IsMember entries members) (found : Partial Policy)
    (repeated : ¬ (((entries.filterMap id).map Setting.name).Nodup ∧
      ∀ setting ∈ entries.filterMap id, setting.name ∉ found.given)) :
    Schema.policy.Visits found members (.error .mismatched) := by
  induction all generalizing found with
  | nil => exact absurd ⟨List.nodup_nil, nofun⟩ repeated
  | @cons entry member entries members isMember _ ih =>
      cases isMember with
      | unknown unknown => exact visits_unknown unknown (ih found repeated)
      | @setting setting range =>
          by_cases given : setting.name ∈ found.given
          · obtain ⟨field, known, named, -⟩ := Setting.exists_field range
            rw [← named] at given ⊢
            exact .repeated known given
          · refine visits_setting range given (ih _ fun ⟨distinct, fresh⟩ => repeated ?_)
            have apart : setting.name ∉ (entries.filterMap id).map Setting.name := by
              intro mem
              obtain ⟨other, mem, same⟩ := List.mem_map.mp mem
              exact fresh other mem (same ▸ List.mem_cons_self)
            refine ⟨List.nodup_cons.mpr ⟨apart, distinct⟩, List.forall_mem_cons.mpr ⟨given, ?_⟩⟩
            exact fun other mem earlier => fresh other mem (List.mem_cons_of_mem _ earlier)

theorem fills_of_prefix (found : Partial Policy) {fields : List (Record.Field Policy)}
    (known : ∀ field ∈ fields, field ∈ Schema.policy.fields)
    (leading : settings.map Setting.name <+: fields.map (·.name))
    (range : ∀ setting ∈ settings, setting.InRange) :
    Fills found fields (settings.map Setting.written) (settings.foldl Setting.give found) := by
  induction settings generalizing fields found with
  | nil => exact .done
  | cons setting settings ih =>
      cases fields with
      | nil => exact absurd (List.prefix_nil.mp leading) (List.cons_ne_nil _ _)
      | cons field fields =>
          obtain ⟨named, leading⟩ := List.cons_prefix_cons.mp leading
          obtain ⟨own, others⟩ := List.forall_mem_cons.mp known
          obtain ⟨first, later⟩ := List.forall_mem_cons.mp range
          obtain ⟨data, denotes, same⟩ := Setting.denotes_of_name first own named.symm
          rw [List.foldl_cons, ← Setting.give_eq named.symm same]
          exact .next denotes (ih _ others leading later)

section

variable {codecs : Codecs} (reads : codecs.json.ReadsText) {text : Text}
include reads

theorem ofJson_object (h : IsObject settings text) (distinct : (settings.map Setting.name).Nodup) :
    ofJson text codecs = judged (overlay settings) := by
  obtain ⟨h, h', all, object⟩ := h
  have visits := visits_of_nodup all (.start Schema.policy) distinct fun _ _ => nofun
  rw [ofJson, reads.record h h' (.object object visits), Except.bind, finish_giveAll]
  rfl

theorem ofJson_array (h : IsArray settings text) :
    ofJson text codecs = judged (overlay settings) := by
  obtain ⟨h, h', leading, range, array⟩ := h
  have fills := fills_of_prefix (.start Schema.policy) (fun _ => id) leading range
  rw [ofJson, reads.record h h' (.array array fills), finish_giveAll]
  rfl

theorem ofJson_repeated (h : IsObject settings text)
    (repeated : ¬ (settings.map Setting.name).Nodup) :
    ofJson text codecs = .error (.json .mismatched) := by
  obtain ⟨h, h', all, object⟩ := h
  have visits := visits_of_repeated all (.start Schema.policy) fun ⟨distinct, _⟩ =>
    repeated distinct
  rw [ofJson, reads.record h h' (.object object visits)]
  rfl

end

/-- An object puts its settings over the standard policy when it gives no field twice, and so does
an array of the first fields; the result is judged. An object that gives a field twice is no
policy. -/
theorem ofJson_overlays {codecs : Codecs} (reads : codecs.json.ReadsText)
    (settings : List Setting) (text : Text) :
    (IsObject settings text → (settings.map Setting.name).Nodup →
      ofJson text codecs = judged (overlay settings)) ∧
    (IsArray settings text → ofJson text codecs = judged (overlay settings)) ∧
    (IsObject settings text → ¬ (settings.map Setting.name).Nodup →
      ofJson text codecs = .error (.json .mismatched)) :=
  ⟨ofJson_object reads, ofJson_array reads, ofJson_repeated reads⟩

/-- An unknown member and two switches; an array that asks for initials of no length; a switch that
is given twice. -/
theorem ofJson_overlays_switches :
    ofJson "\x7b\"x\": [null] ,\"match_empty_query\":true,\"allow_initial_match\":false\x7d".toList =
        .ok ⟨false, 1, 2, 2, true⟩ ∧
      ofJson "[true,0]".toList = .error (.invalidPolicy .noInitialLength) ∧
      ofJson "\x7b\"match_empty_query\":true,\"match_empty_query\":false\x7d".toList =
        .error (.json .mismatched) := by
  have empty : Blank [] := .nil
  have space : Blank [' '] := by simp [Blank]
  have switch (setting : Setting) (isValue : IsValue setting.written) :
      Json.IsMember (setting.name, setting.written)
        ('"' :: (setting.name ++ ['"', ':']) ++ setting.written) :=
    .member (.of_plain setting.plain_name) (.name empty empty) isValue
  have null : IsValue "null".toList := .word (by decide)
  have list : IsValue "[null]".toList :=
    .array (List.forall_mem_singleton.mpr null) (.some empty (.done empty))
  have unknown :
      Json.IsMember ("x".toList, "[null]".toList) ("\"x\": ".toList ++ "[null]".toList) :=
    .member (.of_plain (by simp [Json.Grammar.Plain])) (.name empty space) list
  have given (setting : Setting) (range : setting.InRange) :
      IsMember (some setting) (setting.name, setting.written) := .setting range
  have matched := switch (.matchEmpty true) (.word (by decide))
  have unmatched := switch (.matchEmpty false) (.word (by decide))
  have noInitials := switch (.allowInitials false) (.word (by decide))
  have object : IsObject [.matchEmpty true, .allowInitials false] ([] ++ (_ ++ [])) :=
    .braces empty empty
      (.cons (.unknown (by decide)) (.cons (given (.matchEmpty true) trivial)
        (.cons (given (.allowInitials false) trivial) .nil)))
      (.braces (.cons unknown (.cons matched (.cons noInitials .nil)))
        (.some empty (.next space empty (.next empty empty (.done empty)))))
  have array : IsArray [.allowInitials true, .initialLimit 0] ([] ++ (_ ++ [])) :=
    .brackets empty empty (by decide) (by simp [Setting.InRange, Text.countBound])
      (.brackets (.some empty (.next empty empty (.done empty))))
  have repeated : IsObject [.matchEmpty true, .matchEmpty false] ([] ++ (_ ++ [])) :=
    .braces empty empty
      (.cons (given (.matchEmpty true) trivial) (.cons (given (.matchEmpty false) trivial) .nil))
      (.braces (.cons matched (.cons unmatched .nil))
        (.some empty (.next empty empty (.done empty))))
  have reads : Codecs.builtin.json.ReadsText := Json.Codec.builtin_readsText
  exact ⟨(ofJson_overlays reads _ _).1 object (by decide), (ofJson_overlays reads _ _).2.1 array,
    (ofJson_overlays reads _ _).2.2 repeated (by decide)⟩

end Keypad.Policy
