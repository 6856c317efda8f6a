import Keypad.Matcher

/-!
A session with one matcher. Whatever steps came before, the matcher answers the next one like a new
matcher with the settings in force, and what it remembers is what the last name and the last number
highlighted under the settings of their time.
-/
namespace Keypad.Matcher

theorem matchName_eq (matcher : Matcher) (name : Text) :
    matcher.matchName name =
      let found := Name.search matcher.layout matcher.policy name matcher.keys
      (found.isSome, { matcher with
        namePositions := found.getD []
        nameMask := Mask.highlight name.length (found.getD []) }) := by
  unfold matchName
  cases Name.search matcher.layout matcher.policy name matcher.keys <;> rfl

/-- After a number was matched against them, the keys are back in their place. -/
theorem matchNumber_eq (matcher : Matcher) (number : Text) :
    matcher.matchNumber number =
      let found := matcher.numberSpan number true
      (found, { matcher with numberMask := Mask.highlight number.length found.toList }) := rfl

theorem matchNumberWith_eq (matcher : Matcher) (number query : Text) (useAreaCode : Bool) :
    matcher.matchNumberWith number query useAreaCode =
      let found := (matcher.setQuery query).numberSpan number useAreaCode
      (found, { matcher with numberMask := Mask.highlight number.length found.toList }) := rfl

/-- A new matcher that is given a policy and a region. -/
def fresh (installed : InstalledRegion) (layout : Layout) (query : Text) (policy : Policy)
    (region : Region) : Matcher :=
  ((new installed layout query).withPolicy policy).withRegion region

/-- Matchers with the same settings, whatever they remember. -/
structure SameSettings (a b : Matcher) : Prop where
  layout : a.layout = b.layout
  policy : a.policy = b.policy
  region : a.region = b.region
  query : a.query = b.query
  keys : a.keys = b.keys

namespace SameSettings

variable {a b : Matcher}

theorem search_eq (same : SameSettings a b) (name : Text) :
    Name.search a.layout a.policy name a.keys = Name.search b.layout b.policy name b.keys := by
  rw [same.layout, same.policy, same.keys]

theorem numberSpan_eq (same : SameSettings a b) (number : Text) (useAreaCode : Bool) :
    a.numberSpan number useAreaCode = b.numberSpan number useAreaCode := by
  unfold numberSpan
  rw [same.policy, same.region, same.keys]

theorem setQuery (same : SameSettings a b) (query : Text) :
    SameSettings (a.setQuery query) (b.setQuery query) :=
  ⟨same.layout, same.policy, same.region, rfl, rfl⟩

theorem trans {c : Matcher} (near : SameSettings a b) (far : SameSettings b c) :
    SameSettings a c :=
  ⟨near.layout.trans far.layout, near.policy.trans far.policy, near.region.trans far.region,
    near.query.trans far.query, near.keys.trans far.keys⟩

theorem matchNumber_fst (same : SameSettings a b) (number : Text) :
    (a.matchNumber number).1 = (b.matchNumber number).1 :=
  same.numberSpan_eq number true

theorem matchNumber_numberMask (same : SameSettings a b) (number : Text) :
    (a.matchNumber number).2.numberMask = (b.matchNumber number).2.numberMask :=
  congrArg (fun span : Option Span => Mask.highlight number.length span.toList)
    (same.matchNumber_fst number)

/-- What a matcher remembers has no part in what it answers. -/
theorem apply_fst (same : SameSettings a b) (step : Step) :
    (a.apply step).1 = (b.apply step).1 := by
  cases step with
  | setQuery query => rfl
  | withPolicy policy => rfl
  | withRegion region => rfl
  | matchName name => simp only [apply, matchName_eq, same.search_eq name]
  | matchNumber number => simp only [apply, matchNumber_eq, same.numberSpan_eq]
  | matchNumberWith number query useAreaCode =>
      simp only [apply, matchNumberWith_eq, (same.setQuery query).numberSpan_eq]
  | nameSpans name query => simp only [apply, nameSpans, same.layout, same.policy]
  | numberSpan number useAreaCode => simp only [apply, same.numberSpan_eq]

end SameSettings

theorem sameSettings_matchName (matcher : Matcher) (name : Text) :
    SameSettings (matcher.matchName name).2 matcher := by
  rw [matchName_eq]
  exact ⟨rfl, rfl, rfl, rfl, rfl⟩

/-- The steps of a session so far, the latest one first. -/
abbrev History := List Step

namespace History

/-- The text last given as the query, `first` before any other. -/
def query (first : Text) : History → Text
  | [] => first
  | .setQuery text :: _ => text
  | _ :: earlier => query first earlier

def policy : History → Policy
  | [] => .standard
  | .withPolicy policy :: _ => policy
  | _ :: earlier => policy earlier

def region (installed : InstalledRegion) : History → Region
  | [] => installed.current
  | .withRegion region :: _ => region
  | _ :: earlier => region installed earlier

/-- A new matcher with the settings in force. -/
def fresh (installed : InstalledRegion) (layout : Layout) (first : Text) (history : History) :
    Matcher :=
  Matcher.fresh installed layout (query first history) (policy history) (region installed history)

section

variable (installed : InstalledRegion) (layout : Layout) (first : Text)

/-- What the last matched name highlights under the settings of its time. -/
def namePositions : History → List Span
  | [] => []
  | .matchName name :: earlier =>
    ((fresh installed layout first earlier).nameSpans name (query first earlier)).getD []
  | _ :: earlier => namePositions earlier

def nameMask : History → Mask
  | [] => []
  | .matchName name :: earlier =>
    Mask.highlight name.length
      (((fresh installed layout first earlier).nameSpans name (query first earlier)).getD [])
  | _ :: earlier => nameMask earlier

/-- The mask of the last matched number, whether its query was given with it or not. -/
def numberMask : History → Mask
  | [] => []
  | .matchNumber number :: earlier =>
    Mask.highlight number.length
      ((fresh installed layout first earlier).numberSpan number true).toList
  | .matchNumberWith number query useAreaCode :: earlier =>
    Mask.highlight number.length
      (((fresh installed layout first earlier).setQuery query).numberSpan number
        useAreaCode).toList
  | _ :: earlier => numberMask earlier

end

end History

/-- What the steps of a session so far make of a matcher. -/
structure Recalls (installed : InstalledRegion) (layout : Layout) (first : Text)
    (history : History) (matcher : Matcher) : Prop where
  query : matcher.query = Text.digits (History.query first history)
  keys : matcher.keys = matcher.query
  policy : matcher.policy = History.policy history
  region : matcher.region = History.region installed history
  namePositions : matcher.namePositions = History.namePositions installed layout first history
  nameMask : matcher.nameMask = History.nameMask installed layout first history
  numberMask : matcher.numberMask = History.numberMask installed layout first history
  layout : matcher.layout = layout

/-- The matcher that a session leaves. -/
def run (matcher : Matcher) (steps : List Step) : Matcher :=
  steps.foldl (fun matcher step => (matcher.apply step).2) matcher

theorem replay_getElem? (matcher : Matcher) (past later : List Step) (step : Step) :
    (matcher.replay (past ++ step :: later))[past.length]? =
      some ((matcher.run past).apply step) := by
  induction past generalizing matcher with
  | nil => rfl
  | cons earlier past ih => exact ih (matcher.apply earlier).2

section

variable {installed : InstalledRegion} {layout : Layout} {first : Text} {history : History}
  {matcher : Matcher}

theorem recalls_new (installed : InstalledRegion) (layout : Layout) (first : Text) :
    Recalls installed layout first [] (new installed layout first) :=
  ⟨rfl, rfl, rfl, rfl, rfl, rfl, rfl, rfl⟩

theorem Recalls.sameSettings (h : Recalls installed layout first history matcher) :
    SameSettings matcher (History.fresh installed layout first history) :=
  ⟨h.layout, h.policy, h.region, h.query, h.keys.trans h.query⟩

/-- A step keeps the settings that it does not set and the memory that it does not renew. -/
theorem Recalls.apply (h : Recalls installed layout first history matcher) (step : Step) :
    Recalls installed layout first (step :: history) (matcher.apply step).2 := by
  have same := h.sameSettings
  cases step with
  | setQuery query => exact { h with query := rfl, keys := rfl }
  | withPolicy policy => exact { h with policy := rfl }
  | withRegion region => exact { h with region := rfl }
  | matchName name =>
      have found := same.search_eq name
      simp only [Matcher.apply, matchName_eq]
      exact { h with
        namePositions := congrArg (fun found => found.getD []) found
        nameMask := congrArg (fun found => Mask.highlight name.length (found.getD [])) found }
  | matchNumber number => exact { h with numberMask := same.matchNumber_numberMask number }
  | matchNumberWith number query useAreaCode =>
      have mask := congrArg (fun span : Option Span => Mask.highlight number.length span.toList)
        ((same.setQuery query).numberSpan_eq number useAreaCode)
      exact { h with numberMask := mask }
  | nameSpans name query => exact { h with }
  | numberSpan number useAreaCode => exact { h with }

theorem Recalls.run (h : Recalls installed layout first history matcher) (steps : List Step) :
    Recalls installed layout first (steps.reverse ++ history) (matcher.run steps) := by
  induction steps generalizing history matcher with
  | nil => exact h
  | cons step later ih =>
      rw [List.reverse_cons, List.append_assoc]
      exact ih (h.apply step)

end

/-- Only matching a name renews what is remembered of names, and only matching a number what is
remembered of numbers. -/
def Keeps (step : Step) (before after : Matcher) : Prop :=
  match step with
  | .matchName _ => after.numberMask = before.numberMask
  | .matchNumber _ | .matchNumberWith _ _ _ =>
    after.namePositions = before.namePositions ∧ after.nameMask = before.nameMask
  | _ =>
    after.namePositions = before.namePositions ∧ after.nameMask = before.nameMask ∧
      after.numberMask = before.numberMask

theorem keeps_apply (matcher : Matcher) (step : Step) :
    Keeps step matcher (matcher.apply step).2 := by
  cases step with
  | matchName name =>
      simp only [apply, matchName_eq]
      exact rfl
  | matchNumber number => exact ⟨rfl, rfl⟩
  | matchNumberWith number query useAreaCode => exact ⟨rfl, rfl⟩
  | _ => exact ⟨rfl, rfl, rfl⟩

/-- After every step of every session a matcher holds the query, and remembers the last name and the
last number, as its history says, and the step is answered as by a new matcher with the settings in
force. A query that is given with a number is answered like a query of the matcher. -/
theorem replay_like_new (installed : InstalledRegion) (layout : Layout) (first : Text)
    (past later : List Step) (step : Step) :
    let start := new installed layout first
    let before := start.run past
    let fresh := History.fresh installed layout first past.reverse
    ∃ reply after,
      (start.replay (past ++ step :: later))[past.length]? = some (reply, after) ∧
      Recalls installed layout first (step :: past.reverse) after ∧
      Keeps step before after ∧
      reply = (fresh.apply step).1 ∧
      ∀ number query useAreaCode,
        (before.matchNumberWith number query useAreaCode).1 =
          (fresh.setQuery query).numberSpan number useAreaCode := by
  intro start before fresh
  have recalls : Recalls installed layout first past.reverse before := by
    have run := (recalls_new installed layout first).run past
    rwa [List.append_nil] at run
  have same := recalls.sameSettings
  refine ⟨_, _, replay_getElem? start past later step, recalls.apply step, keeps_apply before step,
    same.apply_fst step, ?_⟩
  intro number query useAreaCode
  exact (same.setQuery query).numberSpan_eq number useAreaCode

end Keypad.Matcher
