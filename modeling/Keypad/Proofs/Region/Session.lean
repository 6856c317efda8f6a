import Keypad.Program
import Keypad.Proofs.Matcher.Session
import Keypad.Proofs.Number.Alignment

/-!
The installed region over any sequence of uses. The first installation decides for good: before it
every reader sees the unknown region, so numbers are matched as outside the numbering plan, and from
it on nothing changes any more. A matcher that was built keeps the region of that moment.
-/
namespace Keypad

namespace InstalledRegion

/-- The region that a step asks to install. -/
def Step.region? : Step → Option Region
  | .install region => some region
  | _ => .none

/-- The region of the first installation among some steps. -/
def first? (past : List Step) : Option Region := past.findSome? Step.region?

/-- The region that readers see after some steps. -/
def inForce (past : List Step) : Region := (first? past).getD .unknown

/-- The installed region that some steps leave. -/
def run (installed : InstalledRegion) (steps : List Step) : InstalledRegion :=
  steps.foldl (fun installed step => (installed.apply step).2) installed

/-- What a step is answered after some steps. -/
def Answers (past : List Step) (reply : Reply) : Step → Prop
  | .current => reply = .region (inForce past)
  | .install _ => reply = if (first? past).isSome then .alreadyInstalled else .installed
  | .matchNumber query number => ∀ installed : InstalledRegion,
    reply = .span (((Matcher.new installed .latin query).withRegion (inForce past)).numberSpan
      number true)

theorem replies_getElem? (installed : InstalledRegion) (past later : List Step) (step : Step) :
    (installed.replies (past ++ step :: later))[past.length]? =
      some ((installed.run past).apply step).1 := by
  induction past generalizing installed with
  | nil => rfl
  | cons earlier past ih => exact ih (installed.apply earlier).2

/-- A step installs its region where none is installed, and changes nothing else. -/
theorem apply_snd (installed : InstalledRegion) (step : Step) :
    (installed.apply step).2 = ⟨installed.region?.or step.region?⟩ := by
  obtain ⟨region?⟩ := installed
  cases step with
  | current => exact congrArg mk Option.or_none.symm
  | install region => cases region? <;> rfl
  | matchNumber query number => exact congrArg mk Option.or_none.symm

theorem run_eq (installed : InstalledRegion) (steps : List Step) :
    installed.run steps = ⟨installed.region?.or (first? steps)⟩ := by
  induction steps generalizing installed with
  | nil => exact congrArg mk Option.or_none.symm
  | cons step later ih =>
      rw [run, List.foldl_cons, ← run, ih, apply_snd, Option.or_assoc]
      congr 2
      rw [first?, first?, List.findSome?_cons]
      cases step.region? <;> rfl

theorem run_none (past : List Step) : none.run past = ⟨first? past⟩ := by
  rw [run_eq]
  rfl

theorem current_run_none (past : List Step) : (none.run past).current = inForce past := by
  rw [run_none]
  rfl

theorem answers_apply (past : List Step) (step : Step) :
    Answers past ((none.run past).apply step).1 step := by
  have current := current_run_none past
  cases step with
  | current => exact congrArg Reply.region current
  | install region =>
      rw [run_none]
      unfold Answers InstalledRegion.apply install
      cases first? past <;> rfl
  | matchNumber query number =>
      intro installed
      change Reply.span (Number.align _ (none.run past).current number _ true) = _
      rw [current]
      rfl

theorem first?_append {past : List Step} (set : (first? past).isSome = true) (more : List Step) :
    first? (past ++ more) = first? past := by
  rw [first?, List.findSome?_append]
  exact Option.or_of_isSome set

end InstalledRegion

theorem Matcher.History.region_of_not_mem {installed : InstalledRegion} {history : History}
    (h : ∀ region, .withRegion region ∉ history) :
    History.region installed history = installed.current := by
  induction history with
  | nil => rfl
  | cons step earlier ih =>
      cases step with
      | withRegion region => exact absurd List.mem_cons_self (h region)
      | _ => exact ih fun region mem => h region (List.mem_cons_of_mem _ mem)

/-- A new matcher that is never given another region keeps the one that was in force. -/
theorem Matcher.region_run_new (installed : InstalledRegion) (layout : Layout) (query : Text)
    {steps : List Step} (h : ∀ region, .withRegion region ∉ steps) :
    ((new installed layout query).run steps).region = installed.current := by
  rw [((recalls_new installed layout query).run steps).region, List.append_nil]
  exact History.region_of_not_mem fun region mem => h region (List.mem_reverse.mp mem)

namespace Program

/-- The uses of the installed region among some steps. -/
def regionSteps (steps : List Step) : List InstalledRegion.Step :=
  steps.filterMap fun
    | .region step => some step
    | _ => none

/-- What some steps ask the matcher that was built after `rank` others. -/
def asked (rank : Nat) (steps : List Step) : List Matcher.Step :=
  steps.filterMap fun
    | .ask other step => if other = rank then some step else none
    | _ => none

variable {program : Program} {matcher : Matcher} {rank : Nat}

theorem installed_run (program : Program) (steps : List Step) :
    (program.run steps).installed = program.installed.run (regionSteps steps) := by
  induction steps generalizing program with
  | nil => rfl
  | cons step later ih =>
      rw [run, List.foldl_cons, ← run, ih]
      cases step with
      | region step => rfl
      | build layout query => rfl
      | ask other step =>
          rw [apply]
          cases program.matchers[other]? <;> rfl

/-- A step leaves a matcher as it is, or it is a step of that matcher. -/
theorem matcher_apply (h : program.matchers[rank]? = some matcher) (step : Step) :
    (program.apply step).2.matchers[rank]? = some (matcher.run (asked rank [step])) := by
  obtain ⟨inside, _⟩ := List.getElem?_eq_some_iff.mp h
  cases step with
  | region step => exact h
  | build layout query => exact (List.getElem?_append_left inside).trans h
  | ask other step =>
      rw [apply]
      by_cases same : other = rank
      · subst same
        rw [h]
        simp only [asked, List.filterMap_cons, if_pos, List.getElem?_set_self inside]
        rfl
      · have kept : asked rank [.ask other step] = [] := by
          simp only [asked, List.filterMap_cons, if_neg same, List.filterMap_nil]
        rw [kept]
        cases program.matchers[other]? with
        | none => exact h
        | some turned => exact (List.getElem?_set_ne same).trans h

theorem matcher_run (h : program.matchers[rank]? = some matcher) (steps : List Step) :
    (program.run steps).matchers[rank]? = some (matcher.run (asked rank steps)) := by
  induction steps generalizing program matcher with
  | nil => exact h
  | cons step later ih =>
      have split : asked rank (step :: later) = asked rank [step] ++ asked rank later :=
        List.filterMap_append (l := [step])
      rw [split, Matcher.run, List.foldl_append]
      exact ih (matcher_apply h step)

/-- A matcher is built with the region of that moment, and from then on only its own steps change
it. -/
theorem matcher_run_build (earlier later : List Step) (layout : Layout) (query : Text) :
    let rank := (start.run earlier).matchers.length
    (start.run (earlier ++ .build layout query :: later)).matchers[rank]? =
      some ((Matcher.new (InstalledRegion.none.run (regionSteps earlier)) layout query).run
        (asked rank later)) := by
  intro rank
  rw [run, List.foldl_append, List.foldl_cons, ← run, ← run]
  refine matcher_run ?_ later
  change ((start.run earlier).matchers ++ [_])[rank]? = _
  rw [List.getElem?_append_right (Nat.le_refl _), Nat.sub_self, installed_run]
  rfl

end Program

namespace InstalledRegion

/-- Every use of the installed region is answered as the first installation before it says, and a
number is matched as with that region given outright. Once a region is installed nothing changes any
more; before that numbers are matched as with any region outside the numbering plan. A matcher that
a program built keeps the region of that moment, unless it is given another one itself. -/
theorem first_installation_decides (past : List Step) :
    (∀ step later, ∃ reply, (none.replies (past ++ step :: later))[past.length]? = some reply ∧
      Answers past reply step) ∧
    ((first? past).isSome = true → ∀ more,
      none.run (past ++ more) = none.run past ∧ inForce (past ++ more) = inForce past) ∧
    (first? past = .none → ∀ outside : Region, outside.inNumberingPlan = false →
      ∀ query number, ((none.run past).apply (.matchNumber query number)).1 =
        .span (((Matcher.new .none .latin query).withRegion outside).numberSpan number true)) ∧
    ∀ earlier later layout query, Program.regionSteps earlier = past →
      let rank := (Program.start.run earlier).matchers.length
      let asked := Program.asked rank later
      ∃ kept, (Program.start.run (earlier ++ .build layout query :: later)).matchers[rank]? =
          some kept ∧
        kept = (Matcher.new (none.run past) layout query).run asked ∧
        ((∀ region, .withRegion region ∉ asked) → kept.region = inForce past) := by
  refine ⟨?_, ?_, ?_, ?_⟩
  · intro step later
    exact ⟨_, replies_getElem? none past later step, answers_apply past step⟩
  · intro set more
    have same := first?_append set more
    exact ⟨by rw [run_none, run_none, same], by rw [inForce, inForce, same]⟩
  · intro unset outside plan query number
    have seen := answers_apply past (.matchNumber query number) .none
    rw [inForce, unset] at seen
    rw [seen]
    exact congrArg Reply.span (Number.align_congr plan.symm _ number _ true)
  · rintro earlier later layout query rfl rank asked
    refine ⟨_, Program.matcher_run_build earlier later layout query, rfl, fun untouched => ?_⟩
    rw [Matcher.region_run_new _ _ _ untouched, current_run_none]

/-- After the United States no other region can be installed, and the local digits of a number are
found. Before, they find nothing, and a matcher that was built by then goes on to know no region. -/
theorem first_installation_decides_us_then_de :
    let us := Region.ofCountry "US".toList
    let de := Region.ofCountry "DE".toList
    let query := "1234567".toList
    let number := "(555) 123-4567".toList
    none.run [.install us, .install de] = none.run [.install us] ∧
      (none.replies [.install us, .install de, .matchNumber query number])[2]? =
        some (.span (some ⟨6, 14⟩)) ∧
      (none.apply (.matchNumber query number)).1 = .span Option.none ∧
      ∃ kept, (Program.start.run [.build .latin query, .region (.install us)]).matchers[0]? =
        some kept ∧ kept.region = .unknown := by
  intro us de query number
  obtain ⟨_, settled, _, _⟩ := first_installation_decides [.install us]
  obtain ⟨after, _, _, _⟩ := first_installation_decides [.install us, .install de]
  obtain ⟨_, _, before, built⟩ := first_installation_decides []
  refine ⟨(settled rfl [.install de]).1, ?_, ?_, ?_⟩
  · obtain ⟨reply, there, answer⟩ := after (.matchNumber query number) []
    refine there.trans (congrArg some ((answer .none).trans (congrArg Reply.span ?_)))
    decide +kernel
  · refine (before rfl de (by decide +kernel) query _).trans (congrArg Reply.span ?_)
    decide +kernel
  · obtain ⟨kept, there, _, region⟩ := built [] [.region (.install us)] .latin query rfl
    exact ⟨kept, there, region (by simp [Program.asked])⟩

end InstalledRegion

end Keypad
