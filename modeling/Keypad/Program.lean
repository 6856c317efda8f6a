import Keypad.Region.Session

/-!
A running program: the installed region, and the matchers it has built and keeps, the oldest one
first. A program uses the installed region, builds further matchers and turns to one of those it
keeps, in any order.
-/
namespace Keypad

structure Program where
  installed : InstalledRegion
  matchers : List Matcher

namespace Program

def start : Program := ⟨.none, []⟩

inductive Step where
  | region (step : InstalledRegion.Step)
  | build (layout : Layout) (query : Text)
  /-- A step of the matcher that was built after `rank` others. -/
  | ask (rank : Nat) (step : Matcher.Step)

inductive Reply where
  | region (reply : InstalledRegion.Reply)
  | built
  | matcher (reply : Matcher.Reply)
  | unknownMatcher
  deriving DecidableEq

def apply (program : Program) : Step → Reply × Program
  | .region step =>
    let (reply, installed) := program.installed.apply step
    (.region reply, { program with installed := installed })
  | .build layout query =>
    (.built, { program with
      matchers := program.matchers ++ [Matcher.new program.installed layout query] })
  | .ask rank step =>
    match program.matchers[rank]? with
    | some matcher =>
      let (reply, next) := matcher.apply step
      (.matcher reply, { program with matchers := program.matchers.set rank next })
    | none => (.unknownMatcher, program)

/-- The program that some steps leave. -/
def run (program : Program) (steps : List Step) : Program :=
  steps.foldl (fun program step => (program.apply step).2) program

end Program
end Keypad
