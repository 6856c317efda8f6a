import Keypad.Layout
import Keypad.Span

/-!
Words of a name: its maximal runs of dialable characters, with the place each run starts at and the
keys it is typed with. A run is found from its last character backwards, so that a character either
extends the run that starts right after it or opens one of its own.
-/
namespace Keypad.Name

/-- A run of dialable characters: where it starts and how it is typed, one key a character. -/
structure Run where
  start : Nat
  keys : Digits
  deriving DecidableEq, Repr

namespace Run

/-- Puts a key at `place` in front of the runs that lie after it. -/
def extend (place : Nat) (key : Char) : List Run → List Run
  | [] => [⟨place, [key]⟩]
  | run :: later =>
    if run.start = place + 1 then ⟨place, key :: run.keys⟩ :: later
    else ⟨place, [key]⟩ :: run :: later

/-- The runs of a text whose first character stands at `place`. -/
def ofText (layout : Layout) : Nat → Text → List Run
  | _, [] => []
  | place, c :: rest =>
    if layout.isDialable (layout.normalize c) then
      extend place (layout.digitChar (layout.normalize c)) (ofText layout (place + 1) rest)
    else
      ofText layout (place + 1) rest

end Run

/-- A run together with its rank among the runs of the name. -/
structure Word extends Run where
  index : Nat
  deriving DecidableEq, Repr

namespace Word

def stop (word : Word) : Nat := word.start + word.keys.length

def span (word : Word) : Span := ⟨word.start, word.stop⟩

def initial (word : Word) (length : Nat) : Span := ⟨word.start, word.start + length⟩

end Word

/-- The words of a name, from left to right and numbered from zero. -/
def words (layout : Layout) (name : Text) : List Word :=
  (Run.ofText layout 0 name).mapIdx fun index run => ⟨run, index⟩

end Keypad.Name
