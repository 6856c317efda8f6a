import Std.Data.TreeSet

/-!
The memo of a search that backtracks: which states it entered and which of them led nowhere. Both
are logs with the latest state first. The failed states are also kept in order, so that asking for
one is quick; the log and the ordered set hold the same states.
-/
namespace Keypad.Name

/-- A state after an initial: the next word to look at and how many keys of the query are used. -/
structure State where
  word : Nat
  used : Nat
  deriving DecidableEq, Repr

namespace State

/-- By word, and for one word by the keys used. -/
def compare : State → State → Ordering := compareLex (compareOn State.word) (compareOn State.used)

instance : Std.TransCmp compare := inferInstanceAs (Std.TransCmp (compareLex _ _))

theorem compare_eq_iff {a b : State} : compare a b = .eq ↔ a = b := by
  cases a
  cases b
  simp [compare, compareLex, compareOn, Ordering.then_eq_eq]

end State

structure Memo where
  opened : List State
  failed : List State
  /-- The states that led nowhere, in order. -/
  lookup : Std.TreeSet State State.compare
  mem_lookup : ∀ state, state ∈ lookup ↔ state ∈ failed

namespace Memo

def empty : Memo := ⟨[], [], ∅, by simp⟩

def enter (state : State) (memo : Memo) : Memo := { memo with opened := state :: memo.opened }

def giveUp (state : State) (memo : Memo) : Memo :=
  { opened := memo.opened
    failed := state :: memo.failed
    lookup := memo.lookup.insert state
    mem_lookup := fun other => by
      rw [Std.TreeSet.mem_insert, State.compare_eq_iff, memo.mem_lookup, List.mem_cons, eq_comm] }

def hasFailed (memo : Memo) (state : State) : Bool := memo.lookup.contains state

theorem hasFailed_iff {memo : Memo} {state : State} :
    memo.hasFailed state = true ↔ state ∈ memo.failed :=
  memo.mem_lookup state

end Memo
end Keypad.Name
