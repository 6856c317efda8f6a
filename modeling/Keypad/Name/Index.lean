import Keypad.Layout
import Keypad.Policy

/-!
The tokens of a name and its index. The tokens are its maximal stretches of characters that have a
key, each spelled in numerals. The index lists the key sequences that the name is stored under; any
beginning of an entry is a way to type the name. Two families are listed. The chains of whole tokens
come first, each running to the end of the name. After them come chains in front of which initials
stand.
-/
namespace Keypad.Name

/-- Puts the token at the front before the later ones, unless it is empty. -/
def close (front : Digits) (later : List Digits) : List Digits :=
  if front.isEmpty then later else front :: later

/-- Cuts a sequence of keys where one is missing: the token at the very front, which is empty when
the first key is missing, and the tokens after it. -/
def cut : List (Option Key) → Digits × List Digits
  | [] => ([], [])
  | some key :: rest =>
    let (front, later) := cut rest
    (key.char :: front, later)
  | none :: rest =>
    let (front, later) := cut rest
    ([], close front later)

def tokens (layout : Layout) (name : Text) : List Digits :=
  let (front, later) := cut (name.map fun c => layout.key? (layout.normalize c))
  close front later

/-- The chains of whole tokens that run to the end of the name, shortest first. The tokens are
given from the last one backwards, and `chain` is what has been put together so far. -/
def fullChains (chain : Digits) : List Digits → List Digits
  | [] => []
  | token :: earlier => (token ++ chain) :: fullChains (token ++ chain) earlier

/-- The non-empty beginnings of a token with at most `limit` keys, shortest first. -/
def beginnings (limit : Nat) (token : Digits) : List Digits :=
  (List.range (min limit token.length)).map fun n => token.take (n + 1)

/-- The chains of the words in the windows while a name is walked from its end. `longest` is the
last of `plain`. -/
structure Chains where
  /-- Chains of whole tokens. -/
  plain : List Digits
  longest : Digits
  /-- Chains with initials in front. -/
  abbreviated : List Digits

namespace Chains

def ofLast (token : Digits) : Chains := ⟨[token], token, []⟩

/-- Lets one more token of a window stand in front: by its initials before every chain there is,
and as a whole before the longest plain one. -/
def grow (limit : Nat) (chains : Chains) (token : Digits) : Chains :=
  { plain := chains.plain ++ [token ++ chains.longest]
    longest := token ++ chains.longest
    abbreviated := chains.abbreviated ++
      (beginnings limit token).flatMap fun initial =>
        (chains.plain ++ chains.abbreviated).map (initial ++ ·) }

end Chains

/-- The chains with initials in front, for tokens given from the last one backwards. -/
def initialChains (policy : Policy) : List Digits → List Digits
  | [] => []
  | last :: earlier =>
    let count := earlier.length + 1
    let inWindow := earlier.zipIdx.filter fun (_, back) =>
      policy.allowsInitial (count - 2 - back) count
    ((inWindow.map (·.1)).foldl (Chains.grow policy.initialLimit) (.ofLast last)).abbreviated

def index (layout : Layout) (policy : Policy) (name : Text) : List Digits :=
  let backwards := (tokens layout name).reverse
  fullChains [] backwards ++
    if policy.allowInitials then initialChains policy backwards else []

end Keypad.Name
