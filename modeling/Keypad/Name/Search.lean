import Keypad.Name.Memo
import Keypad.Name.Words
import Keypad.Policy

/-!
Search for a query in a name. A query reads contiguously from the start of some word, or it takes
initials of words in the windows, left to right, and then reads on along the chain of the words in
the windows. The first reading in a fixed order wins: whole words before initials, earlier words
before later ones, shorter initials before longer ones.

States of the second kind that led nowhere are remembered and never opened again. The memo is an
explicit value, so that what the search opened can be asked afterwards.
-/
namespace Keypad.Name

/-- Puts the span of a word in front of the spans read in the words after it. Neighbouring words
share one span, separators included. -/
def attach (word : Word) (later : List Word) (spans : List Span) : List Span :=
  match later, spans with
  | next :: _, span :: more =>
    if next.index = word.index + 1 then ⟨word.start, span.stop⟩ :: more
    else word.span :: span :: more
  | _, _ => word.span :: spans

/-- Reads all of a query through the given words, from the start of the first one. -/
def read : List Word → Digits → Option (List Span)
  | [], _ => none
  | word :: later, query =>
    if query.isPrefixOf word.keys then
      some [word.initial query.length]
    else if word.keys.isPrefixOf query then
      (read later (query.drop word.keys.length)).map (attach word later)
    else
      none

/-- Reads a query from the leftmost word from which it can be read. -/
def readAnywhere : List Word → Digits → Option (List Span)
  | [], _ => none
  | word :: later, query => (read (word :: later) query).or (readAnywhere later query)

/-- A step of the search: it may find spans, and it adds to the memo. -/
abbrev Attempt := Memo → Option (List Span) × Memo

/-- Tries the choices in order until one succeeds. The memo is handed from one to the next. -/
def firstOf (choices : List Nat) (attempt : Nat → Attempt) : Attempt := fun memo =>
  match choices with
  | [] => (none, memo)
  | choice :: more =>
    match attempt choice memo with
    | (some spans, memo) => (some spans, memo)
    | (none, memo) => firstOf more attempt memo

/-- How many keys two sequences share at the front. -/
def agreement : Digits → Digits → Nat
  | a :: as, b :: bs => if a = b then agreement as bs + 1 else 0
  | _, _ => 0

/-- Whether a word belongs to the chain that may be read after initials: the words in the windows
and the last word. -/
def inChain (policy : Policy) (count : Nat) (word : Word) : Bool :=
  word.index + 1 == count || policy.allowsInitial word.index count

/-- The lengths an initial of `word` may have when `query` has to be typed from there on. -/
def initialLengths (policy : Policy) (word : Word) (query : Digits) : List Nat :=
  List.range' 1 (min policy.initialLimit (agreement word.keys query))

/-- Goes on after an initial. `later` are the words not yet passed, starting with word number
`next`, and `used` keys of the query are spent. The rest of the query is read along the chain, or
`further` initials are taken. -/
def afterInitial (policy : Policy) (count : Nat) (query : Digits) (later : List Word)
    (next used : Nat) (further : Attempt) : Attempt := fun memo =>
  if used = query.length then
    (some [], memo)
  else if memo.hasFailed ⟨next, used⟩ then
    (none, memo)
  else
    let memo := memo.enter ⟨next, used⟩
    match readAnywhere (later.filter (inChain policy count)) (query.drop used) with
    | some spans => (some spans, memo)
    | none =>
      match further memo with
      | (some spans, memo) => (some spans, memo)
      | (none, memo) => (none, memo.giveUp ⟨next, used⟩)

/-- Takes an initial of one of the given words, which end with the last word of the name, and goes
on after it. The last word has no initial of its own: nothing would follow it. -/
def takeInitials (policy : Policy) (count : Nat) (query : Digits) :
    List Word → Nat → Attempt
  | [], _, memo => (none, memo)
  | [_], _, memo => (none, memo)
  | word :: next :: later, used, memo =>
    let lengths :=
      if policy.allowsInitial word.index count then
        initialLengths policy word (query.drop used)
      else []
    let attempt := fun length memo =>
      let (found, memo) :=
        afterInitial policy count query (next :: later) next.index (used + length)
          (takeInitials policy count query (next :: later) (used + length)) memo
      (found.map (word.initial length :: ·), memo)
    match firstOf lengths attempt memo with
    | (some spans, memo) => (some spans, memo)
    | (none, memo) => takeInitials policy count query (next :: later) used memo

/-- The search through the words of a name, with the memo it ends in. -/
def searchWords (policy : Policy) (words : List Word) (query : Digits) :
    Option (List Span) × Memo :=
  match readAnywhere words query with
  | some spans => (some spans, .empty)
  | none =>
    if policy.allowInitials then
      takeInitials policy words.length query words 0 .empty
    else
      (none, .empty)

/-- The spans of a name that a query highlights. An empty query highlights nothing, and neither does
one that is longer than the name. -/
def search (layout : Layout) (policy : Policy) (name : Text) (query : Digits) :
    Option (List Span) :=
  if query.isEmpty ∨ name.length < query.length then none
  else (searchWords policy (words layout name) query).1

end Keypad.Name
