import Keypad.Builtin.Json.Source

/-!
Strings of JSON between their quotes. Writing escapes the quote, the backslash and the control
characters and nothing else. Reading takes a string apart into pieces; a piece is a character, a
code unit given by an escape, or a stray byte. Two units that form a pair stand for one character. A
string that is read must hold characters only; one that is skipped may hold anything.
-/
namespace Keypad.Json.Quoted

/-! ## Writing -/

def hexChar (n : Nat) : Char := if n < 10 then Char.ofNat (0x30 + n) else Char.ofNat (0x57 + n)

def escape (c : Char) : Text :=
  if c = '"' then ['\\', '"']
  else if c = '\\' then ['\\', '\\']
  else if c = '\x08' then ['\\', 'b']
  else if c = '\x0c' then ['\\', 'f']
  else if c = '\n' then ['\\', 'n']
  else if c = '\x0d' then ['\\', 'r']
  else if c = '\t' then ['\\', 't']
  else if c.toNat < 0x20 then
    ['\\', 'u', '0', '0', hexChar (c.toNat / 16), hexChar (c.toNat % 16)]
  else [c]

def write (text : Text) : Text := '"' :: text.flatMap escape ++ ['"']

/-! ## Reading -/

inductive Piece where
  | close
  | char (c : Char)
  | unit (code : Nat)
  | stray

def shortEscape? (c : Char) : Option Char :=
  if c = '"' then some '"'
  else if c = '\\' then some '\\'
  else if c = '/' then some '/'
  else if c = 'b' then some '\x08'
  else if c = 'f' then some '\x0c'
  else if c = 'n' then some '\n'
  else if c = 'r' then some '\x0d'
  else if c = 't' then some '\t'
  else none

def hexValue? (c : Char) : Option Nat :=
  if c.isDigit then some (c.toNat - 0x30)
  else if 'a' ≤ c ∧ c ≤ 'f' then some (c.toNat - 0x57)
  else if 'A' ≤ c ∧ c ≤ 'F' then some (c.toNat - 0x37)
  else none

/-- The fault of a source that holds fewer than `bytes` bytes. -/
def shortage? : Nat → Source → Option Fault
  | 0, _ => none
  | _ + 1, .stop ending => some ending.fault
  | bytes + 1, .char c rest => shortage? (bytes + 1 - c.utf8Size) rest
  | bytes + 1, .stray _ rest => shortage? bytes rest

/-- Four hexadecimal digits. Whether four bytes are there is judged before what they are. -/
def codeUnit (source : Source) : Except Fault (Scanned Nat source) :=
  match shortage? 4 source with
  | some fault => .error fault
  | none =>
    match source with
    | .char a (.char b (.char c (.char d rest))) =>
      match hexValue? a, hexValue? b, hexValue? c, hexValue? d with
      | some a', some b', some c', some d' =>
        let found := Scanned.of (a' * 4096 + b' * 256 + c' * 16 + d') d (.all rest)
        .ok (((found.behind c).behind b).behind a)
      | _, _, _, _ => .error .malformed
    | _ => .error .malformed

def escaped : (source : Source) → Except Fault (Scanned Piece source)
  | .stop ending => .error ending.fault
  | .stray _ _ => .error .malformed
  | .char c rest =>
    if c = 'u' then (codeUnit rest).map fun found => (found.map Piece.unit).behind c
    else
      match shortEscape? c with
      | some d => .ok (.of (.char d) c (.all rest))
      | none => .error .malformed

/-- The next piece of a string whose opening quote has been taken. -/
def piece : (source : Source) → Except Fault (Scanned Piece source)
  | .stop ending => .error ending.fault
  | .stray _ rest => .ok ⟨.stray, rest, Nat.lt_succ_self rest.length⟩
  | .char c rest =>
    if c = '"' then .ok (.of .close c (.all rest))
    else if c = '\\' then (escaped rest).map (·.behind c)
    else if c.toNat < 0x20 then .error .malformed
    else .ok (.of (.char c) c (.all rest))

/-- Whether a code unit is the first of a pair. -/
def isHigh (code : Nat) : Bool := 0xD800 ≤ code && code < 0xDC00

/-- Whether a code unit is the second of a pair. -/
def isLow (code : Nat) : Bool := 0xDC00 ≤ code && code < 0xE000

/-- The character of a pair of code units. -/
def pair (high low : Nat) : Char :=
  Char.ofNat ((high - 0xD800) * 0x400 + (low - 0xDC00) + 0x10000)

/-- Reads a string up to and with its closing quote. A stray byte is found out at that quote. -/
def read (source : Source) : Except Fault (Scanned Text source) :=
  match piece source with
  | .error fault => .error fault
  | .ok ⟨.close, rest, lt⟩ => .ok ⟨[], rest, lt⟩
  | .ok ⟨.char c, rest, lt⟩ => (read rest).map fun found => (found.map (c :: ·)).after lt
  | .ok ⟨.stray, rest, _⟩ =>
    match read rest with
    | .error fault => .error fault
    | .ok _ => .error .malformed
  | .ok ⟨.unit code, rest, lt⟩ =>
    if isLow code then .error .malformed
    else if isHigh code then
      match piece rest with
      | .error fault => .error fault
      | .ok ⟨.unit second, later, nearer⟩ =>
        if isLow second then
          (read later).map fun found =>
            ((found.map (pair code second :: ·)).after nearer).after lt
        else .error .malformed
      | .ok _ => .error .malformed
    else (read rest).map fun found => (found.map (Char.ofNat code :: ·)).after lt
  termination_by source.length

/-- Passes over a string up to and with its closing quote. -/
def skip (source : Source) : Except Fault (Scanned Unit source) :=
  match piece source with
  | .error fault => .error fault
  | .ok ⟨.close, rest, lt⟩ => .ok ⟨(), rest, lt⟩
  | .ok ⟨_, rest, lt⟩ => (skip rest).map (·.after lt)
  termination_by source.length

end Keypad.Json.Quoted
