import Keypad.Builtin
import Keypad.Proofs.Json.Codec

/-!
The compact form of the builtin codec is the one that the grammar has. Each character is written in a
form that the grammar gives it: by a letter behind a backslash, by its code point, or as itself.
-/
namespace Keypad.Json

open Codec (Escaped)

namespace Quoted

theorem hexChar_mem {n : Nat} (h : n < 16) : (hexChar n, n) ∈ Grammar.hexDigits := by
  have all : ∀ n : Fin 16, (hexChar n, n.val) ∈ Grammar.hexDigits := by decide
  exact all ⟨n, h⟩

theorem codeUnit_control {n : Nat} (h : n < 0x20) :
    Grammar.CodeUnit ['0', '0', hexChar (n / 16), hexChar (n % 16)] n := by
  have zero : ('0', 0) ∈ Grammar.hexDigits := by decide
  have high : (hexChar (n / 16), n / 16) ∈ Grammar.hexDigits := hexChar_mem (by omega)
  have low : (hexChar (n % 16), n % 16) ∈ Grammar.hexDigits := hexChar_mem (by omega)
  have unit := Grammar.CodeUnit.digits zero zero high low
  have value : 0 * 4096 + 0 * 256 + n / 16 * 16 + n % 16 = n := by omega
  rwa [value] at unit

theorem escaped_escape (c : Char) : Escaped c (escape c) := by
  by_cases short : c ∈ ['"', '\\', '\x08', '\x0c', '\n', '\x0d', '\t']
  · simp only [List.mem_cons, List.not_mem_nil, or_false] at short
    rcases short with rfl | rfl | rfl | rfl | rfl | rfl | rfl <;> exact .short (by decide)
  · simp only [List.mem_cons, List.not_mem_nil, or_false, not_or] at short
    by_cases control : c.toNat < 0x20
    · have written : escape c =
          ['\\', 'u', '0', '0', hexChar (c.toNat / 16), hexChar (c.toNat % 16)] := by
        simp [escape, short, control]
      rw [written]
      exact .unit (codeUnit_control control) control
    · have written : escape c = [c] := by simp [escape, short, control]
      rw [written]
      exact .plain ⟨Nat.not_lt.mp control, short.1, short.2.1⟩

end Quoted

namespace Value

theorem compactElements_eq (elements : List Value) :
    compactElements elements = Text.join [','] (elements.map compact) := by
  induction elements with
  | nil => rfl
  | cons value more ih =>
      cases more with
      | nil => rfl
      | cons next more =>
          rw [compactElements, ih]
          simp [Text.join]

theorem compactMembers_eq (members : List (Text × Value)) :
    compactMembers members = Text.join [','] (members.map compactMember) := by
  induction members with
  | nil => rfl
  | cons member more ih =>
      cases more with
      | nil => rfl
      | cons next more =>
          rw [compactMembers, ih]
          simp [Text.join]

end Value

theorem Codec.builtin_writesCompact : Codec.builtin.WritesCompact where
  null := rfl
  bool _ := rfl
  count _ := rfl
  text text := by
    refine ⟨text.map Quoted.escape, ?_, ?_⟩
    · rw [List.forall₂_map_right_iff, List.forall₂_same]
      exact fun c _ => Quoted.escaped_escape c
    · rw [← List.flatMap_def]
      rfl
  array elements := by
    change Value.compact (.array elements) = _
    rw [Value.compact, Value.compactElements_eq]
    rfl
  object members := by
    have member : Value.compactMember = fun member =>
        Value.compact (.text member.1) ++ ':' :: Value.compact member.2 :=
      funext fun ⟨_, _⟩ => rfl
    change Value.compact (.object members) = _
    rw [Value.compact, Value.compactMembers_eq, member]
    rfl

end Keypad.Json
