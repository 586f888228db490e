import Mathlib.Tactic.IntervalCases
import SubqlStellar.PrefixCodes
/-!
# JsonText — `JSON.stringify`

The texts that `JSON.stringify` writes for strings and arrays.  Both are prefix-free codes, so texts built from them are
equal only for equal values.
-/
namespace Json

open Codes (PrefixFree StartsOff)

def hexDigit (n : Nat) : Char := if n < 10 then Char.ofNat ('0'.toNat + n) else Char.ofNat ('a'.toNat + (n - 10))

/-- A character of a string: control characters, quotes and backslashes are escaped. -/
def escape (c : Char) : List Char :=
  match c with
  | '"'    => ['\\', '"']
  | '\\'   => ['\\', '\\']
  | '\x08' => ['\\', 'b']
  | '\x0c' => ['\\', 'f']
  | '\n'   => ['\\', 'n']
  | '\r'   => ['\\', 'r']
  | '\t'   => ['\\', 't']
  | _      =>
    if c.toNat < 32 then ['\\', 'u', '0', '0', hexDigit (c.toNat / 16), hexDigit (c.toNat % 16)]
    else [c]

def string (s : String) : List Char := '"' :: Codes.concat escape '"' s.toList

def array {α : Type} (element : α → List Char) (l : List α) : List Char := '[' :: Codes.separated element ',' ']' l

def hexValue (c : Char) : Nat := if c.toNat < 58 then c.toNat - 48 else c.toNat - 87

def readChar : List Char → Option (Char × List Char)
  | '\\' :: 'u' :: '0' :: '0' :: a :: b :: rest => some (Char.ofNat (16 * hexValue a + hexValue b), rest)
  | '\\' :: '"' :: rest => some ('"', rest)
  | '\\' :: '\\' :: rest => some ('\\', rest)
  | '\\' :: 'b' :: rest => some ('\x08', rest)
  | '\\' :: 'f' :: rest => some ('\x0c', rest)
  | '\\' :: 'n' :: rest => some ('\n', rest)
  | '\\' :: 'r' :: rest => some ('\r', rest)
  | '\\' :: 't' :: rest => some ('\t', rest)
  | c :: rest => some (c, rest)
  | [] => none

theorem readChar_control : ∀ n < 32, ∀ rest : List Char,
    readChar ('\\' :: 'u' :: '0' :: '0' :: hexDigit (n / 16) :: hexDigit (n % 16) :: rest) =
      some (Char.ofNat n, rest) := by
  intro n hn rest
  interval_cases n <;> rfl

theorem readChar_plain {c : Char} (h : c ≠ '\\') (rest : List Char) : readChar (c :: rest) = some (c, rest) := by
  unfold readChar
  split <;> simp_all

theorem readChar_escape (c : Char) (rest : List Char) : readChar (escape c ++ rest) = some (c, rest) := by
  unfold escape
  split
  case h_8 _ hslash _ _ _ _ _ =>
    split
    · rename_i hcontrol
      have hread := readChar_control c.toNat hcontrol rest
      rwa [Char.ofNat_toNat] at hread
    · exact readChar_plain hslash rest
  all_goals rfl

theorem escape_prefixFree : PrefixFree escape := PrefixFree.of_reader readChar_escape

theorem escape_startsOff : StartsOff escape '"' := by
  intro c
  unfold escape
  split
  case h_8 hquote _ _ _ _ _ _ =>
    split
    · exact ⟨_, _, rfl, by decide⟩
    · exact ⟨c, [], rfl, hquote⟩
  all_goals exact ⟨_, _, rfl, by decide⟩

theorem string_prefixFree : PrefixFree string := by
  have hchars : PrefixFree (Codes.concat escape '"') := escape_prefixFree.concat escape_startsOff
  exact (hchars.comp (fun _ _ h => String.toList_injective h)).append_left ['"']

theorem array_prefixFree {α : Type} {element : α → List Char} (h : PrefixFree element)
    (hmark : StartsOff element ']') : PrefixFree (array element) :=
  (h.separated hmark (by decide)).append_left ['[']

end Json
