import Mathlib.Data.List.TakeWhile
/-!
# Decimals — integers as texts

`parseInt` reads an integer off the front of a text, as ECMAScript does in base ten: behind white space and a sign it
takes the digits there are, and where there is none it gives no number.  The text of an integer is read back as the
integer (`parseInt_repr`), so different integers have different texts.  A pattern without digits does not run over a
number in a text (`infix_of_infix_number`).
-/
namespace Decimals

/-- White space and line ends, as ECMAScript trims them. -/
def isStrWhiteSpaceChar (c : Char) : Bool :=
  [0x09, 0x0a, 0x0b, 0x0c, 0x0d, 0x20, 0xa0, 0x1680, 0x2028, 0x2029, 0x202f, 0x205f, 0x3000, 0xfeff].contains c.toNat ||
    (decide (0x2000 ≤ c.toNat) && decide (c.toNat ≤ 0x200a))

def digitsValue (text : List Char) : Option Nat :=
  match text.takeWhile Char.isDigit with
  | [] => none
  | digits => some (Nat.ofDigitChars 10 digits 0)

/-- `parseInt(text, 10)`, where no number is `NaN`. -/
def parseInt (text : String) : Option Int :=
  match text.toList.dropWhile isStrWhiteSpaceChar with
  | '-' :: rest => (digitsValue rest).map (fun n => -(n : Int))
  | '+' :: rest => (digitsValue rest).map (fun n => (n : Int))
  | rest        => (digitsValue rest).map (fun n => (n : Int))

theorem isDigit_toNat {c : Char} (h : c.isDigit = true) : 48 ≤ c.toNat ∧ c.toNat ≤ 57 := by
  simpa [Char.isDigit, UInt32.le_iff_toNat_le] using h

theorem not_whiteSpace_of_isDigit {c : Char} (h : c.isDigit = true) : isStrWhiteSpaceChar c = false := by
  obtain ⟨hlow, hhigh⟩ := isDigit_toNat h
  simp only [isStrWhiteSpaceChar, List.contains_eq_mem, List.mem_cons, List.not_mem_nil, or_false,
    Bool.or_eq_false_iff, Bool.and_eq_false_iff, decide_eq_false_iff_not]
  omega

theorem isDigit_of_mem_repr {n : Nat} {c : Char} (h : c ∈ n.repr.toList) : c.isDigit = true := by
  rw [Nat.toList_repr] at h
  exact Nat.isDigit_of_mem_toDigits (by decide) (by decide) h

theorem digitsValue_repr (n : Nat) : digitsValue n.repr.toList = some n := by
  have hall : n.repr.toList.takeWhile Char.isDigit = n.repr.toList :=
    List.takeWhile_eq_self_iff.2 (fun c hc => isDigit_of_mem_repr hc)
  have hvalue : Nat.ofDigitChars 10 n.repr.toList 0 = n := by
    rw [Nat.toList_repr]
    exact Nat.ofDigitChars_toDigits (by decide) (by decide)
  unfold digitsValue
  rw [hall]
  cases hrepr : n.repr.toList with
  | nil => exact absurd (Nat.toList_repr.symm.trans hrepr) Nat.toDigits_ne_nil
  | cons c digits => exact congrArg some (hrepr ▸ hvalue)

theorem parseInt_ofNat (n : Nat) : parseInt n.repr = some (n : Int) := by
  have hvalue := digitsValue_repr n
  unfold parseInt
  cases hrepr : n.repr.toList with
  | nil => exact absurd (Nat.toList_repr.symm.trans hrepr) Nat.toDigits_ne_nil
  | cons c digits =>
    have hdigit : c.isDigit = true := isDigit_of_mem_repr (n := n) (by rw [hrepr]; exact List.mem_cons_self)
    have htrim : (c :: digits).dropWhile isStrWhiteSpaceChar = c :: digits := by
      rw [List.dropWhile_cons_of_neg (by rw [not_whiteSpace_of_isDigit hdigit]; exact Bool.false_ne_true)]
    rw [hrepr] at hvalue
    rw [htrim]
    split
    · rename_i heq
      cases heq
      cases hdigit
    · rename_i heq
      cases heq
      cases hdigit
    · rw [hvalue]
      rfl

/-- **The text of an integer is read back as the integer.** -/
theorem parseInt_repr : ∀ n : Int, parseInt n.repr = some n
  | .ofNat n   => parseInt_ofNat n
  | .negSucc n => by
    have htext : (Int.negSucc n).repr.toList = '-' :: (n + 1).repr.toList := String.toList_append
    unfold parseInt
    rw [htext]
    show (digitsValue (n + 1).repr.toList).map (fun n => -(n : Int)) = some (Int.negSucc n)
    rw [digitsValue_repr]
    rfl

theorem repr_inj {m n : Int} : m.repr = n.repr ↔ m = n := by
  refine ⟨fun h => ?_, fun h => congrArg Int.repr h⟩
  have hsome : some m = some n := by rw [← parseInt_repr, h, parseInt_repr]
  exact Option.some.inj hsome

/-! ## Numbers in a text -/

theorem prefix_of_prefix_cut {p : List Char} {x : Char} (hx : x ∉ p) : ∀ {a b : List Char}, p <+: a ++ x :: b → p <+: a
  | [], b, h => by
    cases p with
    | nil => exact List.nil_prefix
    | cons c p =>
      obtain ⟨rfl, -⟩ := List.cons_prefix_cons.1 h
      exact absurd List.mem_cons_self hx
  | d :: a, b, h => by
    cases p with
    | nil => exact List.nil_prefix
    | cons c p =>
      obtain ⟨hc, hrest⟩ := List.cons_prefix_cons.1 h
      exact List.cons_prefix_cons.2 ⟨hc, prefix_of_prefix_cut (fun hm => hx (List.mem_cons_of_mem c hm)) hrest⟩

theorem infix_of_infix_cut {p : List Char} {x : Char} (hx : x ∉ p) : ∀ {a b : List Char}, p <:+: a ++ x :: b →
    p <:+: a ∨ p <:+: b
  | [], b, h => by
    rcases List.infix_cons_iff.1 h with h | h
    · exact Or.inl (prefix_of_prefix_cut (a := []) hx h).isInfix
    · exact Or.inr h
  | d :: a, b, h => by
    rcases List.infix_cons_iff.1 h with h | h
    · exact Or.inl (prefix_of_prefix_cut (a := d :: a) hx h).isInfix
    · exact (infix_of_infix_cut hx h).imp_left List.infix_cons

theorem infix_of_infix_digits {p : List Char} (hne : p ≠ []) (hp : ∀ c ∈ p, c.isDigit = false) {b : List Char} :
    ∀ {digits : List Char}, (∀ c ∈ digits, c.isDigit = true) → p <:+: digits ++ b → p <:+: b
  | [], _, h => h
  | d :: digits, hall, h => by
    have hd : d ∉ p := fun hm => absurd ((hp d hm).symm.trans (hall d List.mem_cons_self)) Bool.false_ne_true
    have hcut : p <:+: [] ++ d :: (digits ++ b) := h
    rcases infix_of_infix_cut hd hcut with h | h
    · exact absurd (List.eq_nil_of_infix_nil h) hne
    · exact infix_of_infix_digits hne hp (fun c hc => hall c (List.mem_cons_of_mem d hc)) h

/-- **A pattern without digits that is in a text with a number lies before or behind the number.** -/
theorem infix_of_infix_number {p : List Char} (hne : p ≠ []) (hp : ∀ c ∈ p, c.isDigit = false) {a b : List Char}
    (n : Nat) (h : p <:+: a ++ (n.repr.toList ++ b)) : p <:+: a ∨ p <:+: b := by
  have hall : ∀ c ∈ n.repr.toList, c.isDigit = true := fun c hc => isDigit_of_mem_repr hc
  cases hrepr : n.repr.toList with
  | nil => exact absurd (Nat.toList_repr.symm.trans hrepr) Nat.toDigits_ne_nil
  | cons d digits =>
    rw [hrepr] at h hall
    have hd : d ∉ p := fun hm => absurd ((hp d hm).symm.trans (hall d List.mem_cons_self)) Bool.false_ne_true
    rw [List.cons_append] at h
    exact (infix_of_infix_cut hd h).imp_right
      (infix_of_infix_digits hne hp (fun c hc => hall c (List.mem_cons_of_mem d hc)))

end Decimals
