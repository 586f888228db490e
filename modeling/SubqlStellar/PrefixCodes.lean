import Mathlib.Logic.Function.Basic
import Mathlib.Data.List.Basic
/-!
# PrefixCodes — codes that can be split off the front

A code is prefix-free when what it wrote can be split off the front of any longer text (`PrefixFree`); it is then
injective.  Prefix-free codes compose: one after another (`PrefixFree.pair`), behind and before a fixed text, and as the
elements of a delimited list (`PrefixFree.concat`, `PrefixFree.separated`).
-/
namespace Codes

variable {α β σ : Type}

/-- What the code writes can be split off the front of any longer text. -/
def PrefixFree (code : α → List σ) : Prop :=
  ∀ x y r s, code x ++ r = code y ++ s → x = y ∧ r = s

theorem PrefixFree.injective {code : α → List σ} (h : PrefixFree code) : Function.Injective code := by
  intro x y hxy
  exact (h x y [] [] (congrArg (· ++ []) hxy)).1

theorem PrefixFree.of_reader {code : α → List σ} {read : List σ → Option (α × List σ)}
    (h : ∀ x r, read (code x ++ r) = some (x, r)) : PrefixFree code := by
  intro x y r s heq
  have hread := h x r
  rw [heq, h y s] at hread
  cases hread
  exact ⟨rfl, rfl⟩

theorem PrefixFree.comp {code : β → List σ} (h : PrefixFree code) {f : α → β} (hf : Function.Injective f) :
    PrefixFree (fun x => code (f x)) := by
  intro x y r s heq
  obtain ⟨hxy, hrs⟩ := h _ _ _ _ heq
  exact ⟨hf hxy, hrs⟩

theorem PrefixFree.pair {f : α → List σ} {g : β → List σ} (hf : PrefixFree f) (hg : PrefixFree g) :
    PrefixFree (fun p : α × β => f p.1 ++ g p.2) := by
  rintro ⟨x, y⟩ ⟨x', y'⟩ r s heq
  simp only [List.append_assoc] at heq
  obtain ⟨rfl, htail⟩ := hf _ _ _ _ heq
  obtain ⟨rfl, rfl⟩ := hg _ _ _ _ htail
  exact ⟨rfl, rfl⟩

theorem PrefixFree.append_right {code : α → List σ} (h : PrefixFree code) (text : List σ) :
    PrefixFree (fun x => code x ++ text) := by
  intro x y r s heq
  simp only [List.append_assoc] at heq
  obtain ⟨rfl, htail⟩ := h _ _ _ _ heq
  exact ⟨rfl, List.append_cancel_left htail⟩

theorem PrefixFree.append_left {code : α → List σ} (h : PrefixFree code) (text : List σ) :
    PrefixFree (fun x => text ++ code x) := by
  intro x y r s heq
  simp only [List.append_assoc] at heq
  exact h _ _ _ _ (List.append_cancel_left heq)

theorem PrefixFree.sum {f : α → List σ} {g : β → List σ} (hf : PrefixFree f) (hg : PrefixFree g)
    (hne : ∀ x y r s, f x ++ r ≠ g y ++ s) : PrefixFree (fun z : α ⊕ β => Sum.elim f g z) := by
  rintro (x | y) (x' | y') r s heq
  · obtain ⟨rfl, rfl⟩ := hf _ _ _ _ heq
    exact ⟨rfl, rfl⟩
  · exact absurd heq (hne x y' r s)
  · exact absurd heq.symm (hne x' y s r)
  · obtain ⟨rfl, rfl⟩ := hg _ _ _ _ heq
    exact ⟨rfl, rfl⟩

section Lists

/-- No word of the code starts with `mark`, and none is empty. -/
def StartsOff (code : α → List σ) (mark : σ) : Prop := ∀ x, ∃ c rest, code x = c :: rest ∧ c ≠ mark

def concat (code : α → List σ) (mark : σ) : List α → List σ
  | [] => [mark]
  | x :: l => code x ++ concat code mark l

theorem PrefixFree.concat {code : α → List σ} {mark : σ} (h : PrefixFree code) (hmark : StartsOff code mark) :
    PrefixFree (concat code mark)
  | [], [], r, s, heq => by
    simp only [Codes.concat, List.cons_append, List.nil_append, List.cons.injEq, true_and] at heq
    exact ⟨rfl, heq⟩
  | [], y :: l', r, s, heq => by
    obtain ⟨c, rest, hc, hne⟩ := hmark y
    simp only [Codes.concat, hc, List.cons_append, List.cons.injEq] at heq
    exact absurd heq.1.symm hne
  | x :: l, [], r, s, heq => by
    obtain ⟨c, rest, hc, hne⟩ := hmark x
    simp only [Codes.concat, hc, List.cons_append, List.cons.injEq] at heq
    exact absurd heq.1 hne
  | x :: l, y :: l', r, s, heq => by
    simp only [Codes.concat, List.append_assoc] at heq
    obtain ⟨rfl, htail⟩ := h _ _ _ _ heq
    obtain ⟨rfl, hrs⟩ := PrefixFree.concat h hmark l l' r s htail
    exact ⟨rfl, hrs⟩

def separated (code : α → List σ) (sep mark : σ) : List α → List σ
  | [] => [mark]
  | x :: l => code x ++ concat (fun y => sep :: code y) mark l

theorem PrefixFree.separated {code : α → List σ} {sep mark : σ} (h : PrefixFree code) (hmark : StartsOff code mark)
    (hsep : sep ≠ mark) : PrefixFree (separated code sep mark) := by
  have hrest : PrefixFree (Codes.concat (fun y => sep :: code y) mark) :=
    (h.append_left [sep]).concat (fun x => ⟨sep, code x, rfl, hsep⟩)
  intro l l' r s heq
  match l, l' with
  | [], [] =>
    simp only [Codes.separated, List.cons_append, List.nil_append, List.cons.injEq, true_and] at heq
    exact ⟨rfl, heq⟩
  | [], y :: l' =>
    obtain ⟨c, rest, hc, hne⟩ := hmark y
    simp only [Codes.separated, hc, List.cons_append, List.cons.injEq] at heq
    exact absurd heq.1.symm hne
  | x :: l, [] =>
    obtain ⟨c, rest, hc, hne⟩ := hmark x
    simp only [Codes.separated, hc, List.cons_append, List.cons.injEq] at heq
    exact absurd heq.1 hne
  | x :: l, y :: l' =>
    simp only [Codes.separated, List.append_assoc] at heq
    obtain ⟨rfl, htail⟩ := h _ _ _ _ heq
    obtain ⟨rfl, hrs⟩ := hrest l l' r s htail
    exact ⟨rfl, hrs⟩

end Lists

end Codes
