import Mathlib.Data.List.Basic
import Mathlib.Data.List.Count
import Mathlib.Data.List.Range
import Mathlib.Logic.Function.Iterate
/-!
# Cells — a store that grows at its end

A store is a list of cells and a reference is a place in it.  What is allocated one after the other takes consecutive
places, so a stretch of references reads the stretch of cells they were given (`readAll_range'`), and updating it maps
that stretch (`updateAll_range'`).
-/
namespace Cells

abbrev Ref := Nat

variable {α β : Type}

def readAll (refs : List Ref) (cells : List α) : List α := refs.filterMap (fun ref => cells[ref]?)

def updateAll (f : α → α) (refs : List Ref) (cells : List α) : List α :=
  refs.foldl (fun cells ref => cells.modify ref f) cells

@[simp] theorem readAll_nil (cells : List α) : readAll [] cells = [] := rfl

@[simp] theorem readAll_append (refs refs' : List Ref) (cells : List α) :
    readAll (refs ++ refs') cells = readAll refs cells ++ readAll refs' cells := List.filterMap_append

theorem readAll_flatMap (f : β → List Ref) (l : List β) (cells : List α) :
    readAll (l.flatMap f) cells = l.flatMap (fun b => readAll (f b) cells) := by
  induction l with
  | nil => rfl
  | cons b l ih => rw [List.flatMap_cons, List.flatMap_cons, readAll_append, ih]

theorem mem_readAll {refs : List Ref} {cells : List α} {x : α} :
    x ∈ readAll refs cells ↔ ∃ ref ∈ refs, cells[ref]? = some x := List.mem_filterMap

theorem readAll_range' : ∀ (before cells after : List α),
    readAll (List.range' before.length cells.length) (before ++ cells ++ after) = cells
  | before, [], after => rfl
  | before, x :: cells, after => by
    have hx : (before ++ x :: cells ++ after)[before.length]? = some x := by simp
    have hrest := readAll_range' (before ++ [x]) cells after
    rw [List.length_append, List.length_singleton, List.append_assoc before [x] cells, List.singleton_append] at hrest
    unfold readAll at hrest ⊢
    rw [List.length_cons, List.range'_succ, List.filterMap_cons, hx, hrest]

theorem readAll_all {n : Nat} {cells : List α} (h : cells.length = n) : readAll (List.range' 0 n) cells = cells := by
  have hread := readAll_range' [] cells []
  rwa [List.append_nil, List.nil_append, List.length_nil, h] at hread

theorem map_readAll (f : α → β) (refs : List Ref) (cells : List α) :
    (readAll refs cells).map f = readAll refs (cells.map f) := by
  unfold readAll
  rw [List.map_filterMap]
  apply List.filterMap_congr
  intro ref _
  rw [List.getElem?_map]

@[simp] theorem updateAll_nil (f : α → α) (cells : List α) : updateAll f [] cells = cells := rfl

theorem updateAll_cons (f : α → α) (ref : Ref) (refs : List Ref) (cells : List α) :
    updateAll f (ref :: refs) cells = updateAll f refs (cells.modify ref f) := rfl

theorem updateAll_append (f : α → α) (refs refs' : List Ref) (cells : List α) :
    updateAll f (refs ++ refs') cells = updateAll f refs' (updateAll f refs cells) := List.foldl_append

theorem modify_middle (f : α → α) (before after : List α) (x : α) :
    (before ++ x :: after).modify before.length f = before ++ f x :: after := by
  induction before with
  | nil => rfl
  | cons y before ih => simpa using ih

theorem updateAll_range' (f : α → α) : ∀ (before cells after : List α),
    updateAll f (List.range' before.length cells.length) (before ++ cells ++ after) = before ++ cells.map f ++ after
  | before, [], after => rfl
  | before, x :: cells, after => by
    have hrest := updateAll_range' f (before ++ [f x]) cells after
    rw [List.length_append, List.length_singleton] at hrest
    rw [List.length_cons, List.range'_succ, updateAll_cons, List.append_assoc, List.cons_append, modify_middle]
    simpa using hrest

theorem getElem?_updateAll (f : α → α) (i : Ref) : ∀ (refs : List Ref) (cells : List α),
    (updateAll f refs cells)[i]? = (cells[i]?).map f^[refs.count i]
  | [], cells => by simp
  | ref :: refs, cells => by
    rw [updateAll_cons, getElem?_updateAll f i refs, List.getElem?_modify]
    by_cases hi : ref = i
    · subst hi
      simp [Function.iterate_succ]
    · simp [List.count_cons_of_ne hi, hi]

theorem updateAll_of_mem {f : α → α} {refs : List Ref} {cells : List α} {i : Ref} {y : α} (hi : i ∈ refs)
    (h : (updateAll f refs cells)[i]? = some y) : ∃ x, y = f x := by
  rw [getElem?_updateAll] at h
  obtain ⟨x, _, rfl⟩ := Option.map_eq_some_iff.1 h
  obtain ⟨n, hn⟩ := Nat.exists_eq_succ_of_ne_zero (Nat.pos_iff_ne_zero.1 (List.count_pos_iff.2 hi))
  rw [hn, Function.iterate_succ_apply']
  exact ⟨_, rfl⟩

theorem updateAll_keeps {P : α → Prop} {f : α → α} (hf : ∀ x, P x → P (f x)) {refs : List Ref} {cells : List α}
    {i : Ref} {y : α} (hcell : ∀ x, cells[i]? = some x → P x) (h : (updateAll f refs cells)[i]? = some y) : P y := by
  rw [getElem?_updateAll] at h
  obtain ⟨x, hx, rfl⟩ := Option.map_eq_some_iff.1 h
  exact Function.Iterate.rec P (hcell x hx) hf _

theorem map_updateAll {f : α → α} {part : α → β} (h : ∀ x, part (f x) = part x) (refs : List Ref) (cells : List α) :
    (updateAll f refs cells).map part = cells.map part := by
  apply List.ext_getElem?
  intro i
  rw [List.getElem?_map, List.getElem?_map, getElem?_updateAll, Option.map_map]
  congr 1
  funext x
  exact Function.Iterate.rec (fun y => part y = part x) rfl (fun y hy => (h y).trans hy) _

theorem length_updateAll (f : α → α) : ∀ (refs : List Ref) (cells : List α),
    (updateAll f refs cells).length = cells.length
  | [], _ => rfl
  | ref :: refs, cells => by rw [updateAll_cons, length_updateAll f refs, List.length_modify]

end Cells
