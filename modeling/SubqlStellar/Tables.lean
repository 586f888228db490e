import Mathlib.Data.List.AList
import SubqlStellar.KeyedLists
/-!
# Tables — keyed tables with one entry per key

A `Table` is an association list with distinct keys.  `groupOn` files the elements of a list under their keys, one
after the other, and its lookup is the list's block (`at_groupOn`).  `weight` adds up a measure of the entries.
-/
namespace Keyed

/-- A table: at most one entry for each key. -/
abbrev Table (κ β : Type) : Type := AList (fun _ : κ => β)

variable {α β κ : Type} [DecidableEq κ]

namespace Table

theorem lookup_insert_eq (t : Table κ β) (k k' : κ) (b : β) :
    AList.lookup k' (AList.insert k b t) = if k' = k then some b else AList.lookup k' t := by
  by_cases h : k' = k
  · subst h
    rw [AList.lookup_insert, if_pos rfl]
  · rw [AList.lookup_insert_ne h, if_neg h]

theorem lookup_erase_eq (t : Table κ β) (k k' : κ) :
    AList.lookup k' (AList.erase k t) = if k' = k then none else AList.lookup k' t := by
  by_cases h : k' = k
  · subst h
    rw [AList.lookup_erase, if_pos rfl]
  · rw [AList.lookup_erase_ne h, if_neg h]

/-- What all entries meet, they meet without one of them. -/
theorem forall_lookup_erase {P : κ → β → Prop} {t : Table κ β} (h : ∀ k b, AList.lookup k t = some b → P k b) (k : κ) :
    ∀ k' b, AList.lookup k' (AList.erase k t) = some b → P k' b := by
  intro k' b hb
  rw [lookup_erase_eq] at hb
  split at hb
  · cases hb
  · exact h k' b hb

def at_ (t : Table κ (List α)) (k : κ) : List α := (AList.lookup k t).getD []

def push (t : Table κ (List α)) (k : κ) (x : α) : Table κ (List α) := AList.insert k (t.at_ k ++ [x]) t

theorem at_push (t : Table κ (List α)) (k k' : κ) (x : α) :
    (t.push k x).at_ k' = if k = k' then t.at_ k' ++ [x] else t.at_ k' := by
  unfold push
  rw [at_, lookup_insert_eq]
  by_cases h : k' = k
  · subst h; simp
  · simp [h, Ne.symm h, at_]

def weight (f : β → Nat) (t : Table κ β) : Nat := total (fun entry => f entry.2) t.entries

theorem total_kerase (f : β → Nat) (k : κ) : ∀ entries : List (Sigma (fun _ : κ => β)),
    total (fun entry => f entry.2) (entries.kerase k) + ((entries.dlookup k).elim 0 f) =
      total (fun entry => f entry.2) entries
  | [] => rfl
  | ⟨k', b⟩ :: entries => by
    by_cases hk : k = k'
    · subst hk
      have hkerase : List.kerase k (⟨k, b⟩ :: entries) = entries := List.kerase_cons_eq rfl
      rw [hkerase, List.dlookup_cons_eq]
      exact Nat.add_comm _ _
    · have ih := total_kerase f k entries
      have hkerase : List.kerase k (⟨k', b⟩ :: entries) = ⟨k', b⟩ :: entries.kerase k := List.kerase_cons_ne hk
      rw [hkerase, List.dlookup_cons_ne _ _ hk]
      show f b + total _ (entries.kerase k) + _ = f b + total _ entries
      rw [Nat.add_assoc, ih]

theorem weight_erase (f : β → Nat) (t : Table κ β) (k : κ) :
    weight f (AList.erase k t) + ((AList.lookup k t).elim 0 f) = weight f t := total_kerase f k t.entries

theorem weight_insert (f : β → Nat) (t : Table κ β) (k : κ) (b : β) :
    weight f (AList.insert k b t) + ((AList.lookup k t).elim 0 f) = f b + weight f t := by
  have herase := weight_erase f t k
  have hinsert : weight f (AList.insert k b t) = f b + weight f (AList.erase k t) := rfl
  omega

theorem weight_le {f : β → Nat} {g : κ → Nat} {t : Table κ β}
    (h : ∀ k b, AList.lookup k t = some b → f b ≤ g k) : weight f t ≤ total g t.keys := by
  have hkeys : total g t.keys = total (fun entry => g entry.1) t.entries := total_map g Sigma.fst t.entries
  rw [hkeys]
  exact total_le (fun entry he => h entry.1 entry.2 (AList.mem_lookup_iff.2 he))

theorem le_weight {f : β → Nat} {g : κ → Nat} {t : Table κ β}
    (h : ∀ k b, AList.lookup k t = some b → g k ≤ f b) : total g t.keys ≤ weight f t := by
  have hkeys : total g t.keys = total (fun entry => g entry.1) t.entries := total_map g Sigma.fst t.entries
  rw [hkeys]
  exact total_le (fun entry he => h entry.1 entry.2 (AList.mem_lookup_iff.2 he))

end Table

def groupOn (key : α → κ) (l : List α) : Table κ (List α) := l.foldl (fun t x => t.push (key x) x) ∅

theorem at_foldl_push (key : α → κ) (k : κ) : ∀ (l : List α) (t : Table κ (List α)),
    (l.foldl (fun t x => t.push (key x) x) t).at_ k = t.at_ k ++ block key k l
  | [], t => by simp
  | x :: l, t => by
    rw [List.foldl_cons, at_foldl_push key k l, Table.at_push, block_cons]
    by_cases h : key x = k
    · simp [h]
    · simp [h]

theorem at_groupOn (key : α → κ) (k : κ) (l : List α) : (groupOn key l).at_ k = block key k l := by
  unfold groupOn
  rw [at_foldl_push]
  simp [Table.at_]

end Keyed
