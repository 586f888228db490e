import Mathlib.Order.Lattice
import Mathlib.Data.List.Basic
import Mathlib.Data.List.Nodup
/-!
# KeyedLists — lists sorted by a key, their blocks, and merging by identity

A list whose elements carry a key falls into **blocks**, one per key (`block`).  On a list sorted by its keys a block
is a contiguous piece, so a window `w` of a list `A ++ w ++ B` holds every block whole that neither runs on from `A` nor
runs on into `B` (`whole_window`).  `mergeOn` appends the elements a list does not hold yet, compared by an identity.
`flatMap_block` puts a list grouped in the order of its keys together again from its blocks.
-/
namespace Keyed

variable {α κ ι : Type}

def block [DecidableEq κ] (key : α → κ) (k : κ) (l : List α) : List α := l.filter (fun x => decide (key x = k))

section Blocks

variable [DecidableEq κ] (key : α → κ)

@[simp] theorem block_nil (k : κ) : block key k [] = [] := rfl

theorem block_cons (k : κ) (x : α) (l : List α) :
    block key k (x :: l) = if key x = k then x :: block key k l else block key k l := by
  simp [block, List.filter_cons]

@[simp] theorem block_append (k : κ) (l m : List α) : block key k (l ++ m) = block key k l ++ block key k m :=
  List.filter_append _ _

theorem mem_block {k : κ} {l : List α} {x : α} : x ∈ block key k l ↔ x ∈ l ∧ key x = k := by
  simp [block]

theorem block_eq_nil {k : κ} {l : List α} : block key k l = [] ↔ ∀ x ∈ l, key x ≠ k := by
  simp [block, List.filter_eq_nil_iff]

theorem block_eq_self {k : κ} {l : List α} : block key k l = l ↔ ∀ x ∈ l, key x = k := by
  simp [block, List.filter_eq_self]

theorem block_filter_of {k : κ} {p : α → Bool} (l : List α) (h : ∀ x ∈ l, key x = k → p x = true) :
    block key k (l.filter p) = block key k l := by
  unfold block
  rw [List.filter_filter]
  apply List.filter_congr
  intro x hx
  by_cases hk : key x = k
  · simp [hk, h x hx hk]
  · simp [hk]

/-- `w` holds each key of `l` whole or not at all. -/
def Whole (l w : List α) : Prop := ∀ k, block key k w ≠ [] → block key k w = block key k l

theorem Whole.nil (l : List α) : Whole key l [] := fun _ h => absurd rfl h

theorem Whole.append_right {l w : List α} (h : Whole key l w) {m : List α}
    (hm : ∀ x ∈ w, ∀ y ∈ m, key y ≠ key x) : Whole key (l ++ m) w := by
  intro k hk
  obtain ⟨x, hx⟩ := List.exists_mem_of_ne_nil _ hk
  obtain ⟨hxw, rfl⟩ := (mem_block key).1 hx
  rw [h _ hk, block_append, (block_eq_nil key).2 (hm x hxw), List.append_nil]

theorem Whole.filter_ne {l w : List α} (h : Whole key l w) (k : κ) :
    Whole key l (w.filter (fun x => decide (key x ≠ k))) := by
  intro k' hk'
  obtain ⟨x, hx⟩ := List.exists_mem_of_ne_nil _ hk'
  obtain ⟨hxw, rfl⟩ := (mem_block key).1 hx
  have hne : key x ≠ k := of_decide_eq_true (List.mem_filter.1 hxw).2
  have hblock : block key (key x) (w.filter (fun y => decide (key y ≠ k))) = block key (key x) w :=
    block_filter_of key w (fun y _ hy => decide_eq_true (hy.symm ▸ hne))
  rw [hblock] at hk' ⊢
  exact h _ hk'

/-- **A window holds whole every block that neither runs on from its left nor runs on into its right**: filtering it by
such keys. -/
theorem whole_window {A w B : List α} {p : α → Bool}
    (hA : ∀ x ∈ w, p x = true → ∀ a ∈ A, key a ≠ key x)
    (hB : ∀ x ∈ w, p x = true → ∀ b ∈ B, key b ≠ key x)
    (hp : ∀ x ∈ w, ∀ y ∈ w, key x = key y → p x = p y) :
    Whole key (A ++ w ++ B) (w.filter p) := by
  intro k hk
  obtain ⟨x, hx⟩ := List.exists_mem_of_ne_nil _ hk
  obtain ⟨hxw, rfl⟩ := (mem_block key).1 hx
  obtain ⟨hxw, hpx⟩ := List.mem_filter.1 hxw
  rw [block_filter_of key w (fun y hy hyx => by rw [hp y hy x hxw hyx]; exact hpx), block_append, block_append,
    (block_eq_nil key).2 (hA x hxw hpx), (block_eq_nil key).2 (hB x hxw hpx), List.nil_append, List.append_nil]

end Blocks

section Sorted

variable [LinearOrder κ] (key : α → κ)

def Sorted (l : List α) : Prop := l.Pairwise (fun a b => key a ≤ key b)

instance (l : List α) : Decidable (Sorted key l) := inferInstanceAs (Decidable (l.Pairwise _))

variable {key}

theorem Sorted.filter {l : List α} (h : Sorted key l) (p : α → Bool) : Sorted key (l.filter p) :=
  List.Pairwise.filter p h

theorem Sorted.le {l m : List α} (h : Sorted key (l ++ m)) {a b : α} (ha : a ∈ l) (hb : b ∈ m) : key a ≤ key b :=
  (List.pairwise_append.1 h).2.2 a ha b hb

theorem Sorted.append {l m : List α} (hl : Sorted key l) (hm : Sorted key m) (h : ∀ a ∈ l, ∀ b ∈ m, key a ≤ key b) :
    Sorted key (l ++ m) := List.pairwise_append.2 ⟨hl, hm, h⟩

theorem Sorted.dropWhile_ge (k : κ) : ∀ {l : List α}, Sorted key l →
    ∀ x ∈ l.dropWhile (fun x => decide (key x < k)), k ≤ key x
  | [], _, x, hx => by cases hx
  | y :: l, h, x, hx => by
    rw [List.dropWhile_cons] at hx
    by_cases hy : key y < k
    · simp only [hy, decide_true, if_true] at hx
      exact Sorted.dropWhile_ge k h.of_cons x hx
    · simp only [hy, decide_false, Bool.false_eq_true, if_false] at hx
      rcases List.mem_cons.1 hx with rfl | hx
      · exact not_lt.1 hy
      · exact le_trans (not_lt.1 hy) (List.rel_of_pairwise_cons h hx)

theorem Sorted.filter_append {p : α → Bool} (hp : ∀ x y, key x ≤ key y → p y = true → p x = true) :
    ∀ {l : List α}, Sorted key l → l.filter p ++ l.filter (fun x => !p x) = l
  | [], _ => rfl
  | x :: l, h => by
    have ih : l.filter p ++ l.filter (fun x => !p x) = l := Sorted.filter_append hp h.of_cons
    by_cases hx : p x = true
    · rw [List.filter_cons_of_pos hx, List.filter_cons_of_neg (by simp [hx]), List.cons_append, ih]
    · have hnone : l.filter p = [] := by
        rw [List.filter_eq_nil_iff]
        exact fun y hy hpy => hx (hp x y (List.rel_of_pairwise_cons h hy) hpy)
      rw [hnone, List.nil_append] at ih
      rw [List.filter_cons_of_neg hx, hnone, List.nil_append, List.filter_cons_of_pos (by simp [hx]), ih]

/-- **A sorted list is what is below a key, the key's block, and what is above it.** -/
theorem Sorted.split {l : List α} (h : Sorted key l) (k : κ) :
    l = l.filter (fun x => decide (key x < k)) ++ block key k l ++ l.filter (fun x => decide (k < key x)) := by
  have habove : l.filter (fun x => decide (key x ≤ k)) ++ l.filter (fun x => !decide (key x ≤ k)) = l :=
    h.filter_append (fun x y hxy hy => decide_eq_true (le_trans hxy (of_decide_eq_true hy)))
  have hbelow := (h.filter (fun x => decide (key x ≤ k))).filter_append (p := fun x => decide (key x < k))
    (fun x y hxy hy => decide_eq_true (lt_of_le_of_lt hxy (of_decide_eq_true hy)))
  rw [List.filter_filter, List.filter_filter] at hbelow
  have h1 : l.filter (fun x => decide (key x < k) && decide (key x ≤ k)) = l.filter (fun x => decide (key x < k)) :=
    List.filter_congr (fun x _ => by simp only [← Bool.decide_and, and_iff_left_of_imp le_of_lt])
  have h2 : l.filter (fun x => !decide (key x < k) && decide (key x ≤ k)) = block key k l := by
    refine List.filter_congr (fun x _ => Bool.eq_iff_iff.2 ?_)
    simp only [Bool.and_eq_true, Bool.not_eq_true', decide_eq_true_eq, decide_eq_false_iff_not, not_lt]
    exact ⟨fun hk => le_antisymm hk.2 hk.1, fun hk => ⟨hk.ge, hk.le⟩⟩
  have h3 : l.filter (fun x => !decide (key x ≤ k)) = l.filter (fun x => decide (k < key x)) :=
    List.filter_congr (fun x _ => by rw [← decide_not, decide_eq_decide, not_le])
  rw [← h1, ← h2, ← h3, hbelow, habove]

/-- **A window read past a key holds the rest of that key's block.** -/
theorem Sorted.block_of_over {A w B : List α} {k : κ} (h : Sorted key (A ++ w ++ B)) (hover : ∃ x ∈ w, k < key x) :
    block key k (A ++ w ++ B) = block key k (A ++ w) := by
  obtain ⟨x, hx, hkx⟩ := hover
  have hB : block key k B = [] := by
    rw [block_eq_nil]
    intro b hb hbk
    have hxb : key x ≤ key b := h.le (List.mem_append_right A hx) hb
    exact absurd hkx (not_lt.2 (hbk ▸ hxb))
  rw [block_append key k (A ++ w) B, hB, List.append_nil]

/-- **The blocks past `k` of a window read to the end of the list are whole**, once everything before the window is at
most `k`. -/
theorem whole_of_end {A w : List α} {k : κ} (hA : ∀ a ∈ A, key a ≤ k) (hw : ∀ x ∈ w, k ≤ key x) :
    Whole key (A ++ w) (w.filter (fun x => decide (key x ≠ k))) := by
  have hwin : Whole key (A ++ w ++ []) (w.filter (fun x => decide (key x ≠ k))) := by
    refine whole_window key (fun x hx hp a ha hax => ?_) (fun _ _ _ b hb => by cases hb)
      (fun x _ y _ hxy => by rw [hxy])
    have hne : key x ≠ k := of_decide_eq_true hp
    exact hne (le_antisymm (hax ▸ hA a ha) (hw x hx))
  rwa [List.append_nil] at hwin

/-- **The blocks of a window strictly between `k` and the window's last key are whole**, wherever the window ends. -/
theorem Sorted.whole_of_cut {A w B : List α} {k : κ} {z : α} (h : Sorted key (A ++ w ++ B)) (hz : w.getLast? = some z)
    (hA : ∀ a ∈ A, key a ≤ k) (hw : ∀ x ∈ w, k ≤ key x) :
    Whole key (A ++ w ++ B)
      ((w.filter (fun x => decide (key x ≠ k))).filter (fun x => decide (key x ≠ key z))) := by
  rw [List.filter_filter]
  refine whole_window key (fun x hx hp a ha hax => ?_) (fun x hx hp b hb hbx => ?_) (fun x _ y _ hxy => by rw [hxy])
  · simp only [Bool.and_eq_true, decide_eq_true_eq] at hp
    exact hp.2 (le_antisymm (hax ▸ hA a ha) (hw x hx))
  · simp only [Bool.and_eq_true, decide_eq_true_eq] at hp
    obtain ⟨ys, hys⟩ := List.getLast?_eq_some_iff.1 hz
    have hxz : key x ≤ key z := by
      rw [hys] at hx h
      rcases List.mem_append.1 hx with hx | hx
      · have hs : Sorted key (ys ++ [z]) := (List.pairwise_append.1 (List.pairwise_append.1 h).1).2.1
        exact hs.le hx (List.mem_singleton_self z)
      · rw [List.mem_singleton.1 hx]
    have hzb : key z ≤ key b := h.le (List.mem_append_right A (List.mem_of_getLast? hz)) hb
    exact hp.1 (le_antisymm hxz (hbx ▸ hzb))

end Sorted

section Merge

variable [DecidableEq ι] (ident : α → ι)

def mergeStep (acc : List α) (x : α) : List α :=
  if acc.any (fun y => decide (ident y = ident x)) then acc else acc ++ [x]

/-- The elements of `l` whose identity `acc` does not hold, appended in order. -/
def mergeOn (acc l : List α) : List α := l.foldl (mergeStep ident) acc

theorem mergeStep_of_mem {acc : List α} {x : α} (h : ∃ y ∈ acc, ident y = ident x) : mergeStep ident acc x = acc := by
  unfold mergeStep
  rw [if_pos]
  simpa using h

theorem mergeStep_of_not_mem {acc : List α} {x : α} (h : ∀ y ∈ acc, ident y ≠ ident x) :
    mergeStep ident acc x = acc ++ [x] := by
  unfold mergeStep
  rw [if_neg]
  simpa using h

theorem mergeOn_of_subset : ∀ {l acc : List α}, l ⊆ acc → mergeOn ident acc l = acc
  | [], _, _ => rfl
  | x :: l, acc, h => by
    have hx : mergeStep ident acc x = acc := mergeStep_of_mem ident ⟨x, h List.mem_cons_self, rfl⟩
    show mergeOn ident (mergeStep ident acc x) l = acc
    rw [hx]
    exact mergeOn_of_subset (fun y hy => h (List.mem_cons_of_mem x hy))

theorem mergeOn_self (l : List α) : mergeOn ident l l = l := mergeOn_of_subset ident (List.Subset.refl l)

theorem mergeOn_of_fresh : ∀ {l acc : List α}, ((acc ++ l).map ident).Nodup → mergeOn ident acc l = acc ++ l
  | [], acc, _ => (List.append_nil acc).symm
  | x :: l, acc, h => by
    have hx : mergeStep ident acc x = acc ++ [x] := by
      refine mergeStep_of_not_mem ident (fun y hy hyx => ?_)
      rw [List.map_append, List.nodup_append'] at h
      exact h.2.2 (List.mem_map_of_mem hy) (by rw [hyx]; exact List.mem_map_of_mem List.mem_cons_self)
    show mergeOn ident (mergeStep ident acc x) l = acc ++ x :: l
    rw [hx, mergeOn_of_fresh (by simpa using h)]
    simp

theorem exists_mem_mergeOn {x : α} : ∀ {l acc : List α}, (∃ y ∈ acc, ident y = ident x) ∨ x ∈ l →
    ∃ y ∈ mergeOn ident acc l, ident y = ident x
  | [], acc, h => by
    rcases h with h | h
    · exact h
    · cases h
  | z :: l, acc, h => by
    show ∃ y ∈ mergeOn ident (mergeStep ident acc z) l, ident y = ident x
    apply exists_mem_mergeOn
    by_cases hz : ∃ y ∈ acc, ident y = ident z
    · rw [mergeStep_of_mem ident hz]
      rcases h with h | h
      · exact Or.inl h
      · rcases List.mem_cons.1 h with rfl | h
        · exact Or.inl hz
        · exact Or.inr h
    · push Not at hz
      rw [mergeStep_of_not_mem ident hz]
      rcases h with ⟨y, hy, hyx⟩ | h
      · exact Or.inl ⟨y, List.mem_append_left _ hy, hyx⟩
      · rcases List.mem_cons.1 h with rfl | h
        · exact Or.inl ⟨x, List.mem_append_right _ List.mem_cons_self, rfl⟩
        · exact Or.inr h

theorem mem_of_mem_mergeOn {x : α} : ∀ {l acc : List α}, x ∈ mergeOn ident acc l → x ∈ acc ∨ x ∈ l
  | [], _, h => Or.inl h
  | z :: l, acc, h => by
    rcases mem_of_mem_mergeOn (show x ∈ mergeOn ident (mergeStep ident acc z) l from h) with h | h
    · unfold mergeStep at h
      split at h
      · exact Or.inl h
      · rcases List.mem_append.1 h with h | h
        · exact Or.inl h
        · rw [List.mem_singleton.1 h]
          exact Or.inr List.mem_cons_self
    · exact Or.inr (List.mem_cons_of_mem z h)

theorem nodup_mergeOn : ∀ {l acc : List α}, (acc.map ident).Nodup → ((mergeOn ident acc l).map ident).Nodup
  | [], _, h => h
  | z :: l, acc, h => by
    show ((mergeOn ident (mergeStep ident acc z) l).map ident).Nodup
    apply nodup_mergeOn
    by_cases hz : ∃ y ∈ acc, ident y = ident z
    · rw [mergeStep_of_mem ident hz]
      exact h
    · push Not at hz
      rw [mergeStep_of_not_mem ident hz, List.map_append, List.nodup_append']
      refine ⟨h, List.nodup_singleton _, fun k hk hkz => ?_⟩
      obtain ⟨y, hy, rfl⟩ := List.mem_map.1 hk
      exact hz y hy (List.mem_singleton.1 hkz)

theorem mergeOn_nil {l : List α} (h : (l.map ident).Nodup) : mergeOn ident [] l = l :=
  mergeOn_of_fresh ident (by simpa using h)

end Merge

section Grouped

variable [DecidableEq κ] (key : α → κ)

/-- `l` is grouped in the order of `ks`: its keys are among `ks`, and come in the order `ks` lists them. -/
def GroupedBy (ks : List κ) (l : List α) : Prop :=
  (∀ x ∈ l, key x ∈ ks) ∧ l.Pairwise (fun x y => ks.idxOf (key x) ≤ ks.idxOf (key y))

theorem flatMap_block_of_notMem (x : α) (l : List α) : ∀ {ks : List κ}, key x ∉ ks →
    ks.flatMap (fun k => block key k (x :: l)) = ks.flatMap (fun k => block key k l)
  | [], _ => rfl
  | k :: ks, h => by
    have hk : key x ≠ k := fun e => h (e ▸ List.mem_cons_self)
    rw [List.flatMap_cons, List.flatMap_cons, block_cons, if_neg hk,
      flatMap_block_of_notMem x l (fun hm => h (List.mem_cons_of_mem k hm))]

/-- **A list grouped in the order of distinct keys is its blocks, one after the other.** -/
theorem flatMap_block : ∀ {l : List α} {ks : List κ}, ks.Nodup → GroupedBy key ks l →
    ks.flatMap (fun k => block key k l) = l
  | [], ks, _, _ => by simp
  | x :: l, ks, hnd, ⟨hmem, hord⟩ => by
    have ih := flatMap_block (l := l) hnd ⟨fun y hy => hmem y (List.mem_cons_of_mem x hy), hord.of_cons⟩
    obtain ⟨ks₁, ks₂, hks⟩ := List.append_of_mem (hmem x List.mem_cons_self)
    -- no element of `l` has a key listed before `x`'s
    have hbefore : ∀ k ∈ ks₁, block key k l = [] := by
      intro k hk
      rw [block_eq_nil]
      intro y hy hyk
      have hle := List.rel_of_pairwise_cons hord hy
      have hx₁ : key x ∉ ks₁ := by
        rw [hks] at hnd
        intro hx₁
        exact (List.nodup_append'.1 hnd).2.2 hx₁ List.mem_cons_self
      rw [hks, List.idxOf_append_of_notMem hx₁, List.idxOf_cons_self, hyk, List.idxOf_append_of_mem hk] at hle
      have := List.idxOf_lt_length_of_mem hk
      omega
    have hx₁ : key x ∉ ks₁ := by
      rw [hks] at hnd
      exact fun hx₁ => (List.nodup_append'.1 hnd).2.2 hx₁ List.mem_cons_self
    have hx₂ : key x ∉ ks₂ := by
      rw [hks] at hnd
      exact (List.nodup_cons.1 (List.nodup_append'.1 hnd).2.1).1
    have hnil : ks₁.flatMap (fun k => block key k l) = [] := by
      rw [List.flatMap_eq_nil_iff]
      exact hbefore
    rw [hks, List.flatMap_append, List.flatMap_cons, hnil] at ih
    rw [hks, List.flatMap_append, List.flatMap_cons, flatMap_block_of_notMem key x l hx₁,
      flatMap_block_of_notMem key x l hx₂, block_cons, if_pos rfl, hnil]
    simpa using ih

/-- **The blocks of distinct keys hold the elements of those keys**, each once. -/
theorem flatMap_block_perm : ∀ {ks : List κ} (l : List α), ks.Nodup →
    (ks.flatMap (fun k => block key k l)).Perm (l.filter (fun x => decide (key x ∈ ks)))
  | [], l, _ => by simp
  | k :: ks, l, hnd => by
    have hk : k ∉ ks := (List.nodup_cons.1 hnd).1
    have hsplit := List.filter_append_perm (fun x => decide (key x = k)) (l.filter (fun x => decide (key x ∈ k :: ks)))
    have hfirst : (l.filter (fun x => decide (key x ∈ k :: ks))).filter (fun x => decide (key x = k)) =
        block key k l := by
      rw [List.filter_filter]
      apply List.filter_congr
      intro x _
      by_cases hx : key x = k <;> simp [hx]
    have hrest : (l.filter (fun x => decide (key x ∈ k :: ks))).filter (fun x => !decide (key x = k)) =
        l.filter (fun x => decide (key x ∈ ks)) := by
      rw [List.filter_filter]
      apply List.filter_congr
      intro x _
      by_cases hx : key x = k
      · simp [hx, hk]
      · simp [hx]
    rw [hfirst, hrest] at hsplit
    rw [List.flatMap_cons]
    exact ((flatMap_block_perm l (List.nodup_cons.1 hnd).2).append_left _).trans hsplit

theorem filter_block {k : κ} {p q : α → Bool} (h : ∀ x, key x = k → p x = q x) (l : List α) :
    (block key k l).filter p = block key k (l.filter q) := by
  unfold block
  rw [List.filter_filter, List.filter_filter]
  apply List.filter_congr
  intro x _
  by_cases hx : key x = k
  · simp [hx, h x hx]
  · simp [hx]

theorem count_flatMap_block [DecidableEq α] (x : α) (l : List α) : ∀ ks : List κ,
    (ks.flatMap (fun k => block key k l)).count x = ks.count (key x) * l.count x
  | [] => by simp
  | k :: ks => by
    rw [List.flatMap_cons, List.count_append, count_flatMap_block x l ks, List.count_cons]
    unfold block
    by_cases hk : key x = k
    · rw [List.count_filter (by simpa using hk), if_pos (by simpa using hk.symm), Nat.add_comm, Nat.succ_mul]
    · have hnone : (l.filter (fun y => decide (key y = k))).count x = 0 := by
        rw [List.count_eq_zero]
        simp [hk]
      rw [hnone, if_neg (by simpa using Ne.symm hk), Nat.zero_add, Nat.add_zero]

omit [DecidableEq κ] in
theorem flatMap_range' {β : Type} {f : α → List β} {g : Nat → List β} : ∀ {l : List α} (n : Nat),
    (∀ i x, l[i]? = some x → f x = g (n + i)) → l.flatMap f = (List.range' n l.length).flatMap g
  | [], _, _ => rfl
  | x :: l, n, h => by
    have hrest : l.flatMap f = (List.range' (n + 1) l.length).flatMap g := flatMap_range' (n + 1) (fun i y hy => by
      rw [h (i + 1) y hy]
      congr 1
      omega)
    rw [List.flatMap_cons, List.length_cons, List.range'_succ, List.flatMap_cons, hrest, h 0 x rfl, Nat.add_zero]

omit [DecidableEq κ] in
theorem existsUnique_index {l : List α} {k : κ} {P : α → Prop} (hnd : (l.map key).Nodup) (hex : ∃ x ∈ l, P x)
    (hP : ∀ x ∈ l, P x → key x = k) : ∃! i : Nat, ∃ x, l[i]? = some x ∧ P x := by
  obtain ⟨x, hx, hPx⟩ := hex
  obtain ⟨i, hi⟩ := List.getElem?_of_mem hx
  refine ⟨i, ⟨x, hi, hPx⟩, ?_⟩
  rintro j ⟨y, hj, hPy⟩
  have hkey : (l.map key)[j]? = (l.map key)[i]? := by
    rw [List.getElem?_map, List.getElem?_map, hi, hj, Option.map_some, Option.map_some, hP x hx hPx,
      hP y (List.mem_of_getElem? hj) hPy]
  have hlt : j < (l.map key).length := by
    rw [List.length_map]
    exact (List.getElem?_eq_some_iff.1 hj).1
  exact (List.getElem?_inj hlt hnd).1 hkey

end Grouped

/-! ## Measures -/

def total (f : α → Nat) (l : List α) : Nat := l.foldr (fun a n => f a + n) 0

theorem total_append (f : α → Nat) : ∀ (l l' : List α), total f (l ++ l') = total f l + total f l'
  | [], l' => (Nat.zero_add _).symm
  | a :: l, l' => by
    show f a + total f (l ++ l') = f a + total f l + total f l'
    rw [total_append f l l', Nat.add_assoc]

theorem total_set (f : α → Nat) (b : α) : ∀ {l : List α} {i : Nat} {a : α}, l[i]? = some a →
    total f (l.set i b) + f a = total f l + f b
  | [], _, _, h => by cases h
  | c :: l, 0, _, h => by
    cases h
    show f b + total f l + f c = f c + total f l + f b
    omega
  | c :: l, i + 1, a, h => by
    have ih := total_set f b (show l[i]? = some a from h)
    show f c + total f (l.set i b) + f a = f c + total f l + f b
    omega

theorem total_le {f g : α → Nat} : ∀ {l : List α}, (∀ x ∈ l, f x ≤ g x) → total f l ≤ total g l
  | [], _ => Nat.le_refl _
  | x :: _, h => Nat.add_le_add (h x List.mem_cons_self) (total_le (fun y hy => h y (List.mem_cons_of_mem x hy)))

theorem total_one (l : List α) : total (fun _ => 1) l = l.length := by
  induction l with
  | nil => rfl
  | cons x l ih =>
    show 1 + total (fun _ => 1) l = l.length + 1
    rw [ih, Nat.add_comm]

theorem total_map {β : Type} (f : β → Nat) (g : α → β) (l : List α) : total f (l.map g) = total (f ∘ g) l := by
  unfold total
  rw [List.foldr_map]
  rfl

theorem total_congr {f g : α → Nat} : ∀ {l : List α}, (∀ x ∈ l, f x = g x) → total f l = total g l
  | [], _ => rfl
  | x :: l, h => by
    show f x + total f l = g x + total g l
    rw [h x List.mem_cons_self, total_congr (fun y hy => h y (List.mem_cons_of_mem x hy))]

theorem total_block_le [DecidableEq κ] (key : α → κ) : ∀ {ks : List κ} (l : List α), ks.Nodup →
    total (fun k => (block key k l).length) ks ≤ l.length
  | [], l, _ => Nat.zero_le _
  | k :: ks, l, hnd => by
    obtain ⟨hk, hnd⟩ := List.nodup_cons.1 hnd
    have hothers : ∀ k' ∈ ks, (block key k' l).length =
        (block key k' (l.filter (fun x => !decide (key x = k)))).length := by
      intro k' hk'
      have hne : k' ≠ k := fun he => hk (he ▸ hk')
      rw [block_filter_of key l (fun x _ hx => by simp [hx, hne])]
    have hrest := total_block_le key (l.filter (fun x => !decide (key x = k))) hnd
    have hsplit : l.length = (block key k l).length + (l.filter (fun x => !decide (key x = k))).length :=
      List.length_eq_length_filter_add (fun x => decide (key x = k))
    show (block key k l).length + total (fun k => (block key k l).length) ks ≤ l.length
    rw [total_congr hothers]
    omega

end Keyed
