import Mathlib.Data.List.Basic
/-!
# Loops — what nested loops do, and in which order

A nest of `forM` loops does what one loop over the list of its visits does (`forM_flatMap`), in every lawful monad, so
it does it in the order of that list: run with a recorder (`traceOf`), it leaves that list (`traceOf_forM`); where the
body throws, it stops there (`forM_eq_error`).  The visits
of a tree's nodes, each under the counters of the loops around it (`numberedFrom`), come in the lexicographic order of
these paths (`numberedFrom_sorted`).
-/
namespace Loops

section Fusion

variable {m : Type → Type} [Monad m] [LawfulMonad m] {α β : Type}

/-- **A nest of two loops is one loop.** -/
theorem forM_flatMap (f : α → List β) (g : β → m PUnit) : ∀ (l : List α),
    forM (l.flatMap f) g = forM l (fun a => forM (f a) g)
  | [] => rfl
  | a :: l => by
    rw [List.flatMap_cons, List.forM_append, List.forM_cons, forM_flatMap f g l]

omit [LawfulMonad m] in
theorem forM_congr {f g : α → m PUnit} (h : ∀ a, f a = g a) (l : List α) : forM l f = forM l g :=
  congrArg (forM l) (funext h)

end Fusion

section Push

variable {α β : Type}

/-- **A nest of two loops over a state is one loop.** -/
theorem foldlM_flatMap {m : Type → Type} [Monad m] [LawfulMonad m] {σ : Type} (f : α → List β) (g : σ → β → m σ) :
    ∀ (l : List α) (s : σ), (l.flatMap f).foldlM g s = l.foldlM (fun s a => (f a).foldlM g s) s
  | [], _ => rfl
  | a :: l, s => by
    rw [List.flatMap_cons, List.foldlM_append, List.foldlM_cons]
    exact bind_congr (fun s' => foldlM_flatMap f g l s')

/-- **A loop that pushes onto a list, and may stop early**, ends with all it pushes where nothing stops it. -/
theorem foldlM_push {push : α → Option (List β)} : ∀ {l : List α} {acc result : List β},
    l.foldlM (fun acc a => (push a).map (fun pushed => acc ++ pushed)) acc = some result ↔
      (∀ a ∈ l, push a ≠ none) ∧ result = acc ++ l.flatMap (fun a => (push a).getD [])
  | [], acc, result => by simp [eq_comm]
  | a :: l, acc, result => by
    rw [List.foldlM_cons]
    cases hpush : push a with
    | none => simp [hpush]
    | some pushed =>
      show l.foldlM _ (acc ++ pushed) = some result ↔ _
      rw [foldlM_push, List.flatMap_cons, List.forall_mem_cons, hpush, Option.getD_some, List.append_assoc]
      simp

end Push

section Trace

variable {α β : Type}

def record (a : α) : StateM (List α) PUnit := modify (fun trace => trace ++ [a])

def traceOf (program : (α → StateM (List α) PUnit) → StateM (List α) PUnit) : List α := (program record []).2

theorem forM_record : ∀ (l trace : List α), (forM l record : StateM (List α) PUnit) trace = (⟨⟩, trace ++ l)
  | [], trace => by
    rw [List.forM_nil, List.append_nil]
    rfl
  | a :: l, trace => by
    have ih := forM_record l (trace ++ [a])
    rw [List.forM_cons]
    show (forM l record : StateM (List α) PUnit) (trace ++ [a]) = _
    rw [ih, List.append_assoc, List.singleton_append]

theorem traceOf_forM {program : (α → StateM (List α) PUnit) → StateM (List α) PUnit} {l : List α}
    (h : program record = forM l record) : traceOf program = l := by
  unfold traceOf
  rw [h, forM_record, List.nil_append]

end Trace

section Throw

variable {ε σ α : Type} {body : α → ExceptT ε (StateM σ) PUnit}

theorem forM_cons_apply (a : α) (l : List α) (s : σ) :
    (forM (a :: l) body : ExceptT ε (StateM σ) PUnit) s = match body a s with
      | (.error e, s') => (.error e, s')
      | (.ok _, s') => (forM l body : ExceptT ε (StateM σ) PUnit) s' := by
  have hbind : (forM (a :: l) body : ExceptT ε (StateM σ) PUnit) s =
      (ExceptT.bindCont (fun _ => forM l body) (body a s).1 : StateM σ (Except ε PUnit)) (body a s).2 := by
    rw [List.forM_cons]
    rfl
  rw [hbind]
  cases body a s with
  | mk result s' => cases result <;> rfl

/-- **A loop whose body throws stops there**: it has done what comes before, and nothing of what comes after. -/
theorem forM_eq_error : ∀ {l : List α} {s s' : σ} {e : ε},
    (forM l body : ExceptT ε (StateM σ) PUnit) s = (.error e, s') ↔
      ∃ before a after between, l = before ++ a :: after ∧
        (forM before body : ExceptT ε (StateM σ) PUnit) s = (.ok ⟨⟩, between) ∧ body a between = (.error e, s')
  | [], s, s', e => by
    constructor
    · intro h
      cases h
    · rintro ⟨before, a, after, between, hl, -⟩
      cases before <;> cases hl
  | a :: l, s, s', e => by
    rw [forM_cons_apply]
    cases h : body a s with
    | mk result between =>
      cases result with
      | error e' =>
        constructor
        · intro he
          cases he
          exact ⟨[], a, l, s, rfl, rfl, h⟩
        · rintro ⟨before, b, after, between', hl, hbefore, hb⟩
          cases before with
          | nil =>
            cases hl
            cases hbefore
            exact h.symm.trans hb
          | cons c before =>
            cases hl
            rw [forM_cons_apply, h] at hbefore
            cases hbefore
      | ok u =>
        show (forM l body : ExceptT ε (StateM σ) PUnit) between = (.error e, s') ↔ _
        rw [forM_eq_error]
        constructor
        · rintro ⟨before, b, after, between', rfl, hbefore, hb⟩
          refine ⟨a :: before, b, after, between', rfl, ?_, hb⟩
          rw [forM_cons_apply, h]
          exact hbefore
        · rintro ⟨before, b, after, between', hl, hbefore, hb⟩
          cases before with
          | nil =>
            cases hl
            cases hbefore
            cases h.symm.trans hb
          | cons c before =>
            cases hl
            rw [forM_cons_apply, h] at hbefore
            exact ⟨before, b, after, between', rfl, hbefore, hb⟩

end Throw

section Numbered

variable {α : Type}

/-- The lexicographic order of paths. -/
def Before (p q : List Nat) : Prop := List.Lex (· < ·) p q

theorem before_cons_iff {i j : Nat} {p q : List Nat} : Before (i :: p) (j :: q) ↔ i < j ∨ i = j ∧ Before p q := by
  constructor
  · intro h
    cases h with
    | rel h => exact Or.inl h
    | cons h => exact Or.inr ⟨rfl, h⟩
  · rintro (h | ⟨rfl, h⟩)
    · exact List.Lex.rel h
    · exact List.Lex.cons h

theorem not_before_self : ∀ p : List Nat, ¬ Before p p
  | [], h => by cases h
  | i :: p, h => by
    rcases before_cons_iff.1 h with hlt | ⟨-, h⟩
    · omega
    · exact not_before_self p h

theorem Before.asymm : ∀ {p q : List Nat}, Before p q → ¬ Before q p
  | _, [], h, _ => by cases h
  | [], _ :: _, _, h => by cases h
  | i :: p, j :: q, h, h' => by
    rcases before_cons_iff.1 h with hlt | ⟨hij, hpq⟩
    · rcases before_cons_iff.1 h' with hlt' | ⟨hji, -⟩ <;> omega
    · rcases before_cons_iff.1 h' with hlt' | ⟨-, hqp⟩
      · omega
      · exact hpq.asymm hqp

/-- The visits of a list of bodies, each with its path: the `i`-th body's under `i`. -/
def numberedFrom (i : Nat) : List (List (List Nat × α)) → List (List Nat × α)
  | [] => []
  | body :: bodies => body.map (fun visit => (i :: visit.1, visit.2)) ++ numberedFrom (i + 1) bodies

theorem map_snd_numberedFrom : ∀ (i : Nat) (bodies : List (List (List Nat × α))),
    (numberedFrom i bodies).map Prod.snd = bodies.flatMap (fun body => body.map Prod.snd)
  | _, [] => rfl
  | i, body :: bodies => by
    unfold numberedFrom
    rw [List.map_append, List.map_map, map_snd_numberedFrom (i + 1) bodies, List.flatMap_cons]
    rfl

theorem mem_numberedFrom {visit : List Nat × α} : ∀ {i : Nat} {bodies : List (List (List Nat × α))},
    visit ∈ numberedFrom i bodies →
      ∃ j body first, bodies[j]? = some body ∧ first ∈ body ∧ visit = ((i + j) :: first.1, first.2)
  | _, [], h => absurd h List.not_mem_nil
  | i, body :: bodies, h => by
    rcases List.mem_append.1 h with h | h
    · obtain ⟨first, hfirst, rfl⟩ := List.mem_map.1 h
      exact ⟨0, body, first, rfl, hfirst, rfl⟩
    · obtain ⟨j, body', first, hbody, hfirst, rfl⟩ := mem_numberedFrom h
      refine ⟨j + 1, body', first, hbody, hfirst, ?_⟩
      rw [Nat.add_right_comm, Nat.add_assoc]

theorem mem_numbered {β : Type} {visits : β → List (List Nat × α)} {l : List β} {visit : List Nat × α}
    (h : visit ∈ numberedFrom 0 (l.map visits)) :
    ∃ j x first, l[j]? = some x ∧ first ∈ visits x ∧ visit = (j :: first.1, first.2) := by
  obtain ⟨j, body, first, hbody, hfirst, rfl⟩ := mem_numberedFrom h
  rw [List.getElem?_map, Option.map_eq_some_iff] at hbody
  obtain ⟨x, hx, rfl⟩ := hbody
  rw [Nat.zero_add]
  exact ⟨j, x, first, hx, hfirst, rfl⟩

/-- **The visits of bodies come in the lexicographic order of their paths** where each body's do. -/
theorem numberedFrom_sorted : ∀ (i : Nat) {bodies : List (List (List Nat × α))},
    (∀ body ∈ bodies, body.Pairwise (fun v w => Before v.1 w.1)) →
    (numberedFrom i bodies).Pairwise (fun v w => Before v.1 w.1)
  | _, [], _ => List.Pairwise.nil
  | i, body :: bodies, h => by
    unfold numberedFrom
    rw [List.pairwise_append]
    refine ⟨?_, numberedFrom_sorted (i + 1) (fun b hb => h b (List.mem_cons_of_mem _ hb)), ?_⟩
    · rw [List.pairwise_map]
      exact (h body List.mem_cons_self).imp (fun h => before_cons_iff.2 (Or.inr ⟨rfl, h⟩))
    · intro visit hvisit visit' hvisit'
      obtain ⟨first, -, rfl⟩ := List.mem_map.1 hvisit
      obtain ⟨j, _, _, -, -, rfl⟩ := mem_numberedFrom hvisit'
      exact before_cons_iff.2 (Or.inl (by omega))

theorem nil_cons_sorted {a : α} {i : Nat} {bodies : List (List (List Nat × α))}
    (h : ∀ body ∈ bodies, body.Pairwise (fun v w => Before v.1 w.1)) :
    (([], a) :: numberedFrom i bodies).Pairwise (fun v w => Before v.1 w.1) := by
  refine List.pairwise_cons.2 ⟨fun visit hvisit => ?_, numberedFrom_sorted i h⟩
  obtain ⟨_, _, _, -, -, rfl⟩ := mem_numberedFrom hvisit
  exact List.Lex.nil

theorem index_lt {paths : List (List Nat)} (h : paths.Pairwise (fun p q => ¬ Before q p)) {i j : Nat} {p q : List Nat}
    (hp : paths[i]? = some p) (hq : paths[j]? = some q) (hbefore : Before p q) : i < j := by
  obtain ⟨hi, rfl⟩ := List.getElem?_eq_some_iff.1 hp
  obtain ⟨hj, rfl⟩ := List.getElem?_eq_some_iff.1 hq
  by_contra hle
  rcases Nat.lt_or_eq_of_le (Nat.le_of_not_lt hle) with hji | rfl
  · exact List.pairwise_iff_getElem.1 h j i hj hi hji hbefore
  · exact not_before_self _ hbefore

end Numbered

end Loops
