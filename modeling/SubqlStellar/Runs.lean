import Mathlib.Data.List.Basic
/-!
# Runs — labelled runs of a step function

`run` takes the labels one after the other and is undefined where a step is.  What every step preserves holds along
the run (`run_invariant`); where a step preserves it only under a condition on the state before it, it holds along the
runs whose steps all meet that condition (`run_invariant_of`).
-/
namespace Runs

variable {σ α : Type} (step : σ → α → Option σ)

def run : σ → List α → Option σ
  | s, []      => some s
  | s, a :: as =>
    match step s a with
    | none    => none
    | some s' => run s' as

/-- Every step of the run meets `ok` at the state before it. -/
def AllSteps (ok : σ → α → Prop) : σ → List α → Prop
  | _, []      => True
  | s, a :: as => ok s a ∧ ∀ s', step s a = some s' → AllSteps ok s' as

instance AllSteps.decidable {ok : σ → α → Prop} [∀ s, DecidablePred (ok s)] :
    ∀ (s : σ) (as : List α), Decidable (AllSteps step ok s as)
  | _, []      => isTrue trivial
  | s, a :: as =>
    have : Decidable (∀ s', step s a = some s' → AllSteps step ok s' as) :=
      match step s a with
      | none    => isTrue (fun _ h => nomatch h)
      | some s' => @decidable_of_iff _ (AllSteps step ok s' as) (by simp) (AllSteps.decidable s' as)
    inferInstanceAs (Decidable (ok s a ∧ ∀ s', step s a = some s' → AllSteps step ok s' as))

variable {step}

@[simp] theorem run_nil (s : σ) : run step s [] = some s := rfl

theorem run_cons {s t : σ} {a : α} {as : List α} :
    run step s (a :: as) = some t ↔ ∃ s', step s a = some s' ∧ run step s' as = some t := by
  cases h : step s a with
  | none => simp [run, h]
  | some s' => simp [run, h]

theorem run_append {t : σ} : ∀ {s : σ} {as bs : List α},
    run step s (as ++ bs) = some t ↔ ∃ s', run step s as = some s' ∧ run step s' bs = some t
  | s, [], bs => by simp
  | s, a :: as, bs => by
    rw [List.cons_append, run_cons]
    constructor
    · rintro ⟨u, hu, hr⟩
      obtain ⟨s', h1, h2⟩ := run_append.1 hr
      exact ⟨s', run_cons.2 ⟨u, hu, h1⟩, h2⟩
    · rintro ⟨s', h1, h2⟩
      obtain ⟨u, hu, hr⟩ := run_cons.1 h1
      exact ⟨u, hu, run_append.2 ⟨s', hr, h2⟩⟩

/-- **What every step preserves under a condition holds along the runs whose steps meet it.** -/
theorem run_invariant_of {ok : σ → α → Prop} {Inv : σ → Prop}
    (hstep : ∀ s a s', Inv s → ok s a → step s a = some s' → Inv s') :
    ∀ {s t : σ} {as : List α}, Inv s → AllSteps step ok s as → run step s as = some t → Inv t
  | _, _, [], h, _, hr => by
    rw [run_nil] at hr
    cases hr
    exact h
  | s, _, a :: as, h, hok, hr => by
    obtain ⟨s', hs, hr⟩ := run_cons.1 hr
    exact run_invariant_of hstep (hstep s a s' h hok.1 hs) (hok.2 s' hs) hr

theorem allSteps_of_forall {ok : σ → α → Prop} : ∀ {s : σ} {as : List α}, (∀ s, ∀ a ∈ as, ok s a) →
    AllSteps step ok s as
  | _, [], _ => trivial
  | s, a :: _, h => ⟨h s a List.mem_cons_self,
      fun _ _ => allSteps_of_forall (fun s b hb => h s b (List.mem_cons_of_mem a hb))⟩

/-- **What every step preserves holds along every run.** -/
theorem run_invariant {Inv : σ → Prop} (hstep : ∀ s a s', Inv s → step s a = some s' → Inv s')
    {s t : σ} {as : List α} (h : Inv s) (hr : run step s as = some t) : Inv t := by
  have hok : AllSteps step (fun _ _ => True) s as := allSteps_of_forall (fun _ _ _ => trivial)
  exact run_invariant_of (fun s a s' hi _ hs => hstep s a s' hi hs) h hok hr

/-- **What every step of some kind preserves holds along the runs of that kind.** -/
theorem run_invariant_on {Inv : σ → Prop} {own : α → Prop}
    (hstep : ∀ s a s', Inv s → own a → step s a = some s' → Inv s') {s t : σ} {as : List α} (h : Inv s)
    (hown : ∀ a ∈ as, own a) (hr : run step s as = some t) : Inv t :=
  run_invariant_of hstep h (allSteps_of_forall (fun _ => hown)) hr

/-- **What only steps of one kind add, a run adds as often as it has them.** -/
theorem run_size_le {Inv : σ → Prop} {ok : σ → α → Prop} {size : σ → Nat} {grows : α → Bool} {n : Nat}
    (hinv : ∀ s a s', Inv s → ok s a → step s a = some s' → Inv s')
    (hsize : ∀ s a s', Inv s → ok s a → step s a = some s' → size s' ≤ size s + if grows a then n else 0) :
    ∀ {s t : σ} {as : List α}, Inv s → AllSteps step ok s as → run step s as = some t →
      size t ≤ size s + as.countP grows * n
  | _, _, [], _, _, hr => by
    rw [run_nil] at hr
    cases hr
    exact Nat.le_add_right _ _
  | s, t, a :: as, h, hok, hr => by
    obtain ⟨s', hs, hr⟩ := run_cons.1 hr
    have hfirst := hsize s a s' h hok.1 hs
    have hrest := run_size_le hinv hsize (hinv s a s' h hok.1 hs) (hok.2 s' hs) hr
    rw [List.countP_cons, Nat.add_mul]
    by_cases hg : grows a
    · rw [if_pos hg] at hfirst ⊢
      omega
    · rw [if_neg hg] at hfirst ⊢
      omega

section Measure

variable {Inv : σ → Prop} {own : α → Prop} {work : σ → Nat}

/-- **A run of steps that each give up some of a measure is no longer than the measure.** -/
theorem run_length_le (hinv : ∀ s a s', Inv s → own a → step s a = some s' → Inv s')
    (hwork : ∀ s a s', Inv s → own a → step s a = some s' → work s' < work s) :
    ∀ {s t : σ} {as : List α}, Inv s → (∀ a ∈ as, own a) → run step s as = some t → as.length + work t ≤ work s
  | _, _, [], _, _, hr => by
    rw [run_nil] at hr
    cases hr
    exact Nat.le_of_eq (Nat.zero_add _)
  | s, t, a :: as, h, hown, hr => by
    obtain ⟨s', hs, hr⟩ := run_cons.1 hr
    have hlt := hwork s a s' h (hown a List.mem_cons_self) hs
    have hle := run_length_le hinv hwork (hinv s a s' h (hown a List.mem_cons_self) hs)
      (fun b hb => hown b (List.mem_cons_of_mem a hb)) hr
    rw [List.length_cons]
    omega

/-- **What can always go on gets there**, where going on gives up some of a measure. -/
theorem exists_run_to {P : σ → Prop} (hinv : ∀ s a s', Inv s → own a → step s a = some s' → Inv s')
    (hwork : ∀ s a s', Inv s → own a → step s a = some s' → work s' < work s)
    (hmove : ∀ s, Inv s → ¬ P s → ∃ a s', own a ∧ step s a = some s') (s : σ) (h : Inv s) :
    ∃ as t, (∀ a ∈ as, own a) ∧ run step s as = some t ∧ P t := by
  induction hn : work s using Nat.strongRecOn generalizing s with
  | ind n ih =>
    by_cases hP : P s
    · exact ⟨[], s, fun a ha => absurd ha List.not_mem_nil, rfl, hP⟩
    · obtain ⟨a, s', ha, hs⟩ := hmove s h hP
      have hlt := hwork s a s' h ha hs
      obtain ⟨as, t, hown, hr, ht⟩ := ih (work s') (by omega) s' (hinv s a s' h ha hs) rfl
      exact ⟨a :: as, t, List.forall_mem_cons.2 ⟨ha, hown⟩, run_cons.2 ⟨s', hs, hr⟩, ht⟩

end Measure

end Runs
