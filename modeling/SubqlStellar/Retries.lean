import Mathlib.Data.List.Basic
/-!
# Retries — a call made again on a new api where it fails

`retry` makes a call, and where it throws makes it again on a new api, so many times at most; what comes of it is the
first attempt that succeeds, or the error of the last one.  Where a failed attempt leaves the state as it was, every
attempt sees the state of the first (`retry_spec`).
-/
namespace Retries

variable {Api ε α σ : Type}

/-- At most `left` attempts, the first of them on `currentApi` and each later one on what `renew` gives for the attempts
made so far. -/
def retry (attempt : Api → σ → Option (Except ε α × σ)) (renew : Nat → Except ε Api) :
    Nat → Nat → Api → ε → σ → Option (Except ε α × σ)
  | 0, _, _, throwingError, s => some (.error throwingError, s)
  | left + 1, retries, currentApi, _, s =>
    match attempt currentApi s with
    | none => none
    | some (.ok a, s')    => some (.ok a, s')
    | some (.error e, s') =>
      match renew retries with
      | .error e'    => some (.error e', s')
      | .ok nextApi  => retry attempt renew left (retries + 1) nextApi e s'

def Fails (attempt : Api → σ → Option (Except ε α × σ)) (s : σ) (api : Api) : Prop :=
  ∃ e, attempt api s = some (.error e, s)

def FirstOk (attempt : Api → σ → Option (Except ε α × σ)) (s : σ) (apis : Nat → Api) (k : Nat) (a : α) (s' : σ) :
    Prop :=
  (∀ j < k, Fails attempt s (apis j)) ∧ attempt (apis k) s = some (.ok a, s')

def LastFails (attempt : Api → σ → Option (Except ε α × σ)) (s : σ) (apis : Nat → Api) (k : Nat) (e : ε) : Prop :=
  (∀ j < k, Fails attempt s (apis j)) ∧ attempt (apis k) s = some (.error e, s)

theorem forall_lt_succ {P : Nat → Prop} {k : Nat} (h0 : P 0) (h : ∀ j < k, P (j + 1)) : ∀ j < k + 1, P j
  | 0, _      => h0
  | j + 1, hj => h j (Nat.lt_of_succ_lt_succ hj)

/-- **What comes of the attempts on a sequence of apis**: the first that succeeds, or the last one's error. -/
theorem retry_spec {attempt : Api → σ → Option (Except ε α × σ)} {renew : Nat → Except ε Api} {s : σ} :
    ∀ {apis : Nat → Api} {retries : Nat} (left : Nat) (throwingError : ε),
    (∀ i, renew (retries + i) = .ok (apis (i + 1))) →
    (∀ i, Fails attempt s (apis i) ∨ ∃ a s', attempt (apis i) s = some (.ok a, s')) →
    (∃ k ≤ left, ∃ a s', FirstOk attempt s apis k a s' ∧
      retry attempt renew (left + 1) retries (apis 0) throwingError s = some (.ok a, s')) ∨
    (∃ e, LastFails attempt s apis left e ∧
      retry attempt renew (left + 1) retries (apis 0) throwingError s = some (.error e, s))
  | apis, retries, left, throwingError, hrenew, hends => by
    rcases hends 0 with hfails | ⟨a, s', hok⟩
    · obtain ⟨e, he⟩ := id hfails
      have hnext : retry attempt renew (left + 1) retries (apis 0) throwingError s =
          retry attempt renew left (retries + 1) (apis 1) e s := by
        have hapi : renew retries = .ok (apis 1) := hrenew 0
        simp only [retry, he, hapi]
      rw [hnext]
      cases left with
      | zero => exact Or.inr ⟨e, ⟨fun j hj => absurd hj (Nat.not_lt_zero j), he⟩, rfl⟩
      | succ left =>
        have hlater : ∀ i, renew (retries + 1 + i) = .ok (apis (i + 1 + 1)) := fun i => by
          rw [Nat.add_right_comm]
          exact hrenew (i + 1)
        rcases retry_spec left e hlater (fun i => hends (i + 1)) with
          ⟨k, hk, a, s', ⟨hbefore, hok⟩, hresult⟩ | ⟨e', ⟨hbefore, hlast⟩, hresult⟩
        · exact Or.inl ⟨k + 1, by omega, a, s', ⟨forall_lt_succ hfails hbefore, hok⟩, hresult⟩
        · exact Or.inr ⟨e', ⟨forall_lt_succ hfails hbefore, hlast⟩, hresult⟩
    · refine Or.inl ⟨0, Nat.zero_le left, a, s', ⟨fun j hj => absurd hj (Nat.not_lt_zero j), hok⟩, ?_⟩
      simp only [retry, hok]

end Retries
