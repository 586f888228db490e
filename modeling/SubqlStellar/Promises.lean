import Mathlib.Data.List.Basic
/-!
# Promises — several results waited for together

`all` is what a list of results, each still to come, fulfilled or rejected, makes of the promise that waits for all of
them: rejected as soon as one is, fulfilled once they all are, with their values in the list's order.  A promise settles
once (`settle`): what its results become later changes nothing.
-/
namespace Promises

variable {ε α : Type}

def rejection : Option (Except ε α) → Option ε
  | some (.error e) => some e
  | _ => none

def values : List (Option (Except ε α)) → Option (List α)
  | [] => some []
  | some (.ok a) :: results => (values results).map (fun as => a :: as)
  | _ :: _ => none

/-- `Promise.all`, over the results there are so far. -/
def all (results : List (Option (Except ε α))) : Option (Except ε (List α)) :=
  match results.findSome? rejection with
  | some e => some (.error e)
  | none => (values results).map .ok

def settle (outcome : Option (Except ε (List α))) (results : List (Option (Except ε α))) :
    Option (Except ε (List α)) :=
  match outcome with
  | some outcome => some outcome
  | none => all results

theorem rejection_eq_some {result : Option (Except ε α)} {e : ε} :
    rejection result = some e ↔ result = some (.error e) := by
  cases result with
  | none => simp [rejection]
  | some result => cases result <;> simp [rejection]

theorem values_eq_some : ∀ {results : List (Option (Except ε α))} {as : List α},
    values results = some as ↔ results = as.map (fun a => some (.ok a))
  | [], as => by cases as <;> simp [values]
  | none :: results, as => by cases as <;> simp [values]
  | some (.error e) :: results, as => by cases as <;> simp [values]
  | some (.ok a) :: results, as => by
    simp only [values, Option.map_eq_some_iff]
    constructor
    · rintro ⟨bs, hbs, rfl⟩
      rw [List.map_cons, values_eq_some.1 hbs]
    · intro h
      cases as with
      | nil => cases h
      | cons b bs =>
        simp only [List.map_cons, List.cons.injEq, Option.some.injEq, Except.ok.injEq] at h
        exact ⟨bs, values_eq_some.2 h.2, by rw [h.1]⟩

theorem values_eq_none : ∀ {results : List (Option (Except ε α))},
    values results = none → results.findSome? rejection = none → none ∈ results
  | [], h, _ => by cases h
  | none :: results, _, _ => List.mem_cons_self
  | some (.error e) :: results, _, h => by cases h
  | some (.ok a) :: results, h, hrej => by
    simp only [values, Option.map_eq_none_iff] at h
    rw [List.findSome?_cons] at hrej
    exact List.mem_cons_of_mem _ (values_eq_none h hrej)

theorem all_eq_ok {results : List (Option (Except ε α))} {as : List α} (h : all results = some (.ok as)) :
    results = as.map (fun a => some (.ok a)) := by
  unfold all at h
  split at h
  · cases h
  · cases hvalues : values results with
    | none =>
      rw [hvalues] at h
      cases h
    | some bs =>
      rw [hvalues] at h
      cases h
      exact values_eq_some.1 hvalues

theorem all_eq_error {results : List (Option (Except ε α))} {e : ε} (h : all results = some (.error e)) :
    some (.error e) ∈ results := by
  unfold all at h
  split at h
  · rename_i e' hfind
    cases h
    obtain ⟨result, hmem, hresult⟩ := List.exists_of_findSome?_eq_some hfind
    rw [← rejection_eq_some.1 hresult]
    exact hmem
  · cases hvalues : values results with
    | none =>
      rw [hvalues] at h
      cases h
    | some bs =>
      rw [hvalues] at h
      cases h

/-- **What `all` still waits for has not come.** -/
theorem all_eq_none {results : List (Option (Except ε α))} (h : all results = none) : none ∈ results := by
  unfold all at h
  split at h
  · cases h
  · rename_i hfind
    exact values_eq_none (Option.map_eq_none_iff.1 h) hfind

structure Settled (outcome : Option (Except ε (List α))) (results : List (Option (Except ε α))) : Prop where
  waiting : outcome = none → none ∈ results
  fulfilled : ∀ as, outcome = some (.ok as) → results = as.map (fun a => some (.ok a))
  rejected : ∀ e, outcome = some (.error e) → some (.error e) ∈ results

theorem settled_all (results : List (Option (Except ε α))) : Settled (all results) results :=
  ⟨all_eq_none, fun _ => all_eq_ok, fun _ => all_eq_error⟩

/-- **When a result that had not come does, the outcome stays right**: a fulfilled promise waited for none. -/
theorem Settled.set {outcome : Option (Except ε (List α))} {results : List (Option (Except ε α))} {k : Nat}
    (h : Settled outcome results) (hk : results[k]? = some none) (result : Option (Except ε α)) :
    Settled (settle outcome (results.set k result)) (results.set k result) := by
  cases outcome with
  | none => exact settled_all _
  | some outcome =>
    cases outcome with
    | ok as =>
      have hnone : none ∈ results := List.mem_of_getElem? hk
      rw [h.fulfilled as rfl] at hnone
      obtain ⟨_, _, heq⟩ := List.mem_map.1 hnone
      cases heq
    | error e =>
      refine ⟨nofun, nofun, fun e' he => ?_⟩
      obtain ⟨i, hi⟩ := List.mem_iff_getElem?.1 (h.rejected e rfl)
      have hne : k ≠ i := by
        rintro rfl
        cases hk.symm.trans hi
      cases he
      exact List.mem_of_getElem? ((List.getElem?_set_ne hne).trans hi)

end Promises
