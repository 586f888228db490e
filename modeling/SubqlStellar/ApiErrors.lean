import Mathlib.Data.List.Infix
import SubqlStellar.BatchProgress
import SubqlStellar.Decimals
/-!
# ApiErrors — what a connection makes of an error

`StellarApiConnection.handleError` tells timeouts, disconnections, rate limits and responses that are too large by
their texts.  The texts for ledgers that the Soroban server does not have, not closed yet or dropped, are none of
these, whatever numbers are in them (`handleError_startsAfterNewest`, `handleError_startsBeforeOldest`), so a batch that
is refused for its heights is never taken for one that met a failing server (`refused_batch_default`).
-/
namespace SubqlStellar

open Decimals (infix_of_infix_number)
open Runs (run)

/-- `ApiConnectionError` and its subclasses, each made from an error. -/
inductive ApiConnectionError
  | timeout (e : JsError)
  | disconnection (e : JsError)
  | rateLimit (e : JsError)
  | largeResponse (e : JsError)
  | default (e : JsError)
deriving DecidableEq, Repr

def includes (text pattern : String) : Bool := decide (pattern.toList <:+: text.toList)

def startsWith (text pattern : String) : Bool := decide (pattern.toList <+: text.toList)

def handleError (e : JsError) : ApiConnectionError :=
  if includes e.message "Timeout" then .timeout e
  else if startsWith e.message "disconnected from " then .disconnection e
  else if includes e.message "Rate Limit Exceeded" || includes e.message "Too Many Requests" then .rateLimit e
  else if includes e.message "limit must not exceed" then .largeResponse e
  else .default e

def failureTexts : List String :=
  ["Timeout", "Rate Limit Exceeded", "Too Many Requests", "limit must not exceed"]

theorem handleError_eq_default {e : JsError} (hincludes : ∀ pattern ∈ failureTexts, includes e.message pattern = false)
    (hstart : startsWith e.message "disconnected from " = false) : handleError e = .default e := by
  simp only [failureTexts, List.forall_mem_cons] at hincludes
  obtain ⟨htimeout, hlimit, hmany, hexceed, -⟩ := hincludes
  simp [handleError, htimeout, hstart, hlimit, hmany, hexceed]

/-! ## Texts with numbers -/

/-- What the texts have around their numbers, in parts. -/
def requestedEvents : List String := ["The requested events for ledger number "]

def afterLatest : List String :=
  [" is not available on the current soroban node.\n",
    "                This is because you're trying to access a ledger that is after the latest ledger number "]

def storedInNode : List String :=
  [" stored in this node.\n", "                To resolve this issue, please check you endpoint node start height"]

def olderThanOldest : List String :=
  [" is not available on the current soroban node.\n",
    "                This is because you're trying to access a ledger that is older than the oldest ledger stored in ",
    "this node.\n",
    "                To resolve this issue, you can either:\n",
    "                1. Increase the start ledger to a more recent one, or\n",
    "                2. Connect to a different node that might have a longer history of ledgers."]

def joined (parts : List String) : List Char := parts.flatMap String.toList

theorem startsAfterNewest_toList (sequence latestLedger : Nat) :
    (startsAfterNewest sequence latestLedger).message.toList =
      joined requestedEvents ++ (sequence.repr.toList ++ (joined afterLatest ++ (latestLedger.repr.toList ++
        joined storedInNode))) := by
  have hparts : ∀ a b c d e : String, (a ++ toString sequence ++ b ++ c ++ (toString latestLedger ++ d) ++ e).toList =
      joined [a] ++ (sequence.repr.toList ++ (joined [b, c] ++ (latestLedger.repr.toList ++ joined [d, e]))) := by
    simp [joined]
  exact hparts _ _ _ _ _

theorem startsBeforeOldest_toList (sequence : Nat) : (startsBeforeOldest sequence).message.toList =
    joined requestedEvents ++ (sequence.repr.toList ++ joined olderThanOldest) := by
  have hparts : ∀ a b c d e f g : String, (a ++ toString sequence ++ b ++ c ++ d ++ e ++ f ++ g).toList =
      joined [a] ++ (sequence.repr.toList ++ joined [b, c, d, e, f, g]) := by
    simp [joined]
  exact hparts _ _ _ _ _ _ _

theorem failureTexts_no_digits : ∀ pattern ∈ failureTexts,
    pattern.toList ≠ [] ∧ ∀ c ∈ pattern.toList, c.isDigit = false := by
  have hall : ∀ pattern ∈ failureTexts, pattern.toList ≠ [] ∧ pattern.toList.all (fun c => !c.isDigit) = true := by
    decide +kernel
  intro pattern hpattern
  obtain ⟨hne, hdigits⟩ := hall pattern hpattern
  exact ⟨hne, by simpa using hdigits⟩

def NoFailureText (parts : List String) : Prop := ∀ pattern ∈ failureTexts, ¬ pattern.toList <:+: joined parts

theorem noFailureText_of_chars {parts : List String} (chars : List (List Char))
    (hparts : parts = chars.map String.ofList)
    (h : ∀ pattern ∈ failureTexts, ¬ pattern.toList <:+: chars.flatten) : NoFailureText parts := by
  have hjoined : joined parts = chars.flatten := by simp [hparts, joined, List.flatMap_map, List.flatMap_id']
  unfold NoFailureText
  rw [hjoined]
  exact h

theorem noFailureText_requestedEvents : NoFailureText requestedEvents :=
  noFailureText_of_chars [_] rfl (by decide +kernel)

theorem noFailureText_afterLatest : NoFailureText afterLatest := noFailureText_of_chars [_, _] rfl (by decide +kernel)

theorem noFailureText_storedInNode : NoFailureText storedInNode := noFailureText_of_chars [_, _] rfl (by decide +kernel)

theorem noFailureText_olderThanOldest : NoFailureText olderThanOldest :=
  noFailureText_of_chars [_, _, _, _, _, _] rfl (by decide +kernel)

theorem startsWith_disconnected {e : JsError} {rest : List Char}
    (h : e.message.toList = joined requestedEvents ++ rest) : startsWith e.message "disconnected from " = false := by
  refine decide_eq_false (fun hprefix => ?_)
  rw [h] at hprefix
  have hhead : 'd' = 'T' := (List.cons_prefix_cons.1 hprefix).1
  exact absurd hhead (by decide)

/-- **A ledger that is after the newest one is no failure of a server**, whatever the numbers. -/
theorem handleError_startsAfterNewest (sequence latestLedger : Nat) :
    handleError (startsAfterNewest sequence latestLedger) = .default (startsAfterNewest sequence latestLedger) := by
  refine handleError_eq_default (fun pattern hpattern => decide_eq_false (fun hinfix => ?_))
    (startsWith_disconnected (startsAfterNewest_toList sequence latestLedger))
  obtain ⟨hne, hdigits⟩ := failureTexts_no_digits pattern hpattern
  rw [startsAfterNewest_toList] at hinfix
  rcases infix_of_infix_number hne hdigits sequence hinfix with hinfix | hinfix
  · exact noFailureText_requestedEvents pattern hpattern hinfix
  rcases infix_of_infix_number hne hdigits latestLedger hinfix with hinfix | hinfix
  · exact noFailureText_afterLatest pattern hpattern hinfix
  · exact noFailureText_storedInNode pattern hpattern hinfix

theorem handleError_startsBeforeOldest (sequence : Nat) :
    handleError (startsBeforeOldest sequence) = .default (startsBeforeOldest sequence) := by
  refine handleError_eq_default (fun pattern hpattern => decide_eq_false (fun hinfix => ?_))
    (startsWith_disconnected (startsBeforeOldest_toList sequence))
  obtain ⟨hne, hdigits⟩ := failureTexts_no_digits pattern hpattern
  rw [startsBeforeOldest_toList] at hinfix
  rcases infix_of_infix_number hne hdigits sequence hinfix with hinfix | hinfix
  · exact noFailureText_requestedEvents pattern hpattern hinfix
  · exact noFailureText_olderThanOldest pattern hpattern hinfix

section Batches

variable {Filter : Type} {lists : HorizonLists} {rpc : RpcFilters Filter}

/-- **A batch of ledgers that Horizon has is, where no server fails, rejected only with an error that a connection takes
for none of the failures it tells apart**, in every interleaving, and whatever the ledgers' numbers. -/
theorem refused_batch_default {log : EventLog} {s : BatchSystem Filter} {labels : List (BatchLabel Filter)}
    (h : run (batchStep lists rpc) (BatchSystem.init Filter log) labels = some s)
    (hfree : ∀ label ∈ labels, FaultFree label) {batch : Batch} (hbatch : batch ∈ s.batches)
    (hledgers : ∀ sequence ∈ batch.bufferBlocks, ∃ ledger, lists.ledger sequence = .ok ledger) {e : JsError}
    (he : batch.outcome = some (.error e)) : handleError e = .default e := by
  obtain ⟨sequence, hsequence, hunavailable⟩ :=
    (rejections_of_run h hfree).exists_unavailable hbatch ((batchesOk_of_run h).batches batch hbatch) he
  cases hunavailable with
  | noLedger hledger =>
    obtain ⟨ledger, hok⟩ := hledgers sequence hsequence
    cases hok.symm.trans hledger
  | notClosed => exact handleError_startsAfterNewest sequence _
  | dropped => exact handleError_startsBeforeOldest sequence

end Batches

/-- A batch of ledger 6, which the server has dropped. -/
def droppedLabels : List (BatchLabel Unit) :=
  [.fetchBlocks sampleLimit [6], .events (.prune 7)] ++ horizonLabels 0 0 ++
    [.events (.page 0 sampleLimit), .task 0 0 .resume]

theorem refused_batch_default_dropped : ∃ batch ∈ (batchRun invokingLists droppedLabels).batches,
    batch.outcome = some (.error (startsBeforeOldest 6)) ∧
      handleError (startsBeforeOldest 6) = .default (startsBeforeOldest 6) := by
  have hrun : run (batchStep invokingLists unfiltered) (BatchSystem.init Unit invokingLog) droppedLabels =
      some (batchRun invokingLists droppedLabels) := rfl
  obtain ⟨batch, hbatch, he⟩ : ∃ batch ∈ (batchRun invokingLists droppedLabels).batches,
      batch.outcome = some (.error (startsBeforeOldest 6)) := ⟨_, List.mem_of_getElem? (i := 0) rfl, rfl⟩
  have hfree : ∀ label ∈ droppedLabels, FaultFree label := by
    simp [droppedLabels, horizonLabels, FaultFree]
  exact ⟨batch, hbatch, he, refused_batch_default hrun hfree hbatch (fun _ _ => ⟨_, rfl⟩) he⟩

end SubqlStellar
