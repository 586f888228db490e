import Mathlib.Data.PNat.Defs
import SubqlStellar.EventsCalls
import SubqlStellar.EventsFetch
/-!
# EventsPaging — a fetch against any paging

A server may cut its events into pages as it likes, anew at each call (`Paging`): it sends some of what remains, and
nothing only where nothing remains.  Whatever it sends, a fetch ends after at most one call more than its ledger has
events, with exactly those events (`fetch_terminates`): a page after which the fetch goes on holds one of them.
-/
namespace SubqlStellar

open Keyed (Sorted)

variable {Filter : Type}

/-- How a server pages: how many events it sends at most, and which ledger it calls the latest, by the number of the
call and the request. -/
structure Paging (Filter : Type) where
  pageLength : Nat → GetEventsRequest Filter → ℕ+
  latestLedger : Nat → Nat

def Paging.getPage (paging : Paging Filter) (view : List SorobanRpcEventResponse) (call : Nat)
    (request : GetEventsRequest Filter) : Except JsError GetEventsResponse :=
  .ok (nextPage view (paging.latestLedger call) (paging.pageLength call request) request)

section Run

variable {view : List SorobanRpcEventResponse} {L : Nat}

theorem Paging.answersPages (paging : Paging Filter) (view : List SorobanRpcEventResponse) (L : Nat)
    (filters : List Filter) (limit : Option Nat) :
    AnswersPages (paging.getPage view) view L filters limit paging.latestLedger
      (fun call request => paging.pageLength call request) :=
  fun call request _ _ _ _ => ⟨(paging.pageLength call request).2, rfl⟩

theorem Paging.fetch_ends (paging : Paging Filter) (hsorted : Sorted SorobanRpcEventResponse.ledger view)
    (filters : List Filter) (limit : Option Nat) :
    ∃ events eventsToCache calls, calls ≤ (ledgerEvents L view).length + 1 ∧ events.events = ledgerEvents L view ∧
      ∀ fuel, (ledgerEvents L view).length + 1 ≤ fuel →
        fetchByCall (paging.getPage view) L fuel 0 ⟨some L, some (L + 1), filters, none, limit⟩ [] =
          some (.ok (events, eventsToCache), calls) := by
  obtain ⟨events, eventsToCache, calls, hcalls, hfetch, _, _, -, hends⟩ :=
    fetchByCall_ends (paging.answersPages view L filters limit) hsorted ((ledgerEvents L view).length + 1) 0
      rfl rfl (Fetching.first filters limit) (by rw [List.length_nil, Nat.zero_add]; exact Nat.lt_succ_self _)
  rw [List.length_nil, Nat.add_zero, Nat.zero_add] at hcalls
  exact ⟨events, eventsToCache, calls, hcalls, by rw [hends.events_eq],
    fun fuel hfuel => fetchByCall_mono hfuel hfetch⟩

theorem beginGetEvents_miss {eventsCache : EventsCache} (hmiss : AList.lookup L eventsCache = none)
    (filters : List Filter) (limit : Option Nat) :
    beginGetEvents eventsCache ⟨some L, none, filters, none, limit⟩ =
      .miss L ⟨some L, some (L + 1), filters, none, limit⟩ := by
  simp only [beginGetEvents, hmiss, Option.getD_none]

/-- **A fetch ends, whatever the paging and the limit**: on a cache miss, after at most one call more than the ledger
has events, with exactly those events. -/
theorem fetch_terminates (hsorted : Sorted SorobanRpcEventResponse.ledger view) {eventsCache : EventsCache}
    (hmiss : AList.lookup L eventsCache = none) (filters : List Filter) (limit : Option Nat) (paging : Paging Filter) :
    ∃ request, beginGetEvents eventsCache ⟨some L, none, filters, none, limit⟩ = .miss L request ∧
      ∃ events eventsToCache calls, calls ≤ (ledgerEvents L view).length + 1 ∧ events.events = ledgerEvents L view ∧
        ∀ fuel, (ledgerEvents L view).length + 1 ≤ fuel →
          fetchByCall (paging.getPage view) L fuel 0 request [] = some (.ok (events, eventsToCache), calls) :=
  ⟨_, beginGetEvents_miss hmiss filters limit, paging.fetch_ends hsorted filters limit⟩

/-- **So does `fetchEventsForSequence`**, of a server that pages a request the same way at each call. -/
theorem fetchEventsForSequence_terminates (hsorted : Sorted SorobanRpcEventResponse.ledger view)
    {eventsCache : EventsCache} (hmiss : AList.lookup L eventsCache = none) (filters : List Filter)
    (limit : Option Nat) (pageLength : GetEventsRequest Filter → ℕ+) (latestLedger : Nat) :
    ∃ request, beginGetEvents eventsCache ⟨some L, none, filters, none, limit⟩ = .miss L request ∧
      ∃ events eventsToCache, events.events = ledgerEvents L view ∧
        ∀ fuel, (ledgerEvents L view).length + 1 ≤ fuel →
          fetchEventsForSequence (fun request => .ok (nextPage view latestLedger (pageLength request) request)) L fuel
            request [] = some (.ok (events, eventsToCache)) := by
  let paging : Paging Filter := ⟨fun _ => pageLength, fun _ => latestLedger⟩
  obtain ⟨events, eventsToCache, calls, -, hevents, hfetch⟩ := paging.fetch_ends (L := L) hsorted filters limit
  refine ⟨_, beginGetEvents_miss hmiss filters limit, events, eventsToCache, hevents, fun fuel hfuel => ?_⟩
  exact (fetchByCall_fst (paging.getPage view 0) L fuel 0 ⟨some L, some (L + 1), filters, none, limit⟩ []).symm.trans
    (congrArg (Option.map Prod.fst) (hfetch fuel hfuel))

end Run

/-- Ledger 1 of two events, by a server that sends more at each call. -/
theorem fetch_terminates_sample : ∃ events eventsToCache calls, calls ≤ 3 ∧
    events.events = [sampleEvent "e1" 1, sampleEvent "e2" 1] ∧
    fetchByCall (Paging.getPage ⟨fun call _ => call.succPNat, fun _ => 3⟩ sampleLog.events) 1 3 0
      ⟨some 1, some 2, ([] : List Unit), none, none⟩ [] = some (.ok (events, eventsToCache), calls) := by
  obtain ⟨request, hrequest, events, eventsToCache, calls, hcalls, hevents, hfetch⟩ :=
    fetch_terminates sampleLog.sorted (AList.lookup_empty 1) ([] : List Unit) none
      ⟨fun call _ => call.succPNat, fun _ => 3⟩
  cases hrequest
  exact ⟨events, eventsToCache, calls, hcalls, hevents, hfetch 3 (by decide)⟩

end SubqlStellar
