import SubqlStellar.SorobanServer
/-!
# EventsCache — what the cache holds after an update

`updateEventCache` merges each ledger's events into that ledger's entry by event id (`lookup_updateEventCache`): a
ledger the response has no event of keeps its entry as it was.
-/
namespace SubqlStellar

open Keyed (block mergeOn mergeStep block_cons)

abbrev ledgerEvents (ledger : Nat) (events : List SorobanRpcEventResponse) : List SorobanRpcEventResponse :=
  block SorobanRpcEventResponse.ledger ledger events

theorem ledgerEvents_cons (ledger : Nat) (event : SorobanRpcEventResponse) (events : List SorobanRpcEventResponse) :
    ledgerEvents ledger (event :: events) =
      if event.ledger = ledger then event :: ledgerEvents ledger events else ledgerEvents ledger events :=
  block_cons _ ledger event events

theorem ledgerEvents_append (ledger : Nat) (events events' : List SorobanRpcEventResponse) :
    ledgerEvents ledger (events ++ events') = ledgerEvents ledger events ++ ledgerEvents ledger events' :=
  Keyed.block_append _ ledger events events'

/-- A ledger's entry, or the one `updateEventCache` starts from. -/
def entryOr (eventsCache : EventsCache) (ledger latestLedger : Nat) : CachedEventsResponse :=
  (AList.lookup ledger eventsCache).getD ⟨[], latestLedger⟩

def CachedEventsResponse.merge (entry : CachedEventsResponse) (events : List SorobanRpcEventResponse) :
    CachedEventsResponse :=
  { entry with events := mergeOn SorobanRpcEventResponse.id entry.events events }

theorem lookup_cacheEvent_self (latestLedger : Nat) (ignoreHeight : Option Nat) (eventsCache : EventsCache)
    (event : SorobanRpcEventResponse) (h : ignores ignoreHeight event.ledger = false) :
    AList.lookup event.ledger (cacheEvent latestLedger ignoreHeight eventsCache event) =
      some ((entryOr eventsCache event.ledger latestLedger).merge [event]) := by
  unfold cacheEvent
  rw [h, if_neg Bool.false_ne_true, AList.lookup_insert]
  simp only [CachedEventsResponse.merge, mergeOn, mergeStep, entryOr, List.foldl_cons, List.foldl_nil]
  split <;> rfl

theorem lookup_cacheEvent_ne (latestLedger : Nat) (ignoreHeight : Option Nat) (eventsCache : EventsCache)
    (event : SorobanRpcEventResponse) (ledger : Nat) (h : event.ledger ≠ ledger ∨ ignores ignoreHeight ledger = true) :
    AList.lookup ledger (cacheEvent latestLedger ignoreHeight eventsCache event) = AList.lookup ledger eventsCache := by
  unfold cacheEvent
  split
  · rfl
  · rename_i hig
    have hne : event.ledger ≠ ledger := by
      rcases h with h | h
      · exact h
      · intro he
        rw [he, h] at hig
        exact hig rfl
    exact AList.lookup_insert_ne hne.symm

theorem lookup_foldl_cacheEvent (latestLedger : Nat) (ignoreHeight : Option Nat) (ledger : Nat)
    (hig : ignores ignoreHeight ledger = false) : ∀ (events : List SorobanRpcEventResponse) (eventsCache : EventsCache),
    AList.lookup ledger (events.foldl (cacheEvent latestLedger ignoreHeight) eventsCache) =
      if ledgerEvents ledger events = [] then AList.lookup ledger eventsCache
      else some ((entryOr eventsCache ledger latestLedger).merge (ledgerEvents ledger events))
  | [], _ => rfl
  | event :: events, eventsCache => by
    rw [List.foldl_cons, lookup_foldl_cacheEvent latestLedger ignoreHeight ledger hig events, ledgerEvents_cons]
    by_cases he : event.ledger = ledger
    · subst he
      rw [if_pos rfl, if_neg (List.cons_ne_nil _ _), entryOr,
        lookup_cacheEvent_self latestLedger ignoreHeight eventsCache event hig]
      split
      · rename_i hnil
        rw [hnil]
      · rfl
    · rw [if_neg he, entryOr, lookup_cacheEvent_ne latestLedger ignoreHeight eventsCache event ledger (Or.inl he)]
      rfl

theorem lookup_foldl_cacheEvent_ignored (latestLedger : Nat) (ignoreHeight : Option Nat) (ledger : Nat)
    (hig : ignores ignoreHeight ledger = true) : ∀ (events : List SorobanRpcEventResponse) (eventsCache : EventsCache),
    AList.lookup ledger (events.foldl (cacheEvent latestLedger ignoreHeight) eventsCache) =
      AList.lookup ledger eventsCache
  | [], _ => rfl
  | event :: events, eventsCache => by
    rw [List.foldl_cons, lookup_foldl_cacheEvent_ignored latestLedger ignoreHeight ledger hig events,
      lookup_cacheEvent_ne latestLedger ignoreHeight eventsCache event ledger (Or.inr hig)]

/-- **What `updateEventCache` leaves at a ledger**, when the response has no event of the ignored height. -/
theorem lookup_updateEventCache (eventsCache : EventsCache) (response : CachedEventsResponse) (sequence ledger : Nat)
    (hseq : ∀ event ∈ response.events, event.ledger ≠ sequence) :
    AList.lookup ledger (updateEventCache eventsCache response (some sequence)) =
      if ledgerEvents ledger response.events = [] then AList.lookup ledger eventsCache
      else some ((entryOr eventsCache ledger response.latestLedger).merge (ledgerEvents ledger response.events)) := by
  unfold updateEventCache
  cases hig : ignores (some sequence) ledger with
  | false => exact lookup_foldl_cacheEvent response.latestLedger (some sequence) ledger hig response.events eventsCache
  | true =>
    simp only [ignores, Option.any_some, Bool.and_eq_true, decide_eq_true_eq] at hig
    obtain ⟨h0, rfl⟩ := hig
    have hnil : ledgerEvents sequence response.events = [] := (Keyed.block_eq_nil _).2 hseq
    rw [if_pos hnil]
    exact lookup_foldl_cacheEvent_ignored response.latestLedger (some sequence) sequence (by simp [ignores, h0])
      response.events eventsCache

end SubqlStellar
