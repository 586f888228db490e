import SubqlStellar.EventsCalls
import SubqlStellar.EventsSpill
/-!
# EventsCap — a server whose pages are shorter than the request's limit

A page that is as long as the request's limit may end inside a ledger, so its last ledger is not cached.  The server may
cap its pages below that limit, and its full pages are then not taken for full ones: what the cache holds of a ledger is
all of it only where the page that ends the fetch does not end inside one (`complete_cache_iff`).
-/
namespace SubqlStellar

open Keyed (Sorted Whole)

def CompleteCache (events : List SorobanRpcEventResponse) (eventsCache : EventsCache) : Prop :=
  ∀ ledger entry, AList.lookup ledger eventsCache = some entry → entry.events = ledgerEvents ledger events

def laterEvents (view : List SorobanRpcEventResponse) (L : Nat) : List SorobanRpcEventResponse :=
  view.filter (fun event => decide (L < event.ledger))

/-- The page that ends a fetch of `L` ends inside a later ledger: some of that ledger's events fit into it, and some
do not. -/
def EndsInsideLedger (view : List SorobanRpcEventResponse) (L pageLength : Nat) : Prop :=
  ∃ ledger,
    ledgerEvents ledger ((laterEvents view L).take (room pageLength (ledgerEvents L view).length)) ≠ [] ∧
      ledgerEvents ledger ((laterEvents view L).drop (room pageLength (ledgerEvents L view).length)) ≠ []

section Leftover

variable {view : List SorobanRpcEventResponse} {L pageLength : Nat}

theorem leftover_eq (view : List SorobanRpcEventResponse) (L pageLength pageLimit : Nat) :
    leftover view L pageLength pageLimit =
      discardLast ((laterEvents view L).take (room pageLength (ledgerEvents L view).length))
        ((laterEvents view L).take (room pageLength (ledgerEvents L view).length))
        (pageLimit - ((ledgerEvents L view).length - pageLength) % pageLength) := rfl

theorem discardLast_sublist (page events : List SorobanRpcEventResponse) (pageLimit : Nat) :
    (discardLast page events pageLimit).Sublist events := by
  unfold discardLast
  split
  · split
    · exact List.filter_sublist
    · exact List.Sublist.refl _
  · exact List.Sublist.refl _

theorem leftover_sublist (view : List SorobanRpcEventResponse) (L pageLength pageLimit : Nat) :
    (leftover view L pageLength pageLimit).Sublist (laterEvents view L) :=
  (discardLast_sublist _ _ _).trans (List.take_sublist _ _)

theorem ledgerEvents_later {ledger : Nat} (h : L < ledger) (n : Nat) : ledgerEvents ledger view =
    ledgerEvents ledger ((laterEvents view L).take n) ++ ledgerEvents ledger ((laterEvents view L).drop n) := by
  rw [← ledgerEvents_append, List.take_append_drop]
  exact (Keyed.block_filter_of _ view (fun event _ hl => decide_eq_true (hl.symm ▸ h))).symm

theorem lt_of_ledgerEvents_ne_nil {ledger : Nat} {events : List SorobanRpcEventResponse}
    (hsub : events.Sublist (laterEvents view L)) (h : ledgerEvents ledger events ≠ []) : L < ledger := by
  obtain ⟨event, he⟩ := List.exists_mem_of_ne_nil _ h
  obtain ⟨hmem, rfl⟩ := (Keyed.mem_block _).1 he
  exact of_decide_eq_true (List.mem_filter.1 (hsub.subset hmem)).2

theorem whole_take_iff : Whole SorobanRpcEventResponse.ledger view
      ((laterEvents view L).take (room pageLength (ledgerEvents L view).length)) ↔
    ¬ EndsInsideLedger view L pageLength := by
  generalize hn : room pageLength (ledgerEvents L view).length = n
  unfold EndsInsideLedger
  rw [hn]
  constructor
  · rintro hwhole ⟨ledger, hfits, hnot⟩
    have hledger : L < ledger := lt_of_ledgerEvents_ne_nil (List.take_sublist _ _) hfits
    have hsplit : ledgerEvents ledger view = _ := ledgerEvents_later hledger n
    have heq : ledgerEvents ledger ((laterEvents view L).take n) = ledgerEvents ledger view := hwhole ledger hfits
    rw [← heq] at hsplit
    exact hnot (List.self_eq_append_right.1 hsplit)
  · intro hnone ledger hfits
    have hfits : ledgerEvents ledger ((laterEvents view L).take n) ≠ [] := hfits
    have hnil : ledgerEvents ledger ((laterEvents view L).drop n) = [] :=
      not_not.1 (fun hnot => hnone ⟨ledger, hfits, hnot⟩)
    have hledger : L < ledger := lt_of_ledgerEvents_ne_nil (List.take_sublist _ _) hfits
    have hsplit : ledgerEvents ledger view = _ := ledgerEvents_later hledger n
    rw [hnil, List.append_nil] at hsplit
    exact hsplit.symm

theorem length_of_endsInside (h : EndsInsideLedger view L pageLength) :
    let n := (ledgerEvents L view).length
    ((laterEvents view L).take (room pageLength n)).length = pageLength - (n - pageLength) % pageLength ∧
      0 < pageLength - (n - pageLength) % pageLength := by
  obtain ⟨ledger, hfits, hnot⟩ := h
  have htake : (laterEvents view L).take (room pageLength (ledgerEvents L view).length) ≠ [] := by
    intro hnil
    rw [hnil] at hfits
    exact hfits rfl
  have hdrop : (laterEvents view L).drop (room pageLength (ledgerEvents L view).length) ≠ [] := by
    intro hnil
    rw [hnil] at hnot
    exact hnot rfl
  have hroom : room pageLength (ledgerEvents L view).length ≠ 0 := fun h0 => htake (by rw [h0, List.take_zero])
  have hlt : room pageLength (ledgerEvents L view).length < (laterEvents view L).length :=
    Nat.lt_of_not_le (fun hle => hdrop (List.drop_eq_nil_of_le hle))
  have hne : (ledgerEvents L view).length ≠ 0 := by
    intro h0
    rw [h0] at hroom
    exact hroom rfl
  have heq : room pageLength (ledgerEvents L view).length =
      pageLength - ((ledgerEvents L view).length - pageLength) % pageLength := if_neg hne
  show List.length _ = _ ∧ _
  rw [List.length_take, Nat.min_eq_left (Nat.le_of_lt hlt), ← heq]
  exact ⟨rfl, Nat.pos_of_ne_zero hroom⟩

theorem whole_discardLast (hsorted : Sorted SorobanRpcEventResponse.ledger view) (n : Nat) {pageLimit : Nat}
    (hlength : ((laterEvents view L).take n).length = pageLimit) : Whole SorobanRpcEventResponse.ledger view
      (discardLast ((laterEvents view L).take n) ((laterEvents view L).take n) pageLimit) := by
  have hview : view = view.filter (fun event => decide (event.ledger < L)) ++ ledgerEvents L view ++
      (laterEvents view L).take n ++ (laterEvents view L).drop n := by
    rw [List.append_assoc, List.take_append_drop]
    exact hsorted.split L
  have hbefore : ∀ event ∈ view.filter (fun event => decide (event.ledger < L)) ++ ledgerEvents L view,
      event.ledger ≤ L := by
    intro event he
    rcases List.mem_append.1 he with he | he
    · exact Nat.le_of_lt (of_decide_eq_true (List.mem_filter.1 he).2)
    · exact Nat.le_of_eq ((Keyed.mem_block _).1 he).2
  have hlater : ∀ event ∈ (laterEvents view L).take n, L < event.ledger :=
    fun event he => of_decide_eq_true (List.mem_filter.1 (List.mem_of_mem_take he)).2
  have hall : ((laterEvents view L).take n).filter (fun event => decide (event.ledger ≠ L)) =
      (laterEvents view L).take n :=
    List.filter_eq_self.2 (fun event he => decide_eq_true (Nat.ne_of_gt (hlater event he)))
  unfold discardLast
  rw [if_pos hlength]
  cases hlast : ((laterEvents view L).take n).getLast? with
  | none =>
    rw [List.getLast?_eq_none_iff.1 hlast]
    exact Whole.nil _ view
  | some lastEvent =>
    have hcut := (hview ▸ hsorted).whole_of_cut hlast hbefore (fun event he => Nat.le_of_lt (hlater event he))
    rwa [hall, ← hview] at hcut

/-- **What a fetch leaves to be cached is of whole ledgers** exactly when a full page is as long as the limit, or the
page that ends the fetch does not end inside a ledger. -/
theorem whole_leftover_iff (hsorted : Sorted SorobanRpcEventResponse.ledger view) (pageLimit : Nat) :
    Whole SorobanRpcEventResponse.ledger view (leftover view L pageLength pageLimit) ↔
      pageLength = pageLimit ∨ ¬ EndsInsideLedger view L pageLength := by
  have hwhole : Whole SorobanRpcEventResponse.ledger view
      ((laterEvents view L).take (room pageLength (ledgerEvents L view).length)) ↔
        ¬ EndsInsideLedger view L pageLength := whole_take_iff
  rw [leftover_eq]
  by_cases hinside : EndsInsideLedger view L pageLength
  · obtain ⟨hlength, hpos⟩ := length_of_endsInside hinside
    by_cases heq : pageLength = pageLimit
    · subst heq
      exact iff_of_true (whole_discardLast hsorted _ hlength) (Or.inl rfl)
    · refine iff_of_false ?_ (fun h => h.elim heq (fun hnot => hnot hinside))
      have hkeep : ¬ ((laterEvents view L).take (room pageLength (ledgerEvents L view).length)).length =
          pageLimit - ((ledgerEvents L view).length - pageLength) % pageLength := by omega
      unfold discardLast
      rw [if_neg hkeep, hwhole]
      exact not_not.2 hinside
  · refine iff_of_true ?_ (Or.inr hinside)
    have htake := hwhole.2 hinside
    unfold discardLast
    split
    · split
      · rename_i lastEvent _
        exact htake.filter_ne _ lastEvent.ledger
      · exact htake
    · exact htake

end Leftover

section Cache

variable {Filter : Type} {L : Nat}

theorem completeCache_iff (log : EventLog) {eventsToCache : CachedEventsResponse}
    (hsub : eventsToCache.events.Sublist (laterEvents log.events L)) :
    CompleteCache log.events (updateEventCache ∅ eventsToCache (some L)) ↔
      Whole SorobanRpcEventResponse.ledger log.events eventsToCache.events := by
  have hlater : ∀ event ∈ eventsToCache.events, event.ledger ≠ L :=
    fun event he => Nat.ne_of_gt (of_decide_eq_true (List.mem_filter.1 (hsub.subset he)).2)
  have hids : (eventsToCache.events.map SorobanRpcEventResponse.id).Nodup :=
    log.distinctIds.sublist ((hsub.trans List.filter_sublist).map _)
  have hlookup : ∀ ledger, AList.lookup ledger (updateEventCache ∅ eventsToCache (some L)) =
      if ledgerEvents ledger eventsToCache.events = [] then none
      else some ⟨ledgerEvents ledger eventsToCache.events, eventsToCache.latestLedger⟩ := by
    intro ledger
    have hmerge : Keyed.mergeOn SorobanRpcEventResponse.id [] (ledgerEvents ledger eventsToCache.events) =
        ledgerEvents ledger eventsToCache.events :=
      Keyed.mergeOn_nil _ (hids.sublist (List.filter_sublist.map _))
    have hempty : AList.lookup ledger (∅ : EventsCache) = none := AList.lookup_empty ledger
    rw [lookup_updateEventCache _ _ _ _ hlater, hempty, entryOr, hempty, Option.getD_none, CachedEventsResponse.merge,
      hmerge]
  constructor
  · intro hcomplete ledger hne
    have hentry := hlookup ledger
    rw [if_neg hne] at hentry
    exact hcomplete ledger _ hentry
  · intro hwhole ledger entry hentry
    rw [hlookup ledger] at hentry
    split at hentry
    · cases hentry
    · rename_i hne
      cases hentry
      exact hwhole ledger hne

theorem closed_of_getEvents {log : EventLog} {rpc : RpcFilters Filter} {cut : GetEventsRequest Filter → Nat}
    {fuel : Nat} {eventsCache eventsCache' : EventsCache} (hnone : AList.lookup L eventsCache = none)
    {filters : List Filter} {limit : Option Nat} {events : CachedEventsResponse}
    (h : getEvents (serve log rpc cut) fuel eventsCache ⟨some L, none, filters, none, limit⟩ =
      some (.ok events, eventsCache')) : L ≤ log.newestLedger := by
  by_contra hlt
  cases fuel with
  | zero =>
    obtain ⟨eventsToCache, hfetch, -⟩ := (getEvents_eq_ok hnone).1 h
    cases hfetch
  | succ fuel =>
    rw [getEvents_rejected (Nat.lt_of_not_le hlt) hnone] at h
    cases h

theorem getEvents_of_no_page {log : EventLog} {rpc : RpcFilters Filter} {cut : GetEventsRequest Filter → Nat}
    (hL : L ≤ log.newestLedger) {limit : Option Nat} (hcut : ∀ request, request.limit = limit → cut request = 0)
    (fuel : Nat) (filters : List Filter) : ∃ events eventsCache,
      getEvents (serve log rpc cut) (fuel + 1) ∅ ⟨some L, none, filters, none, limit⟩ =
        some (.ok events, eventsCache) := by
  have hserve : serve log rpc cut ⟨some L, some (L + 1), filters, none, limit⟩ = .ok _ :=
    serve_eq_nextPage hL (@Fetching.first _ log.events L filters limit)
  rw [hcut _ rfl] at hserve
  refine ⟨⟨[], log.newestLedger⟩, _,
    (getEvents_eq_ok (AList.lookup_empty L)).2 ⟨⟨[], log.newestLedger⟩, ?_, rfl⟩⟩
  -- a page of no length ends the fetch
  simp [fetchEventsForSequence, hserve, onResponse, nextPage]

/-- **Every ledger that a first call leaves in the cache is complete if and only if the server's full pages are as long
as the limit that the code assumes, or the page that ends the fetch does not end inside a ledger**; and the call
returns. -/
theorem complete_cache_iff (log : EventLog) (rpc : RpcFilters Filter) (cap : ℕ+) (L : Nat) (limit : Option Nat) :
    (∀ fuel events eventsCache,
      getEvents (serve log rpc (cappedPage cap)) fuel ∅ ⟨some L, none, [], none, limit⟩ =
        some (.ok events, eventsCache) →
      (CompleteCache log.events eventsCache ↔
        pageCap cap limit = limit.getD DEFAULT_PAGE_SIZE ∨ ¬ EndsInsideLedger log.events L (pageCap cap limit))) ∧
    (L ≤ log.newestLedger → ∀ fuel, (ledgerEvents L log.events).length < fuel → ∃ events eventsCache,
      getEvents (serve log rpc (cappedPage cap)) fuel ∅ ⟨some L, none, [], none, limit⟩ =
        some (.ok events, eventsCache)) := by
  have hcut : ∀ request : GetEventsRequest Filter, request.limit = limit → cappedPage cap request = pageCap cap limit :=
    fun request hlimit => congrArg (pageCap cap) hlimit
  have hnone : AList.lookup L (∅ : EventsCache) = none := AList.lookup_empty L
  constructor
  · intro fuel events eventsCache h
    have hL := closed_of_getEvents hnone h
    obtain ⟨eventsToCache, hfetch, rfl⟩ := (getEvents_eq_ok hnone).1 h
    have hleft := fetchEventsForSequence_leftover hcut hL hfetch
    rw [view_nil] at hleft
    have hsub : eventsToCache.events.Sublist (laterEvents log.events L) := hleft ▸ leftover_sublist _ _ _ _
    rw [completeCache_iff log hsub, hleft]
    exact whole_leftover_iff log.sorted _
  · intro hL fuel hfuel
    rcases Nat.eq_zero_or_pos (pageCap cap limit) with hzero | hpos
    · obtain ⟨fuel, rfl⟩ := Nat.exists_eq_succ_of_ne_zero (Nat.ne_of_gt (Nat.lt_of_le_of_lt (Nat.zero_le _) hfuel))
      exact getEvents_of_no_page hL (fun request hlimit => (hcut request hlimit).trans hzero) fuel []
    · rw [← view_nil log rpc] at hfuel
      obtain ⟨eventsToCache, -, hget, -, -⟩ :=
        getEvents_miss (fun request hlimit => (hcut request hlimit).symm ▸ hpos) hL hnone hfuel
      exact ⟨_, _, hget⟩

end Cache

/-! ## A page that ends inside a ledger -/

def cappedLog : EventLog where
  events := [sampleEvent "e1" 1, sampleEvent "e2" 2, sampleEvent "e3" 2]
  newestLedger := 2
  sorted := by decide
  closed := by decide
  distinctIds := by decide

/-- **A server that sends one event at a time**: the call for ledger 1 caches half of ledger 2, and the call for
ledger 2 is answered with it. -/
theorem capped_cache_incomplete : ∃ events eventsCache events' eventsCache',
    getEvents (serve cappedLog unfiltered (cappedPage 1)) 3 ∅ ⟨some 1, none, [], none, none⟩ =
        some (.ok events, eventsCache) ∧
      ¬ CompleteCache cappedLog.events eventsCache ∧
      getEvents (serve cappedLog unfiltered (cappedPage 1)) 3 eventsCache ⟨some 2, none, [], none, none⟩ =
        some (.ok events', eventsCache') ∧
      events'.events = [sampleEvent "e2" 2] ∧
      ledgerEvents 2 cappedLog.events = [sampleEvent "e2" 2, sampleEvent "e3" 2] := by
  refine ⟨_, _, _, _, rfl, fun hcomplete => ?_, rfl, rfl, rfl⟩
  have hentry := hcomplete 2 ⟨[sampleEvent "e2" 2], 2⟩ rfl
  cases hentry

end SubqlStellar
