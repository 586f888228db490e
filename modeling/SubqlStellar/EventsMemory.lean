import SubqlStellar.EventsCalls
/-!
# EventsMemory — how much the cache holds

An event is cached once, under its own ledger, so the cache never holds more events than the server has, whatever the
interleaving, the filters and the pages.  A finished call is the only step that adds to the cache, and it adds less than
a page where no page is longer than its request's limit: of a full one the last event is not cached
(`toCache_length_lt`).
-/
namespace SubqlStellar

open Runs (run AllSteps)

def cachedEvents (eventsCache : EventsCache) : Nat := eventsCache.weight (fun entry => entry.events.length)

theorem cachedEvents_erase (eventsCache : EventsCache) (ledger : Nat) :
    cachedEvents (AList.erase ledger eventsCache) ≤ cachedEvents eventsCache := by
  have herase := Keyed.Table.weight_erase (fun entry : CachedEventsResponse => entry.events.length) eventsCache ledger
  unfold cachedEvents
  omega

theorem cachedEvents_cacheEvent (latestLedger : Nat) (ignoreHeight : Option Nat) (eventsCache : EventsCache)
    (event : SorobanRpcEventResponse) :
    cachedEvents (cacheEvent latestLedger ignoreHeight eventsCache event) ≤ cachedEvents eventsCache + 1 := by
  unfold cacheEvent
  split
  · exact Nat.le_succ _
  simp only
  have hinsert := Keyed.Table.weight_insert (fun entry : CachedEventsResponse => entry.events.length) eventsCache
    event.ledger
  have hentry : (entryOr eventsCache event.ledger latestLedger).events.length =
      (AList.lookup event.ledger eventsCache).elim 0 (fun entry => entry.events.length) := by
    unfold entryOr
    cases AList.lookup event.ledger eventsCache <;> rfl
  split
  · have := hinsert (entryOr eventsCache event.ledger latestLedger)
    simp only [entryOr] at this hentry
    unfold cachedEvents
    omega
  · have := hinsert { entryOr eventsCache event.ledger latestLedger with
      events := (entryOr eventsCache event.ledger latestLedger).events ++ [event] }
    simp only [entryOr, List.length_append, List.length_singleton] at this hentry
    unfold cachedEvents
    omega

theorem cachedEvents_foldl (latestLedger : Nat) (ignoreHeight : Option Nat) :
    ∀ (events : List SorobanRpcEventResponse) (eventsCache : EventsCache),
    cachedEvents (events.foldl (cacheEvent latestLedger ignoreHeight) eventsCache) ≤
      cachedEvents eventsCache + events.length
  | [], _ => Nat.le_refl _
  | event :: events, eventsCache => by
    have hfirst := cachedEvents_cacheEvent latestLedger ignoreHeight eventsCache event
    have hrest := cachedEvents_foldl latestLedger ignoreHeight events
      (cacheEvent latestLedger ignoreHeight eventsCache event)
    rw [List.foldl_cons, List.length_cons]
    omega

theorem cachedEvents_update (eventsCache : EventsCache) (response : CachedEventsResponse) (ignoreHeight : Option Nat) :
    cachedEvents (updateEventCache eventsCache response ignoreHeight) ≤
      cachedEvents eventsCache + response.events.length :=
  cachedEvents_foldl response.latestLedger ignoreHeight response.events eventsCache

def NoEmptyEntry (eventsCache : EventsCache) : Prop :=
  ∀ ledger entry, AList.lookup ledger eventsCache = some entry → 1 ≤ entry.events.length

theorem noEmptyEntry_cacheEvent {latestLedger : Nat} {ignoreHeight : Option Nat} {eventsCache : EventsCache}
    (event : SorobanRpcEventResponse) (h : NoEmptyEntry eventsCache) :
    NoEmptyEntry (cacheEvent latestLedger ignoreHeight eventsCache event) := by
  unfold cacheEvent
  split
  · exact h
  intro ledger entry hlookup
  rw [Keyed.Table.lookup_insert_eq] at hlookup
  split at hlookup
  · cases hlookup
    split
    · rename_i hexists
      obtain ⟨existingEvent, hmem, -⟩ := List.any_eq_true.1 hexists
      exact List.length_pos_of_mem hmem
    · rw [List.length_append]
      exact Nat.le_add_left _ _
  · exact h ledger entry hlookup

theorem noEmptyEntry_update {eventsCache : EventsCache} (response : CachedEventsResponse) (ignoreHeight : Option Nat)
    (h : NoEmptyEntry eventsCache) : NoEmptyEntry (updateEventCache eventsCache response ignoreHeight) :=
  List.foldlRecOn response.events _ h (fun _ hc event _ => noEmptyEntry_cacheEvent event hc)

section System

variable {Filter : Type} {rpc : RpcFilters Filter}

theorem length_filter_lt {event : SorobanRpcEventResponse} {p : SorobanRpcEventResponse → Bool}
    {events : List SorobanRpcEventResponse} (h : event ∈ events) (hp : p event = false) :
    (events.filter p).length < events.length := by
  rw [List.length_filter_lt_length_iff_exists]
  exact ⟨event, h, by simp [hp]⟩

theorem length_discardLast_lt {page : List SorobanRpcEventResponse} {L pageLimit : Nat} (hpos : 0 < pageLimit)
    (hpage : page.length ≤ pageLimit) :
    (discardLast page (page.filter (fun event => decide (event.ledger ≠ L))) pageLimit).length < pageLimit := by
  unfold discardLast
  split
  · rename_i hfull
    cases hlast : page.getLast? with
    | none =>
      rw [List.getLast?_eq_none_iff.1 hlast]
      exact hpos
    | some lastEvent =>
      have hmem : lastEvent ∈ page := List.mem_of_getLast? hlast
      simp only [List.filter_filter]
      rw [← hfull]
      exact length_filter_lt hmem (by simp)
  · rename_i hshort
    have hle : (page.filter (fun event => decide (event.ledger ≠ L))).length ≤ page.length := List.length_filter_le _ _
    omega

/-- **What a fetch leaves to be cached is less than a page**: of a full page, not its last event. -/
theorem toCache_length_lt {L pageLimit : Nat} {request : GetEventsRequest Filter}
    {accEvents : List SorobanRpcEventResponse} {response : GetEventsResponse}
    {events eventsToCache : CachedEventsResponse} (hpos : 0 < pageLimit)
    (hlimit : request.limit.getD DEFAULT_PAGE_SIZE = pageLimit) (hpage : response.events.length ≤ pageLimit)
    (h : onResponse L request accEvents response = .done events eventsToCache) :
    eventsToCache.events.length < pageLimit := by
  unfold onResponse at h
  simp only [hlimit] at h
  split at h
  · injection h with _ h
    subst h
    exact length_discardLast_lt hpos hpage
  · split at h
    · injection h with _ h
      subst h
      exact hpos
    · cases h

theorem answer_length {log : EventLog} {pageLength : Nat} {request : GetEventsRequest Filter}
    {response : GetEventsResponse} (h : answer log rpc pageLength request = .ok response) :
    response.events.length ≤ pageLength := by
  unfold answer at h
  split at h
  · cases h
  · cases h
    exact List.length_take_le _ _

/-- A call whose limit, 150 where it has none, is at most `maxLimit`, and with less than such a page to cache. -/
inductive WithinLimit (maxLimit : Nat) : Call Filter → Prop
  | fetching {L : Nat} {request : GetEventsRequest Filter} {accEvents : List SorobanRpcEventResponse}
      (hpos : 0 < request.limit.getD DEFAULT_PAGE_SIZE) (hle : request.limit.getD DEFAULT_PAGE_SIZE ≤ maxLimit) :
      WithinLimit maxLimit (.fetching L request accEvents)
  | fetched {L : Nat} {events eventsToCache : CachedEventsResponse} (hlt : eventsToCache.events.length < maxLimit) :
      WithinLimit maxLimit (.fetched L events eventsToCache)
  | resolved {L : Nat} {response : CachedEventsResponse} : WithinLimit maxLimit (.resolved L response)
  | failed {L : Nat} {e : JsError} : WithinLimit maxLimit (.failed L e)

def Call.PageFits (cap : ℕ+) : Call Filter → Prop
  | .fetching _ request _ => cappedPage cap request ≤ request.limit.getD DEFAULT_PAGE_SIZE
  | _                     => True

/-- Limits, 150 where there is none, are at most `maxLimit`, and no page is longer than its limit. -/
def LimitAtMost (maxLimit : Nat) (s : EventsSystem Filter) : Label Filter → Prop
  | .start _ _ limit => (limit.map PNat.val).getD DEFAULT_PAGE_SIZE ≤ maxLimit
  | .page i cap      => ∀ call ∈ s.calls[i]?, call.PageFits cap
  | _                => True

instance (cap : ℕ+) : DecidablePred (fun call : Call Filter => call.PageFits cap)
  | .fetching _ request _ => inferInstanceAs (Decidable (cappedPage cap request ≤ request.limit.getD DEFAULT_PAGE_SIZE))
  | .fetched _ _ _ | .resolved _ _ | .failed _ _ => isTrue trivial

instance (maxLimit : Nat) (s : EventsSystem Filter) : DecidablePred (LimitAtMost maxLimit s)
  | .start _ _ limit => inferInstanceAs (Decidable ((limit.map PNat.val).getD DEFAULT_PAGE_SIZE ≤ maxLimit))
  | .page i cap      => inferInstanceAs (Decidable (∀ call ∈ s.calls[i]?, call.PageFits cap))
  | .fail _ _ | .finish _ | .close _ | .prune _ => isTrue trivial

def Label.isFinish : Label Filter → Bool
  | .finish _ => true
  | _ => false

theorem withinLimit_step {maxLimit : Nat} {s s' : EventsSystem Filter} {label : Label Filter}
    (hcalls : ∀ call ∈ s.calls, WithinLimit maxLimit call) (hlabel : LimitAtMost maxLimit s label)
    (h : Moves rpc s label s') : ∀ call ∈ s'.calls, WithinLimit maxLimit call := by
  cases h with
  | hit => exact forall_mem_append hcalls WithinLimit.resolved
  | @miss height filters limit hnone =>
    have hpos : 0 < (limit.map PNat.val).getD DEFAULT_PAGE_SIZE := by
      cases limit with
      | none => exact Nat.succ_pos _
      | some limit => exact limit.2
    exact forall_mem_append hcalls (WithinLimit.fetching hpos hlabel)
  | refused => exact forall_mem_set _ hcalls WithinLimit.failed
  | last hcall hpage hdone =>
    refine forall_mem_set _ hcalls ?_
    cases hcalls _ (List.mem_of_getElem? hcall) with
    | fetching hpos hle =>
      have hlength := Nat.le_trans (answer_length (getPage_eq_ok hpage)) (hlabel _ hcall)
      exact WithinLimit.fetched (Nat.lt_of_lt_of_le (toCache_length_lt hpos rfl hlength hdone) hle)
  | more hcall hpage hnext =>
    refine forall_mem_set _ hcalls ?_
    cases hcalls _ (List.mem_of_getElem? hcall) with
    | fetching hpos hle =>
      rw [← onResponse_limit hnext] at hpos hle
      exact WithinLimit.fetching hpos hle
  | fail => exact forall_mem_set _ hcalls WithinLimit.failed
  | finish => exact forall_mem_set _ hcalls WithinLimit.resolved
  | close => exact hcalls
  | prune => exact hcalls

theorem noEmptyEntry_step {s s' : EventsSystem Filter} {label : Label Filter} (hcache : NoEmptyEntry s.eventsCache)
    (h : Moves rpc s label s') : NoEmptyEntry s'.eventsCache := by
  cases h with
  | hit => exact Keyed.Table.forall_lookup_erase hcache _
  | finish => exact noEmptyEntry_update _ _ hcache
  | miss | refused | last | more | fail | close | prune => exact hcache

/-- **Only a finished call adds to the cache.** -/
theorem cachedEvents_step {maxLimit : Nat} {s s' : EventsSystem Filter} {label : Label Filter}
    (hcalls : ∀ call ∈ s.calls, WithinLimit maxLimit call) (h : Moves rpc s label s') :
    cachedEvents s'.eventsCache ≤ cachedEvents s.eventsCache + if label.isFinish then maxLimit - 1 else 0 := by
  cases h with
  | hit => exact cachedEvents_erase s.eventsCache _
  | @finish i L events eventsToCache hcall =>
    cases hcalls _ (List.mem_of_getElem? hcall) with
    | fetched hlt =>
      have hupdate := cachedEvents_update s.eventsCache eventsToCache (some L)
      show cachedEvents (updateEventCache s.eventsCache eventsToCache (some L)) ≤ _ + (maxLimit - 1)
      omega
  | miss | refused | last | more | fail | close | prune => exact Nat.le_refl _

theorem Served.entry_length_le {s : EventsSystem Filter} (hi : Served rpc s) {ledger : Nat}
    {entry : CachedEventsResponse} (h : AList.lookup ledger s.eventsCache = some entry) :
    entry.events.length ≤ (ledgerEvents ledger s.log.events).length := by
  obtain ⟨hids, hmem⟩ := hi.cache ledger entry h
  refine (List.subperm_of_subset (List.Nodup.of_map _ hids) (fun event he => ?_)).length_le
  exact (Keyed.mem_block _).2 (hmem event he)

/-- **The cache stays small**, in every interleaving: it has no empty entry and holds no more events than the server
has; where limits are at most `maxLimit` and no page is longer, it holds less than that for each call that finished. -/
theorem cache_size {log : EventLog} {s : EventsSystem Filter} {labels : List (Label Filter)}
    (h : run (step rpc) (EventsSystem.init Filter log) labels = some s) :
    NoEmptyEntry s.eventsCache ∧ s.eventsCache.keys.length ≤ cachedEvents s.eventsCache ∧
      cachedEvents s.eventsCache ≤ s.log.events.length ∧
      ∀ maxLimit, AllSteps (step rpc) (LimitAtMost maxLimit) (EventsSystem.init Filter log) labels →
        cachedEvents s.eventsCache ≤ labels.countP Label.isFinish * (maxLimit - 1) := by
  have hentries : NoEmptyEntry s.eventsCache :=
    Runs.run_invariant (fun _ _ _ hi hs => noEmptyEntry_step hi (moves_of_step hs))
      (fun ledger entry he => absurd he (lookup_init log ledger entry)) h
  refine ⟨hentries, ?_, ?_, fun maxLimit hlimit => ?_⟩
  · rw [← Keyed.total_one s.eventsCache.keys]
    exact Keyed.Table.le_weight hentries
  · calc cachedEvents s.eventsCache
        ≤ Keyed.total (fun ledger => (ledgerEvents ledger s.log.events).length) s.eventsCache.keys :=
          Keyed.Table.weight_le (fun ledger entry he => (served_of_run h).entry_length_le he)
      _ ≤ s.log.events.length := Keyed.total_block_le _ _ s.eventsCache.keys_nodup
  · have hgrows : ∀ (t : EventsSystem Filter) (label : Label Filter) (t' : EventsSystem Filter),
        (∀ call ∈ t.calls, WithinLimit maxLimit call) → LimitAtMost maxLimit t label → step rpc t label = some t' →
        cachedEvents t'.eventsCache ≤ cachedEvents t.eventsCache + if label.isFinish then maxLimit - 1 else 0 :=
      fun _ _ _ hi _ hs => cachedEvents_step hi (moves_of_step hs)
    have hsize := Runs.run_size_le (fun _ _ _ hi hlabel hs => withinLimit_step hi hlabel (moves_of_step hs)) hgrows
      (fun call hc => by cases hc) hlimit h
    have hinit : cachedEvents (EventsSystem.init Filter log).eventsCache = 0 := rfl
    omega

end System

/-! ## A run -/

def finishedLabels : List (Label Unit) := retriedLabels.take 7

theorem cache_size_finished : NoEmptyEntry (sampleRun finishedLabels).eventsCache ∧
    cachedEvents (sampleRun finishedLabels).eventsCache ≤ (sampleRun finishedLabels).log.events.length ∧
      cachedEvents (sampleRun finishedLabels).eventsCache ≤ finishedLabels.countP Label.isFinish * (3 - 1) := by
  have hrun : run (step unfiltered) (EventsSystem.init Unit sampleLog) finishedLabels =
      some (sampleRun finishedLabels) := rfl
  have hlimit : AllSteps (step unfiltered) (LimitAtMost 3) (EventsSystem.init Unit sampleLog) finishedLabels := by
    decide
  obtain ⟨hentries, -, hlog, hfinished⟩ := cache_size hrun
  exact ⟨hentries, hlog, hfinished 3 hlimit⟩

end SubqlStellar
