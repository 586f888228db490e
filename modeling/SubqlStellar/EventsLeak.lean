import SubqlStellar.EventsCalls
/-!
# EventsLeak — which ledgers stay in the cache

Each ledger of a range is requested once, with one page limit, by calls interleaved in any order, of a server whose
pages are of any length.  An entry is deleted only when its ledger is requested, so an entry written for a ledger that
has already been requested stays (`cached_of_late`).  The cache keeps no ledger of the range exactly when every call
that has a ledger's events to cache finishes before that ledger is requested (`cache_drained_iff`); what then stays is
at most a page of later ledgers.
-/
namespace SubqlStellar

open Runs (run AllSteps run_cons)

def startedLedgers {Filter : Type} (labels : List (Label Filter)) : List Nat :=
  labels.filterMap (fun label => match label with
    | .start height _ _ => some height
    | _                 => none)

section Leak

variable {Filter : Type} {rpc : RpcFilters Filter}

def EventsSystem.requested (s : EventsSystem Filter) : List Nat := s.calls.map Call.sequence

/-- A call finishes before any ledger it has events of to cache is requested. -/
def FinishesInTime (s : EventsSystem Filter) : Label Filter → Prop
  | .finish i => ∀ sequence events eventsToCache, s.calls[i]? = some (.fetched sequence events eventsToCache) →
      ∀ event ∈ eventsToCache.events, event.ledger ∉ s.requested
  | _ => True

/-- The range, each of its ledgers requested once and every call resolved. -/
structure Processed (a b : Nat) (pageLimit : ℕ+) (labels : List (Label Filter)) (s : EventsSystem Filter) : Prop where
  inRange : ∀ height filters limit, Label.start height filters limit ∈ labels →
    a ≤ height ∧ height ≤ b ∧ filters = [] ∧ limit = some pageLimit
  once : (startedLedgers labels).Nodup
  all : ∀ ledger, a ≤ ledger → ledger ≤ b → ledger ∈ startedLedgers labels
  resolved : ∀ call ∈ s.calls, ∃ sequence response, call = .resolved sequence response

theorem requested_setCall {s : EventsSystem Filter} {i : Nat} {call call' : Call Filter} {label : Label Filter}
    (h : s.calls[i]? = some call) (hseq : call'.sequence = call.sequence) (hlabel : startedLedgers [label] = []) :
    (s.setCall i call').requested = s.requested ++ startedLedgers [label] := by
  rw [hlabel, List.append_nil]
  unfold EventsSystem.requested EventsSystem.setCall
  rw [List.map_set]
  have hi : i < s.calls.length := (List.getElem?_eq_some_iff.1 h).1
  apply List.ext_getElem (by simp)
  intro j hj hj'
  rw [List.getElem_set]
  split
  · rename_i hij
    subst hij
    rw [List.getElem_map, hseq, (List.getElem?_eq_some_iff.1 h).2]
  · rfl

theorem requested_step {s s' : EventsSystem Filter} {label : Label Filter} (h : Moves rpc s label s') :
    s'.requested = s.requested ++ startedLedgers [label] := by
  cases h with
  | hit _ => simp [EventsSystem.requested, EventsSystem.addCall, startedLedgers, Call.sequence]
  | miss _ => simp [EventsSystem.requested, EventsSystem.addCall, startedLedgers, Call.sequence]
  | refused hcall _ => exact requested_setCall hcall rfl rfl
  | last hcall _ _ => exact requested_setCall hcall rfl rfl
  | more hcall _ _ => exact requested_setCall hcall rfl rfl
  | fail hcall => exact requested_setCall hcall rfl rfl
  | @finish i sequence events eventsToCache hcall =>
    show (s.setCall i (.resolved sequence events)).requested = _
    exact requested_setCall hcall rfl rfl
  | close _ _ => exact (List.append_nil _).symm
  | prune _ _ => exact (List.append_nil _).symm

theorem startedLedgers_cons (label : Label Filter) (labels : List (Label Filter)) :
    startedLedgers (label :: labels) = startedLedgers [label] ++ startedLedgers labels := by
  unfold startedLedgers
  rw [← List.filterMap_append, List.singleton_append]

theorem requested_run : ∀ {labels : List (Label Filter)} {s t : EventsSystem Filter}, run (step rpc) s labels = some t →
    t.requested = s.requested ++ startedLedgers labels
  | [], s, t, h => by
    cases h
    exact (List.append_nil _).symm
  | label :: labels, s, t, h => by
    obtain ⟨s', hs, hr⟩ := run_cons.1 h
    rw [requested_run hr, requested_step (moves_of_step hs), startedLedgers_cons label labels, List.append_assoc]

theorem cached_update (eventsCache : EventsCache) (response : CachedEventsResponse) (sequence ledger : Nat)
    (hlater : ∀ event ∈ response.events, event.ledger ≠ sequence) :
    AList.lookup ledger (updateEventCache eventsCache response (some sequence)) ≠ none ↔
      AList.lookup ledger eventsCache ≠ none ∨ ∃ event ∈ response.events, event.ledger = ledger := by
  rw [lookup_updateEventCache eventsCache response sequence ledger hlater]
  by_cases hnil : ledgerEvents ledger response.events = []
  · rw [if_pos hnil]
    rw [Keyed.block_eq_nil] at hnil
    exact ⟨Or.inl, fun h => h.resolve_right (fun ⟨event, he, hl⟩ => hnil event he hl)⟩
  · rw [if_neg hnil]
    obtain ⟨event, he⟩ := List.exists_mem_of_ne_nil _ hnil
    obtain ⟨hmem, hl⟩ := (Keyed.mem_block _).1 he
    exact ⟨fun _ => Or.inr ⟨event, hmem, hl⟩, fun _ => Option.some_ne_none _⟩

theorem fetched_ne {s : EventsSystem Filter} (hi : Served rpc s) {i sequence : Nat}
    {events eventsToCache : CachedEventsResponse}
    (hcall : s.calls[i]? = some (.fetched sequence events eventsToCache)) :
    ∀ event ∈ eventsToCache.events, event.ledger ≠ sequence := by
  cases hi.calls _ (List.mem_of_getElem? hcall) with
  | fetched hlater => exact fun event he => Nat.ne_of_gt (hlater event he).2

theorem cached_step {s s' : EventsSystem Filter} {label : Label Filter} (hi : Served rpc s) (h : Moves rpc s label s')
    {ledger : Nat} (hcached : AList.lookup ledger s.eventsCache ≠ none) (hnot : ledger ∉ startedLedgers [label]) :
    AList.lookup ledger s'.eventsCache ≠ none := by
  cases h with
  | @hit height _ _ _ _ =>
    have hne : ledger ≠ height := fun he => hnot (by simp [startedLedgers, he])
    show AList.lookup ledger (AList.erase height s.eventsCache) ≠ none
    rw [Keyed.Table.lookup_erase_eq, if_neg hne]
    exact hcached
  | finish hcall =>
    exact (cached_update _ _ _ ledger (fetched_ne hi hcall)).2 (Or.inl hcached)
  | _ => exact hcached

theorem cached_run : ∀ {labels : List (Label Filter)} {s t : EventsSystem Filter}, Served rpc s →
    run (step rpc) s labels = some t → ∀ {ledger : Nat}, AList.lookup ledger s.eventsCache ≠ none →
    ledger ∉ startedLedgers labels → AList.lookup ledger t.eventsCache ≠ none
  | [], s, t, _, h, _, hcached, _ => by
    cases h
    exact hcached
  | label :: labels, s, t, hi, h, ledger, hcached, hnot => by
    obtain ⟨s', hs, hr⟩ := run_cons.1 h
    rw [startedLedgers_cons label labels, List.mem_append, not_or] at hnot
    have hm := moves_of_step hs
    exact cached_run (served_step hi hm) hr (cached_step hi hm hcached hnot.1) hnot.2

/-- **A call that finishes late leaves an entry that stays**: of a ledger requested before it, in a run that requests
no ledger twice. -/
theorem cached_of_late : ∀ {labels : List (Label Filter)} {s t : EventsSystem Filter}, Served rpc s →
    run (step rpc) s labels = some t → (s.requested ++ startedLedgers labels).Nodup →
    ¬ AllSteps (step rpc) FinishesInTime s labels →
    ∃ ledger ∈ s.requested ++ startedLedgers labels, AList.lookup ledger t.eventsCache ≠ none
  | [], _, _, _, _, _, hlate => absurd trivial hlate
  | label :: labels, s, t, hi, h, hnd, hlate => by
    obtain ⟨s', hs, hr⟩ := run_cons.1 h
    have hm := moves_of_step hs
    have hi' := served_step hi hm
    have hreq := requested_step hm
    rw [startedLedgers_cons label labels, ← List.append_assoc] at hnd ⊢
    by_cases hok : FinishesInTime s label
    · rw [← hreq] at hnd ⊢
      refine cached_of_late hi' hr hnd (fun hall => hlate ⟨hok, fun s'' hs'' => ?_⟩)
      rw [hs] at hs''
      cases hs''
      exact hall
    · cases hm with
      | @finish i sequence events eventsToCache hcall =>
        simp only [FinishesInTime, not_forall] at hok
        obtain ⟨sequence', events', eventsToCache', hcall', event, he, hreq'⟩ := hok
        rw [hcall] at hcall'
        cases hcall'
        have hmem : event.ledger ∈ s.requested := not_not.1 hreq'
        have hcached := (cached_update s.eventsCache eventsToCache sequence event.ledger (fetched_ne hi hcall)).2
          (Or.inr ⟨event, he, rfl⟩)
        refine ⟨event.ledger, by simp [hmem], cached_run hi' hr hcached ?_⟩
        rw [List.append_assoc, List.nodup_append'] at hnd
        exact fun hstart => hnd.2.2 hmem (List.mem_append_right _ hstart)
      | _ => exact absurd trivial hok

/-- **Along a run whose calls finish in time, only ledgers not yet requested are cached.** -/
theorem unrequested_step {s s' : EventsSystem Filter} {label : Label Filter} (hi : Served rpc s)
    (hinv : ∀ ledger, AList.lookup ledger s.eventsCache ≠ none → ledger ∉ s.requested) (hok : FinishesInTime s label)
    (h : Moves rpc s label s') : ∀ ledger, AList.lookup ledger s'.eventsCache ≠ none → ledger ∉ s'.requested := by
  intro ledger hcached
  rw [requested_step h]
  cases h with
  | @hit height _ _ _ _ =>
    have hcached : AList.lookup ledger (AList.erase height s.eventsCache) ≠ none := hcached
    rw [Keyed.Table.lookup_erase_eq] at hcached
    split at hcached
    · exact absurd rfl hcached
    · rename_i hne
      simp [startedLedgers, hinv ledger hcached, hne]
  | @miss height _ _ hnone =>
    have hne : ledger ≠ height := fun he => hcached (he ▸ hnone)
    simp [startedLedgers, hinv ledger hcached, hne]
  | @finish i sequence events eventsToCache hcall =>
    have hnil : startedLedgers [(.finish i : Label Filter)] = [] := rfl
    rw [hnil, List.append_nil]
    have hne := fetched_ne hi hcall
    rcases (cached_update s.eventsCache eventsToCache sequence ledger hne).1 hcached with hold | ⟨event, he, rfl⟩
    · exact hinv ledger hold
    · exact hok sequence events eventsToCache hcall event he
  | _ => simpa [startedLedgers] using hinv ledger hcached

def pageAfter (log : EventLog) (ledger : Nat) (pageLimit : ℕ+) : List SorobanRpcEventResponse :=
  (log.events.filter (fun event => decide (ledger < event.ledger))).take pageLimit

def Label.InRange (a b : Nat) (pageLimit : ℕ+) : Label Filter → Prop
  | .start height filters limit => a ≤ height ∧ height ≤ b ∧ filters = [] ∧ limit = some pageLimit
  | _ => True

/-- Cached, or about to be, in the processing of a range: a ledger after `a`, and after `b` only one of the first page
after `b`. -/
def Cachable (a b : Nat) (pageLimit : ℕ+) (log : EventLog) (ledger : Nat) : Prop :=
  a < ledger ∧ (b < ledger → ∃ event ∈ pageAfter log b pageLimit, event.ledger = ledger)

def Call.Bounded (a b : Nat) (pageLimit : ℕ+) (log : EventLog) : Call Filter → Prop
  | .fetching sequence request _ =>
    a ≤ sequence ∧ sequence ≤ b ∧ request.filters = [] ∧ request.limit = some (pageLimit : Nat)
  | .fetched _ _ eventsToCache   => ∀ event ∈ eventsToCache.events, Cachable a b pageLimit log event.ledger
  | _                            => True

structure Bounded (a b : Nat) (pageLimit : ℕ+) (s : EventsSystem Filter) : Prop where
  calls : ∀ call ∈ s.calls, call.Bounded a b pageLimit s.log
  cache : ∀ ledger, AList.lookup ledger s.eventsCache ≠ none → Cachable a b pageLimit s.log ledger

theorem Cachable.close {a b : Nat} {pageLimit : ℕ+} {log : EventLog} {ledger : Nat}
    {events : List SorobanRpcEventResponse} (hledger : ∀ event ∈ events, event.ledger = log.newestLedger + 1)
    (hids : ((log.events ++ events).map SorobanRpcEventResponse.id).Nodup) (h : Cachable a b pageLimit log ledger) :
    Cachable a b pageLimit (log.close events hledger hids) ledger := by
  refine ⟨h.1, fun hb => ?_⟩
  obtain ⟨event, he, hl⟩ := h.2 hb
  refine ⟨event, ?_, hl⟩
  show event ∈ List.take pageLimit ((log.events ++ events).filter _)
  rw [List.filter_append, List.take_append]
  exact List.mem_append_left _ he

/-- **A page that reaches beyond a ledger starts the first page after it.** -/
theorem mem_pageAfter {log : EventLog} {L b : Nat} {pageLimit : ℕ+} {request : GetEventsRequest Filter}
    {accEvents before page after : List SorobanRpcEventResponse}
    {pageLength : Nat} (hp : PageOf log.events L pageLength request accEvents before page after)
    (hlength : pageLength ≤ pageLimit) (hL : L ≤ b)
    {event : SorobanRpcEventResponse} (he : event ∈ page) (hb : b < event.ledger) :
    event ∈ pageAfter log b pageLimit := by
  have hbefore : before.filter (fun event => decide (b < event.ledger)) = [] := by
    rw [List.filter_eq_nil_iff]
    intro event he
    have := hp.hbefore event he
    simp only [decide_eq_true_eq]
    omega
  have hlen : (page.filter (fun event => decide (b < event.ledger))).length ≤ pageLimit :=
    Nat.le_trans (List.length_filter_le _ _) (Nat.le_trans hp.length_le hlength)
  unfold pageAfter
  rw [hp.hview, List.filter_append, List.filter_append, hbefore, List.nil_append, List.take_append,
    List.take_of_length_le hlen]
  exact List.mem_append_left _ (List.mem_filter.2 ⟨he, by simpa using hb⟩)

theorem bounded_step {a b : Nat} {pageLimit : ℕ+} {s s' : EventsSystem Filter} {label : Label Filter}
    (hc : Served rpc s) (hi : Bounded a b pageLimit s) (hok : label.InRange a b pageLimit) (h : Moves rpc s label s') :
    Bounded a b pageLimit s' := by
  cases h with
  | @hit height filters limit entry hentry =>
    refine ⟨forall_mem_append hi.calls trivial, fun ledger h => ?_⟩
    have h : AList.lookup ledger (AList.erase height s.eventsCache) ≠ none := h
    rw [Keyed.Table.lookup_erase_eq] at h
    split at h
    · exact absurd rfl h
    · exact hi.cache ledger h
  | @miss height filters limit hnone =>
    obtain ⟨ha, hb, hfilters, rfl⟩ := hok
    exact ⟨forall_mem_append hi.calls ⟨ha, hb, hfilters, rfl⟩, hi.cache⟩
  | refused hcall hpage => exact ⟨forall_mem_set _ hi.calls trivial, hi.cache⟩
  | @last i L cap request accEvents response events eventsToCache hcall hpage hdone =>
    refine ⟨forall_mem_set _ hi.calls (fun event he => ?_), hi.cache⟩
    have hmem := List.mem_of_getElem? hcall
    obtain ⟨ha, hb, hfilters, hlimit⟩ := hi.calls _ hmem
    cases hc.calls _ hmem with
    | fetching _ hclosed hfetching =>
      obtain ⟨before, after, hp, -⟩ := answer_pageOf hfetching (getPage_eq_ok hpage)
      rw [hfilters, view_nil] at hp
      obtain ⟨hmem, hlater⟩ := (onResponse_toCache hp hdone).2 event he
      have hlength : cappedPage cap request ≤ pageLimit := by
        rw [cappedPage, hlimit]
        exact pageCap_le cap pageLimit
      exact ⟨Nat.lt_of_le_of_lt ha hlater, fun h => ⟨event, mem_pageAfter hp hlength hb hmem h, rfl⟩⟩
  | @more i L cap request nextRequest accEvents newEvents response hcall hpage hnext =>
    have hmem := List.mem_of_getElem? hcall
    obtain ⟨ha, hb, hfilters, hlimit⟩ := hi.calls _ hmem
    cases hc.calls _ hmem with
    | fetching _ _ hfetching =>
      obtain ⟨before, after, hp, hcursor⟩ := answer_pageOf hfetching (getPage_eq_ok hpage)
      obtain ⟨-, hfilters', hlimit', -⟩ := onResponse_next hp hcursor hnext
      exact ⟨forall_mem_set _ hi.calls ⟨ha, hb, hfilters'.trans hfilters, hlimit'.trans hlimit⟩, hi.cache⟩
  | fail hcall => exact ⟨forall_mem_set _ hi.calls trivial, hi.cache⟩
  | @finish i L events eventsToCache hcall =>
    refine ⟨forall_mem_set _ hi.calls trivial, fun ledger h => ?_⟩
    rcases (cached_update s.eventsCache eventsToCache L ledger (fetched_ne hc hcall)).1 h with h | ⟨event, he, rfl⟩
    · exact hi.cache ledger h
    · exact hi.calls _ (List.mem_of_getElem? hcall) event he
  | close hledger hids =>
    refine ⟨fun call h => ?_, fun ledger h => (hi.cache ledger h).close hledger hids⟩
    have hcall := hi.calls call h
    cases call with
    | fetching sequence request accEvents => exact hcall
    | fetched sequence events eventsToCache => exact fun event he => (hcall event he).close hledger hids
    | resolved sequence response => trivial
    | failed sequence e => trivial
  | prune => exact ⟨hi.calls, hi.cache⟩

theorem bounded_of_run {log : EventLog} {a b : Nat} {pageLimit : ℕ+} {labels : List (Label Filter)}
    {s : EventsSystem Filter} (hrun : run (step rpc) (EventsSystem.init Filter log) labels = some s)
    (hp : Processed a b pageLimit labels s) : Bounded a b pageLimit s := by
  have hstep : ∀ (t : EventsSystem Filter) (label : Label Filter) (t' : EventsSystem Filter),
      (Served rpc t ∧ Bounded a b pageLimit t) → label.InRange a b pageLimit → step rpc t label = some t' →
      Served rpc t' ∧ Bounded a b pageLimit t' := fun t label t' hi hok ht =>
    ⟨served_step hi.1 (moves_of_step ht), bounded_step hi.1 hi.2 hok (moves_of_step ht)⟩
  have hinit : Bounded a b pageLimit (EventsSystem.init Filter log) :=
    ⟨fun _ h => (List.not_mem_nil h).elim, fun ledger h => absurd (AList.lookup_empty ledger) h⟩
  have hlabels : ∀ label ∈ labels, label.InRange a b pageLimit := by
    intro label hl
    cases label with
    | start height filters limit => exact hp.inRange height filters limit hl
    | _ => trivial
  exact (Runs.run_invariant_on hstep ⟨served_init log, hinit⟩ hlabels hrun).2

theorem unrequested_of_run {log : EventLog} {labels : List (Label Filter)} {s : EventsSystem Filter}
    (hrun : run (step rpc) (EventsSystem.init Filter log) labels = some s)
    (hall : AllSteps (step rpc) FinishesInTime (EventsSystem.init Filter log) labels) :
    ∀ ledger, AList.lookup ledger s.eventsCache ≠ none → ledger ∉ s.requested := by
  have hstep : ∀ (t : EventsSystem Filter) (label : Label Filter) (t' : EventsSystem Filter),
      (Served rpc t ∧ ∀ ledger, AList.lookup ledger t.eventsCache ≠ none → ledger ∉ t.requested) →
      FinishesInTime t label → step rpc t label = some t' →
      Served rpc t' ∧ ∀ ledger, AList.lookup ledger t'.eventsCache ≠ none → ledger ∉ t'.requested :=
    fun t label t' hi hok ht => ⟨served_step hi.1 (moves_of_step ht),
      unrequested_step hi.1 hi.2 hok (moves_of_step ht)⟩
  have hinit : ∀ ledger, AList.lookup ledger (EventsSystem.init Filter log).eventsCache ≠ none →
      ledger ∉ (EventsSystem.init Filter log).requested := fun ledger h => absurd (AList.lookup_empty ledger) h
  exact (Runs.run_invariant_of hstep ⟨served_init log, hinit⟩ hall hrun).2

theorem requested_init {log : EventLog} {labels : List (Label Filter)} {s : EventsSystem Filter}
    (hrun : run (step rpc) (EventsSystem.init Filter log) labels = some s) : s.requested = startedLedgers labels :=
  requested_run hrun

theorem Processed.mem_requested {log : EventLog} {a b : Nat} {pageLimit : ℕ+} {labels : List (Label Filter)}
    {s : EventsSystem Filter} (hrun : run (step rpc) (EventsSystem.init Filter log) labels = some s)
    (hp : Processed a b pageLimit labels s) (ledger : Nat) : ledger ∈ s.requested ↔ a ≤ ledger ∧ ledger ≤ b := by
  rw [requested_init hrun]
  constructor
  · intro h
    obtain ⟨label, hl, hs⟩ := List.mem_filterMap.1 h
    cases label with
    | start height filters limit =>
      cases hs
      obtain ⟨ha, hb, -⟩ := hp.inRange _ _ _ hl
      exact ⟨ha, hb⟩
    | _ => cases hs
  · exact fun h => hp.all ledger h.1 h.2

theorem Bounded.length_keys_le {a b : Nat} {pageLimit : ℕ+} {s : EventsSystem Filter} (h : Bounded a b pageLimit s)
    (hnone : ∀ ledger, a ≤ ledger → ledger ≤ b → AList.lookup ledger s.eventsCache = none) :
    s.eventsCache.keys.length ≤ pageLimit := by
  have hsub : s.eventsCache.keys ⊆ (pageAfter s.log b pageLimit).map SorobanRpcEventResponse.ledger := by
    intro ledger hk
    have hcached : AList.lookup ledger s.eventsCache ≠ none := fun hn => (AList.lookup_eq_none.1 hn) hk
    obtain ⟨ha, hafter⟩ := h.cache ledger hcached
    have hb : b < ledger := by
      by_contra hle
      exact hcached (hnone ledger (Nat.le_of_lt ha) (Nat.le_of_not_lt hle))
    obtain ⟨event, he, hl⟩ := hafter hb
    exact List.mem_map.2 ⟨event, he, hl⟩
  calc s.eventsCache.keys.length
      ≤ ((pageAfter s.log b pageLimit).map SorobanRpcEventResponse.ledger).length :=
        (List.subperm_of_subset s.eventsCache.keys_nodup hsub).length_le
    _ ≤ pageLimit := by
        rw [List.length_map]
        exact List.length_take_le _ _

/-- **No ledger of a processed range stays cached, and what stays is at most a page of later ledgers, exactly when every
call finishes before any ledger it has events of to cache is requested.** -/
theorem cache_drained_iff {log : EventLog} {a b : Nat} {pageLimit : ℕ+} {labels : List (Label Filter)}
    {s : EventsSystem Filter} (hrun : run (step rpc) (EventsSystem.init Filter log) labels = some s)
    (hp : Processed a b pageLimit labels s) :
    ((∀ ledger, a ≤ ledger → ledger ≤ b → AList.lookup ledger s.eventsCache = none) ∧
        (∀ ledger, AList.lookup ledger s.eventsCache ≠ none → ledger ∉ s.requested) ∧
        s.eventsCache.keys.length ≤ pageLimit) ↔
      AllSteps (step rpc) FinishesInTime (EventsSystem.init Filter log) labels := by
  have hreq := hp.mem_requested hrun
  constructor
  · rintro ⟨hnone, -, -⟩
    by_contra hlate
    obtain ⟨ledger, hmem, hcached⟩ := cached_of_late (served_init log) hrun hp.once hlate
    have hmem : ledger ∈ s.requested := (requested_init hrun) ▸ hmem
    obtain ⟨ha, hb⟩ := (hreq ledger).1 hmem
    exact hcached (hnone ledger ha hb)
  · intro hall
    have hunreq := unrequested_of_run hrun hall
    have hnone : ∀ ledger, a ≤ ledger → ledger ≤ b → AList.lookup ledger s.eventsCache = none := by
      intro ledger ha hb
      by_contra hcached
      exact hunreq ledger hcached ((hreq ledger).2 ⟨ha, hb⟩)
    exact ⟨hnone, hunreq, (bounded_of_run hrun hp).length_keys_le hnone⟩

end Leak

/-! ## Two runs over ledgers 1 and 2 -/

/-- One call after the other: the second is answered from what the first cached. -/
def orderedLabels : List (Label Unit) :=
  [.start 1 [] sampleLimit, .page 0 sampleLimit, .page 0 sampleLimit, .finish 0, .start 2 [] sampleLimit]

/-- Both fetched concurrently: the call for ledger 1 finishes, with the events of ledger 2 to cache, after ledger 2 has
been requested. -/
def lateLabels : List (Label Unit) :=
  [.start 1 [] sampleLimit, .start 2 [] sampleLimit, .page 1 sampleLimit, .page 1 sampleLimit, .finish 1,
    .page 0 sampleLimit, .page 0 sampleLimit, .finish 0]

theorem processed_sample {labels : List (Label Unit)}
    (hinRange : labels.all (fun label => match label with
      | .start height filters limit => decide (1 ≤ height ∧ height ≤ 2 ∧ filters = [] ∧ limit = some sampleLimit)
      | _ => true) = true)
    (hstarted : startedLedgers labels = [1, 2]) {first second : CachedEventsResponse}
    (hcalls : (sampleRun labels).calls = [.resolved 1 first, .resolved 2 second]) :
    Processed 1 2 sampleLimit labels (sampleRun labels) where
  inRange := fun height filters limit h => by
    have hl := List.all_eq_true.1 hinRange _ h
    exact of_decide_eq_true hl
  once := by
    rw [hstarted]
    decide
  all := fun ledger h1 h2 => by
    rw [hstarted]
    have : ledger = 1 ∨ ledger = 2 := by omega
    simpa using this
  resolved := fun call h => by
    rw [hcalls] at h
    rcases List.mem_cons.1 h with rfl | h
    · exact ⟨1, first, rfl⟩
    · exact ⟨2, second, List.mem_singleton.1 h⟩

theorem cache_drained_ordered :
    AList.lookup 3 (sampleRun orderedLabels).eventsCache ≠ none ∧
      AllSteps (step unfiltered) FinishesInTime (EventsSystem.init Unit sampleLog) orderedLabels := by
  have hrun : run (step unfiltered) (EventsSystem.init Unit sampleLog) orderedLabels = some (sampleRun orderedLabels) :=
    rfl
  have hcalls : (sampleRun orderedLabels).calls =
      [.resolved 1 ⟨[sampleEvent "e1" 1, sampleEvent "e2" 1], 3⟩, .resolved 2 ⟨[sampleEvent "e3" 2], 3⟩] := rfl
  have hkeys : (sampleRun orderedLabels).eventsCache.keys = [3] := rfl
  have hnone : ∀ ledger, ledger ≠ 3 → AList.lookup ledger (sampleRun orderedLabels).eventsCache = none := by
    intro ledger hne
    rw [AList.lookup_eq_none, AList.mem_keys, hkeys]
    simpa using hne
  refine ⟨Option.some_ne_none _, (cache_drained_iff hrun (processed_sample (by decide) rfl hcalls)).1
    ⟨fun ledger _ hb => hnone ledger (by omega), fun ledger hcached => ?_, ?_⟩⟩
  · have hthree : ledger = 3 := not_not.1 (fun hne => hcached (hnone ledger hne))
    subst hthree
    show 3 ∉ (sampleRun orderedLabels).calls.map Call.sequence
    rw [hcalls]
    decide
  · rw [hkeys]
    decide

/-- **A range is processed, each of its ledgers requested once and every call resolved, and one stays cached.** -/
theorem cache_leaks :
    run (step unfiltered) (EventsSystem.init Unit sampleLog) lateLabels = some (sampleRun lateLabels) ∧
      Processed 1 2 3 lateLabels (sampleRun lateLabels) ∧
      AList.lookup 2 (sampleRun lateLabels).eventsCache ≠ none := by
  have hcalls : (sampleRun lateLabels).calls =
      [.resolved 1 ⟨[sampleEvent "e1" 1, sampleEvent "e2" 1], 3⟩, .resolved 2 ⟨[sampleEvent "e3" 2], 3⟩] := rfl
  exact ⟨rfl, processed_sample (by decide) rfl hcalls, Option.some_ne_none _⟩

end SubqlStellar
