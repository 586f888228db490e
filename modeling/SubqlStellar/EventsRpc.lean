import Mathlib.Data.List.TakeWhile
import Mathlib.Data.PNat.Defs
import SubqlStellar.EventsCache
/-!
# EventsRpc — the Soroban RPC server's event log, and what one page makes of a fetch

The RPC server holds a log of events in ledger order with distinct ids, extended by whole ledgers (`EventLog`).  A
request sees the events its filters select, from its cursor on, or within its ledger range where it has none
(`remaining`), and is answered with the next of them.

A fetch of ledger `L` is at a place of that view with everything before it at most `L` and everything after it at least
`L`, and has collected the events of `L` before it (`Fetching`).  One page moves it on (`onResponse_next`) or ends it
with all the events of `L` (`onResponse_done`).  How long a full page is, is the server's to choose (`cappedPage`); what
a fetch leaves to be cached is whole ledgers where that is as long as the client takes it to be (`onResponse_whole`).
-/
namespace SubqlStellar

open Keyed (Sorted Whole block)

/-- The server's events: in ledger order, with distinct ids, of ledgers up to the newest. -/
structure EventLog where
  events : List SorobanRpcEventResponse
  newestLedger : Nat
  sorted : Sorted SorobanRpcEventResponse.ledger events
  closed : ∀ event ∈ events, event.ledger ≤ newestLedger
  distinctIds : (events.map SorobanRpcEventResponse.id).Nodup

def EventLog.silent (newestLedger : Nat) : EventLog where
  events := []
  newestLedger
  sorted := List.Pairwise.nil
  closed := fun _ h => by cases h
  distinctIds := List.nodup_nil

def EventLog.close (log : EventLog) (events : List SorobanRpcEventResponse)
    (hledger : ∀ event ∈ events, event.ledger = log.newestLedger + 1)
    (hids : ((log.events ++ events).map SorobanRpcEventResponse.id).Nodup) : EventLog where
  events := log.events ++ events
  newestLedger := log.newestLedger + 1
  sorted := log.sorted.append
    (List.pairwise_of_forall_mem_list (fun a ha b hb => by rw [hledger a ha, hledger b hb]))
    (fun a ha b hb => by
      have := log.closed a ha
      have := hledger b hb
      omega)
  closed := fun event h => by
    rcases List.mem_append.1 h with h | h
    · have := log.closed event h
      omega
    · rw [hledger event h]
  distinctIds := hids

/-- The RPC server's filters: none selects every event. -/
structure RpcFilters (Filter : Type) where
  selects : List Filter → SorobanRpcEventResponse → Bool
  selects_nil : ∀ event, selects [] event = true

def unfiltered : RpcFilters Unit := ⟨fun _ _ => true, fun _ => rfl⟩

section Server

variable {Filter : Type}

def EventLog.view (log : EventLog) (rpc : RpcFilters Filter) (filters : List Filter) : List SorobanRpcEventResponse :=
  log.events.filter (rpc.selects filters)

/-- Where a request is served from, and what remains for it there. -/
def remaining (view : List SorobanRpcEventResponse) (request : GetEventsRequest Filter) :
    Nat × List SorobanRpcEventResponse :=
  match request.cursor with
  | some cursor => (cursor, view.drop cursor)
  | none =>
    let startLedger := request.startLedger.getD 0
    let before := view.takeWhile (fun event => decide (event.ledger < startLedger))
    let rest := view.dropWhile (fun event => decide (event.ledger < startLedger))
    match request.endLedger with
    | some endLedger => (before.length, rest.takeWhile (fun event => decide (event.ledger < endLedger)))
    | none           => (before.length, rest)

def answer (log : EventLog) (rpc : RpcFilters Filter) (pageLength : Nat) (request : GetEventsRequest Filter) :
    Except JsError GetEventsResponse :=
  if request.cursor = none ∧ log.newestLedger < request.startLedger.getD 0 then
    .error ⟨"start is after newest ledger"⟩
  else
    let (place, rest) := remaining (log.view rpc request.filters) request
    let page := rest.take pageLength
    .ok ⟨page, log.newestLedger, place + page.length⟩

/-- The length of a full page, where the server sends at most `cap` events. -/
def pageCap (cap : ℕ+) : Option Nat → Nat
  | some limit => min limit cap
  | none       => cap

def cappedPage (cap : ℕ+) (request : GetEventsRequest Filter) : Nat := pageCap cap request.limit

theorem pageCap_pos (cap : ℕ+) {limit : Option Nat} (h : limit ≠ some 0) : 0 < pageCap cap limit := by
  cases limit with
  | none => exact cap.2
  | some n => exact Nat.lt_min.2 ⟨Nat.pos_of_ne_zero (fun h0 => h (congrArg some h0)), cap.2⟩

theorem pageCap_le (cap : ℕ+) (limit : Nat) : pageCap cap (some limit) ≤ limit := Nat.min_le_left _ _

theorem view_nil (log : EventLog) (rpc : RpcFilters Filter) : log.view rpc [] = log.events :=
  List.filter_eq_self.2 (fun event _ => rpc.selects_nil event)

theorem view_sorted (log : EventLog) (rpc : RpcFilters Filter) (filters : List Filter) :
    Sorted SorobanRpcEventResponse.ledger (log.view rpc filters) := log.sorted.filter _

theorem view_distinctIds (log : EventLog) (rpc : RpcFilters Filter) (filters : List Filter) :
    ((log.view rpc filters).map SorobanRpcEventResponse.id).Nodup :=
  log.distinctIds.sublist (List.filter_sublist.map _)

/-- A fetch of ledger `L`, between two pages: what it asks for next and what it has collected. -/
inductive Fetching (view : List SorobanRpcEventResponse) (L : Nat) :
    GetEventsRequest Filter → List SorobanRpcEventResponse → Prop
  | first (filters : List Filter) (limit : Option Nat) :
      Fetching view L ⟨some L, some (L + 1), filters, none, limit⟩ []
  | later (filters : List Filter) (limit : Option Nat) (before after : List SorobanRpcEventResponse)
      (hview : view = before ++ after) (hbefore : ∀ event ∈ before, event.ledger ≤ L)
      (hafter : ∀ event ∈ after, L ≤ event.ledger) :
      Fetching view L ⟨none, none, filters, some before.length, limit⟩ (ledgerEvents L before)

theorem Fetching.append_right {view later accEvents : List SorobanRpcEventResponse} {L : Nat}
    {request : GetEventsRequest Filter} (hf : Fetching view L request accEvents)
    (hlater : request.cursor ≠ none → ∀ event ∈ later, L ≤ event.ledger) :
    Fetching (view ++ later) L request accEvents := by
  cases hf with
  | first filters limit => exact Fetching.first filters limit
  | later filters limit before after hview hbefore hafter =>
    refine Fetching.later filters limit before (after ++ later) ?_ hbefore (fun event he => ?_)
    · rw [hview, List.append_assoc]
    · rcases List.mem_append.1 he with he | he
      · exact hafter event he
      · exact hlater (by simp) event he

/-- A page of a fetch: the view falls into what came before, the page and the rest. -/
structure PageOf (view : List SorobanRpcEventResponse) (L pageLength : Nat) (request : GetEventsRequest Filter)
    (accEvents before page after : List SorobanRpcEventResponse) : Prop where
  hview : view = before ++ page ++ after
  hbefore : ∀ event ∈ before, event.ledger ≤ L
  hpage : ∀ event ∈ page, L ≤ event.ledger
  hafter : ∀ event ∈ after, L ≤ event.ledger
  acc : accEvents = ledgerEvents L before
  length_le : page.length ≤ pageLength
  short : page.length < pageLength → ∀ event ∈ after, event.ledger = L → False
  first : request.cursor = none → ∀ event ∈ page, event.ledger = L
  later : request.cursor ≠ none → page.length < pageLength → after = []

theorem remaining_split {view before now later : List SorobanRpcEventResponse} {L : Nat}
    (hview : view = before ++ now ++ later) (hbefore : ∀ event ∈ before, event.ledger < L)
    (hnow : ∀ event ∈ now, event.ledger = L) (hlater : ∀ event ∈ later, L < event.ledger) {filters : List Filter}
    {limit : Option Nat} : remaining view ⟨some L, some (L + 1), filters, none, limit⟩ = (before.length, now) := by
  have hrest : ∀ event ∈ now ++ later, ¬ event.ledger < L := by
    intro event he
    rcases List.mem_append.1 he with he | he
    · rw [hnow event he]
      exact Nat.lt_irrefl L
    · exact Nat.not_lt.2 (Nat.le_of_lt (hlater event he))
  have hrestTake : (now ++ later).takeWhile (fun event => decide (event.ledger < L)) = [] :=
    List.takeWhile_eq_nil_iff.2 (fun _ => by simpa using hrest _ (List.getElem_mem _))
  have hlaterTake : later.takeWhile (fun event => decide (event.ledger < L + 1)) = [] :=
    List.takeWhile_eq_nil_iff.2 (fun _ => by simpa using Nat.succ_le_of_lt (hlater _ (List.getElem_mem _)))
  rw [List.append_assoc] at hview
  have htake : view.takeWhile (fun event => decide (event.ledger < L)) = before := by
    rw [hview, List.takeWhile_append_of_pos (by simpa using hbefore), hrestTake, List.append_nil]
  have hdrop : view.dropWhile (fun event => decide (event.ledger < L)) = now ++ later := by
    have h := List.takeWhile_append_dropWhile (p := fun event => decide (event.ledger < L)) (l := view)
    rw [htake] at h
    exact List.append_cancel_left (h.trans hview)
  have hwithin : (now ++ later).takeWhile (fun event => decide (event.ledger < L + 1)) = now := by
    rw [List.takeWhile_append_of_pos, hlaterTake, List.append_nil]
    intro event he
    simp [hnow event he]
  simp only [remaining, Option.getD_some, htake, hdrop, hwithin]

theorem remaining_first {view : List SorobanRpcEventResponse} (hsorted : Sorted SorobanRpcEventResponse.ledger view)
    (L pageLength : Nat) (filters : List Filter) (limit : Option Nat) :
    ∃ before after, PageOf view L pageLength ⟨some L, some (L + 1), filters, none, limit⟩ [] before
        ((remaining view ⟨some L, some (L + 1), filters, none, limit⟩).2.take pageLength) after ∧
      (remaining view ⟨some L, some (L + 1), filters, none, limit⟩).1 = before.length := by
  have hbefore : ∀ event ∈ view.filter (fun event => decide (event.ledger < L)), event.ledger < L :=
    fun event he => of_decide_eq_true (List.mem_filter.1 he).2
  have hnow : ∀ event ∈ ledgerEvents L view, event.ledger = L := fun event he => ((Keyed.mem_block _).1 he).2
  have hlater : ∀ event ∈ view.filter (fun event => decide (L < event.ledger)), L < event.ledger :=
    fun event he => of_decide_eq_true (List.mem_filter.1 he).2
  have hview : view = _ ++ ledgerEvents L view ++ _ := hsorted.split L
  rw [remaining_split hview hbefore hnow hlater]
  refine ⟨_, (ledgerEvents L view).drop pageLength ++ view.filter (fun event => decide (L < event.ledger)),
    ⟨?_, ?_, ?_, ?_, ?_, ?_, ?_, ?_, ?_⟩, rfl⟩
  · rw [← List.append_assoc, List.append_assoc _ (List.take _ _), List.take_append_drop]
    exact hview
  · exact fun event he => Nat.le_of_lt (hbefore event he)
  · exact fun event he => Nat.le_of_eq (hnow event (List.mem_of_mem_take he)).symm
  · intro event he
    rcases List.mem_append.1 he with he | he
    · exact Nat.le_of_eq (hnow event (List.mem_of_mem_drop he)).symm
    · exact Nat.le_of_lt (hlater event he)
  · symm
    rw [Keyed.block_eq_nil]
    exact fun event he => Nat.ne_of_lt (hbefore event he)
  · exact List.length_take_le _ _
  · intro hlt event he heq
    rcases List.mem_append.1 he with he | he
    · have hlt' : min pageLength (ledgerEvents L view).length < pageLength := List.length_take ▸ hlt
      rw [List.drop_eq_nil_of_le (by omega)] at he
      cases he
    · exact Nat.ne_of_gt (hlater event he) heq
  · exact fun _ event he => hnow event (List.mem_of_mem_take he)
  · exact fun h => absurd rfl h

theorem remaining_later {view before after : List SorobanRpcEventResponse} {L : Nat} (pageLength : Nat)
    (filters : List Filter) (limit : Option Nat) (hview : view = before ++ after)
    (hbefore : ∀ event ∈ before, event.ledger ≤ L) (hafter : ∀ event ∈ after, L ≤ event.ledger) :
    PageOf view L pageLength ⟨none, none, filters, some before.length, limit⟩ (ledgerEvents L before) before
      ((remaining view ⟨none, none, filters, some before.length, limit⟩).2.take pageLength)
      (after.drop pageLength) := by
  have hdrop : view.drop before.length = after := by rw [hview, List.drop_left]
  have hend : (after.take pageLength).length < pageLength → after.drop pageLength = [] := by
    intro hlt
    rw [List.length_take] at hlt
    exact List.drop_eq_nil_of_le (by omega)
  simp only [remaining, hdrop]
  refine ⟨?_, hbefore, ?_, ?_, rfl, ?_, ?_, ?_, ?_⟩
  · rw [hview, List.append_assoc, List.take_append_drop]
  · exact fun event he => hafter event (List.mem_of_mem_take he)
  · exact fun event he => hafter event (List.mem_of_mem_drop he)
  · exact List.length_take_le _ _
  · intro hlt event he
    rw [hend hlt] at he
    cases he
  · exact fun h => by cases h
  · exact fun _ hlt => hend hlt

/-- **The page that a fetch is at**, for a page length chosen by the server. -/
theorem Fetching.pageOf {view : List SorobanRpcEventResponse} {L : Nat} {request : GetEventsRequest Filter}
    {accEvents : List SorobanRpcEventResponse} (hf : Fetching view L request accEvents)
    (hsorted : Sorted SorobanRpcEventResponse.ledger view) (pageLength : Nat) :
    ∃ before after,
      PageOf view L pageLength request accEvents before ((remaining view request).2.take pageLength) after ∧
        (remaining view request).1 = before.length := by
  cases hf with
  | first filters limit => exact remaining_first hsorted L pageLength filters limit
  | later filters limit before after hview hbefore hafter =>
    exact ⟨before, after.drop pageLength, remaining_later pageLength filters limit hview hbefore hafter, rfl⟩

theorem answer_pageOf {log : EventLog} {rpc : RpcFilters Filter} {L pageLength : Nat}
    {request : GetEventsRequest Filter} {accEvents : List SorobanRpcEventResponse} {response : GetEventsResponse}
    (hf : Fetching (log.view rpc request.filters) L request accEvents)
    (ha : answer log rpc pageLength request = .ok response) :
    ∃ before after, PageOf (log.view rpc request.filters) L pageLength request accEvents before response.events after ∧
      response.cursor = (before ++ response.events).length := by
  obtain ⟨before, after, hp, hplace⟩ := hf.pageOf (view_sorted log rpc request.filters) pageLength
  unfold answer at ha
  split at ha
  · cases ha
  simp only [Except.ok.injEq] at ha
  subst ha
  exact ⟨before, after, hp, by rw [hplace, List.length_append]⟩

theorem answer_closed {log : EventLog} {rpc : RpcFilters Filter} {view accEvents : List SorobanRpcEventResponse}
    {L pageLength : Nat} {request : GetEventsRequest Filter} {response : GetEventsResponse}
    (hf : Fetching view L request accEvents) (hclosed : request.cursor ≠ none → L ≤ log.newestLedger)
    (ha : answer log rpc pageLength request = .ok response) : L ≤ log.newestLedger := by
  unfold answer at ha
  split at ha
  · cases ha
  rename_i hn
  cases hf with
  | first filters limit =>
    simp only [Option.getD_some, true_and, Nat.not_lt] at hn
    exact hn
  | later filters limit before after hview hbefore hafter => exact hclosed (by simp)

section Page

variable {view before after accEvents : List SorobanRpcEventResponse} {L pageLength : Nat}
  {request : GetEventsRequest Filter} {response : GetEventsResponse}

/-- **A fetch that ends has collected its ledger's events.** -/
theorem onResponse_done {events eventsToCache : CachedEventsResponse} (hpos : 0 < pageLength)
    (hsorted : Sorted SorobanRpcEventResponse.ledger view)
    (hp : PageOf view L pageLength request accEvents before response.events after)
    (h : onResponse L request accEvents response = .done events eventsToCache) :
    events = ⟨ledgerEvents L view, response.latestLedger⟩ := by
  have hacc : accEvents ++ ledgerEvents L response.events = ledgerEvents L (before ++ response.events) := by
    rw [hp.acc]
    exact (ledgerEvents_append L before response.events).symm
  simp only [onResponse] at h
  split at h
  · rename_i hne
    obtain ⟨event, he⟩ := List.exists_mem_of_ne_nil _ hne
    obtain ⟨hep, hel⟩ := List.mem_filter.1 he
    have hlt : L < event.ledger := lt_of_le_of_ne (hp.hpage event hep) (Ne.symm (of_decide_eq_true hel))
    have hover : ledgerEvents L view = ledgerEvents L (before ++ response.events) := by
      rw [hp.hview] at hsorted ⊢
      exact hsorted.block_of_over ⟨event, hep, hlt⟩
    injection h with h _
    rw [← h, hover, ← hacc]
    rfl
  · split at h
    · rename_i hlen
      have hnil : response.events = [] := List.eq_nil_of_length_eq_zero hlen
      have hafter : ledgerEvents L after = [] := by
        rw [Keyed.block_eq_nil]
        exact fun event he heq => hp.short (by omega) event he heq
      injection h with h _
      rw [← h, hp.hview, ledgerEvents_append, hafter, List.append_nil, ← hacc]
      rfl
    · cases h

/-- **A fetch that goes on has collected its ledger's events so far.** -/
theorem onResponse_next {nextRequest : GetEventsRequest Filter} {newEvents : List SorobanRpcEventResponse}
    (hp : PageOf view L pageLength request accEvents before response.events after)
    (hcursor : response.cursor = (before ++ response.events).length)
    (h : onResponse L request accEvents response = .next nextRequest newEvents) :
    Fetching view L nextRequest newEvents ∧ nextRequest.filters = request.filters ∧
      nextRequest.limit = request.limit ∧ response.events ≠ [] := by
  simp only [onResponse] at h
  split at h
  · cases h
  rename_i hnil
  split at h
  · cases h
  rename_i hlen
  injection h with h1 h2
  have hall : ∀ event ∈ response.events, event.ledger = L := by
    intro event he
    by_contra hne
    exact hnil (List.ne_nil_of_mem (List.mem_filter.2 ⟨he, by simpa using hne⟩))
  have hnew : newEvents = ledgerEvents L (before ++ response.events) := by
    rw [← h2, hp.acc]
    exact (ledgerEvents_append L before response.events).symm
  refine ⟨?_, by rw [← h1], by rw [← h1], fun hn => hlen (by rw [hn]; rfl)⟩
  rw [← h1, hnew, hcursor]
  refine Fetching.later request.filters request.limit (before ++ response.events) after hp.hview (fun event he => ?_)
    hp.hafter
  rcases List.mem_append.1 he with he | he
  · exact hp.hbefore event he
  · exact Nat.le_of_eq (hall event he)

theorem onResponse_grows {nextRequest : GetEventsRequest Filter} {newEvents : List SorobanRpcEventResponse}
    (h : onResponse L request accEvents response = .next nextRequest newEvents) :
    accEvents.length < newEvents.length := by
  simp only [onResponse] at h
  split at h
  · cases h
  rename_i hnil
  split at h
  · cases h
  rename_i hlen
  injection h with _ h
  rw [← h, List.length_append]
  have hall : response.events.filter (fun event => decide (event.ledger = L)) = response.events := by
    rw [List.filter_eq_self]
    intro event he
    by_contra hne
    exact hnil (List.ne_nil_of_mem (List.mem_filter.2 ⟨he, by simpa using hne⟩))
  rw [hall]
  omega

theorem onResponse_limit {nextRequest : GetEventsRequest Filter} {newEvents : List SorobanRpcEventResponse}
    (h : onResponse L request accEvents response = .next nextRequest newEvents) :
    nextRequest.limit = request.limit := by
  simp only [onResponse] at h
  split at h
  · cases h
  split at h
  · cases h
  injection h with h _
  rw [← h]

theorem mem_discardLast {page events : List SorobanRpcEventResponse} {pageLimit : Nat}
    {event : SorobanRpcEventResponse} (h : event ∈ discardLast page events pageLimit) : event ∈ events := by
  unfold discardLast at h
  split at h
  · split at h
    · exact (List.mem_filter.1 h).1
    · exact h
  · exact h

theorem onResponse_toCache {events eventsToCache : CachedEventsResponse}
    (hp : PageOf view L pageLength request accEvents before response.events after)
    (h : onResponse L request accEvents response = .done events eventsToCache) :
    eventsToCache.latestLedger = response.latestLedger ∧
      ∀ event ∈ eventsToCache.events, event ∈ response.events ∧ L < event.ledger := by
  simp only [onResponse] at h
  split at h
  · injection h with _ h
    rw [← h]
    refine ⟨rfl, fun event he => ?_⟩
    obtain ⟨hep, hel⟩ := List.mem_filter.1 (mem_discardLast he)
    exact ⟨hep, lt_of_le_of_ne (hp.hpage event hep) (Ne.symm (of_decide_eq_true hel))⟩
  · split at h
    · injection h with _ h
      rw [← h]
      exact ⟨rfl, fun event he => by cases he⟩
    · cases h

/-- **A server that fills its pages up to the limit that the client takes leaves only whole ledgers to be cached.** -/
theorem onResponse_whole {events eventsToCache : CachedEventsResponse}
    (hsorted : Sorted SorobanRpcEventResponse.ledger view)
    (hlimit : request.limit.getD DEFAULT_PAGE_SIZE = pageLength)
    (hp : PageOf view L pageLength request accEvents before response.events after)
    (h : onResponse L request accEvents response = .done events eventsToCache) :
    Whole SorobanRpcEventResponse.ledger view eventsToCache.events := by
  simp only [onResponse, hlimit] at h
  split at h
  · rename_i hne
    injection h with _ h
    rw [← h]
    -- a page that reaches beyond `L` answered a cursor
    have hcursor : request.cursor ≠ none := fun hc => hne (List.filter_eq_nil_iff.2 (fun event he => by
      simpa using hp.first hc event he))
    unfold discardLast
    by_cases hfull : response.events.length = pageLength
    · rw [if_pos hfull]
      cases hlast : response.events.getLast? with
      | none =>
        rw [List.getLast?_eq_none_iff] at hlast
        rw [hlast] at hne
        exact absurd rfl hne
      | some lastEvent =>
        rw [hp.hview] at hsorted ⊢
        exact hsorted.whole_of_cut hlast hp.hbefore hp.hpage
    · rw [if_neg hfull]
      have hend : after = [] := hp.later hcursor (lt_of_le_of_ne hp.length_le hfull)
      rw [hp.hview, hend, List.append_nil]
      exact Keyed.whole_of_end hp.hbefore hp.hpage
  · split at h
    · injection h with _ h
      rw [← h]
      exact Whole.nil _ view
    · cases h

end Page

end Server

end SubqlStellar
