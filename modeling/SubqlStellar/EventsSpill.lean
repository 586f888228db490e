import Mathlib.Data.PNat.Defs
import SubqlStellar.EventsFetch
/-!
# EventsSpill — what a fetch leaves to be cached, in closed form

Against a server that fills every page up to one length, a fetch of a ledger reads whole pages: the last of them holds
the end of the ledger's events and as many later ones as still fit (`room`).  What it leaves to be cached is those later
events, less their last ledger where the page has as many events as the request's limit (`leftover`).  Where the pages
are as long as the limit, that is where the page was full (`spill`).
-/
namespace SubqlStellar

def pageUpToLimit {Filter : Type} (request : GetEventsRequest Filter) : Nat := request.limit.getD DEFAULT_PAGE_SIZE

/-- How many later events fit into the last page of a fetch of `n` events: the first page holds no others, and the pages
after it are filled from the first one's end on. -/
def room (pageLimit n : Nat) : Nat := if n = 0 then 0 else pageLimit - (n - pageLimit) % pageLimit

/-- Later events as far as they fit, less their last ledger where they fill the page. -/
def spillInto (later : List SorobanRpcEventResponse) (n : Nat) : List SorobanRpcEventResponse :=
  discardLast (later.take n) (later.take n) n

def spill (view : List SorobanRpcEventResponse) (L pageLimit : Nat) : List SorobanRpcEventResponse :=
  spillInto (view.filter (fun event => decide (L < event.ledger))) (room pageLimit (ledgerEvents L view).length)

/-- The same for pages of `pageLength` events, where the request's limit is `pageLimit`. -/
def leftover (view : List SorobanRpcEventResponse) (L pageLength pageLimit : Nat) : List SorobanRpcEventResponse :=
  let n := (ledgerEvents L view).length
  let later := (view.filter (fun event => decide (L < event.ledger))).take (room pageLength n)
  discardLast later later (pageLimit - (n - pageLength) % pageLength)

section Fetch

variable {Filter : Type} {log : EventLog} {rpc : RpcFilters Filter}

/-- **What one page makes of a fetch**, by the page's events of the ledger and its later ones. -/
theorem onResponse_split {L : Nat} {request : GetEventsRequest Filter}
    {accEvents now later : List SorobanRpcEventResponse} {response : GetEventsResponse}
    (hevents : response.events = now ++ later) (hnow : ∀ event ∈ now, event.ledger = L)
    (hlater : ∀ event ∈ later, event.ledger ≠ L) :
    onResponse L request accEvents response =
      if later ≠ [] then .done ⟨accEvents ++ now, response.latestLedger⟩
        ⟨discardLast (now ++ later) later (request.limit.getD DEFAULT_PAGE_SIZE), response.latestLedger⟩
      else if now = [] then .done ⟨accEvents, response.latestLedger⟩ ⟨[], response.latestLedger⟩
      else .next { request with cursor := some response.cursor, startLedger := none, endLedger := none }
        (accEvents ++ now) := by
  have h1 : ledgerEvents L response.events = now := by
    have hself : ledgerEvents L now = now := (Keyed.block_eq_self _).2 hnow
    have hnone : ledgerEvents L later = [] := (Keyed.block_eq_nil _).2 hlater
    rw [hevents, ledgerEvents_append, hself, hnone, List.append_nil]
  unfold ledgerEvents Keyed.block at h1
  have h2 : response.events.filter (fun event => decide (event.ledger ≠ L)) = later := by
    have hnone : now.filter (fun event => decide (event.ledger ≠ L)) = [] := by
      simpa [List.filter_eq_nil_iff] using hnow
    rw [hevents, List.filter_append, hnone, List.nil_append, List.filter_eq_self]
    simpa using hlater
  have hlen : response.events.length = 0 ↔ now = [] ∧ later = [] := by
    rw [hevents, List.length_eq_zero_iff, List.append_eq_nil_iff]
  unfold onResponse
  simp only
  rw [h1, h2]
  by_cases hl : later = []
  · by_cases hn : now = []
    · simp [hl, hn, hlen]
    · simp [hl, hn, hlen]
  · simp only [hl, ne_eq, not_false_eq_true, if_true, hevents]

theorem discardLast_append {now later : List SorobanRpcEventResponse} (pageLimit : Nat) (h : later ≠ []) :
    discardLast (now ++ later) later pageLimit = discardLast later later (pageLimit - now.length) := by
  have hpos : 0 < later.length := List.length_pos_iff.2 h
  unfold discardLast
  rw [List.length_append, List.getLast?_append_of_ne_nil _ h]
  by_cases hfull : later.length = pageLimit - now.length
  · rw [if_pos (by omega), if_pos hfull]
  · rw [if_neg (by omega), if_neg hfull]

theorem discardLast_nil (pageLimit : Nat) : discardLast [] [] pageLimit = [] := by
  unfold discardLast
  split <;> rfl

theorem leftover_self (view : List SorobanRpcEventResponse) (L pageLimit : Nat) :
    leftover view L pageLimit pageLimit = spill view L pageLimit := by
  simp only [leftover, spill, spillInto, room]
  split
  · rw [List.take_zero, discardLast_nil, discardLast_nil]
  · rfl

section Split

variable {before now later : List SorobanRpcEventResponse} {L pageLength : Nat} {filters : List Filter}
  {limit : Option Nat} {cut : GetEventsRequest Filter → Nat}

theorem serve_first (hcut : ∀ request, request.limit = limit → cut request = pageLength)
    (hview : log.view rpc filters = before ++ now ++ later) (hbefore : ∀ event ∈ before, event.ledger < L)
    (hnow : ∀ event ∈ now, event.ledger = L) (hlater : ∀ event ∈ later, L < event.ledger) (hL : L ≤ log.newestLedger) :
    ∃ response, serve log rpc cut ⟨some L, some (L + 1), filters, none, limit⟩ = .ok response ∧
      response.events = now.take pageLength ++ [] ∧ response.cursor = before.length + min pageLength now.length := by
  have hserve : serve log rpc cut ⟨some L, some (L + 1), filters, none, limit⟩ = .ok _ :=
    serve_eq_nextPage hL (@Fetching.first _ log.events L filters limit)
  rw [hcut _ rfl, nextPage, remaining_split hview hbefore hnow hlater] at hserve
  exact ⟨_, hserve, (List.append_nil _).symm, congrArg (fun n => before.length + n) List.length_take⟩

theorem serve_later (hcut : ∀ request, request.limit = limit → cut request = pageLength)
    (hview : log.view rpc filters = before ++ now ++ later) {a : Nat} (ha : a ≤ now.length) : ∃ response,
      serve log rpc cut ⟨none, none, filters, some (before.length + a), limit⟩ = .ok response ∧
      response.events = (now.drop a).take pageLength ++ later.take (pageLength - (now.length - a)) ∧
      response.cursor = before.length + a + response.events.length := by
  have hdrop : (log.view rpc filters).drop (before.length + a) = now.drop a ++ later := by
    rw [hview, List.append_assoc, List.drop_append, List.drop_eq_nil_of_le (Nat.le_add_right _ _), List.nil_append,
      Nat.add_sub_cancel_left, List.drop_append_of_le_length ha]
  unfold serve answer
  rw [if_neg (by simp), hcut _ rfl]
  simp only [remaining, hdrop]
  exact ⟨_, rfl, by rw [List.take_append, List.length_drop], rfl⟩

/-- What is left from there on: only full pages come before the one that ends the fetch, so its place is known by
remainders. -/
theorem toCache_later (hcut : ∀ request, request.limit = limit → cut request = pageLength)
    (hview : log.view rpc filters = before ++ now ++ later) (hnow : ∀ event ∈ now, event.ledger = L)
    (hlater : ∀ event ∈ later, L < event.ledger) (hpos : 0 < pageLength) : ∀ (fuel : Nat) {a : Nat}
    {accEvents : List SorobanRpcEventResponse} {events eventsToCache : CachedEventsResponse}, a ≤ now.length →
    fetchEventsForSequence (serve log rpc cut) L fuel ⟨none, none, filters, some (before.length + a), limit⟩ accEvents =
      some (.ok (events, eventsToCache)) →
    eventsToCache.events = discardLast (later.take (pageLength - (now.length - a) % pageLength))
      (later.take (pageLength - (now.length - a) % pageLength))
      (limit.getD DEFAULT_PAGE_SIZE - (now.length - a) % pageLength)
  | 0, _, _, _, _, _, h => by cases h
  | fuel + 1, a, accEvents, events, eventsToCache, ha, h => by
    have hnow' : ∀ event ∈ (now.drop a).take pageLength, event.ledger = L :=
      fun event he => hnow event (List.mem_of_mem_drop (List.mem_of_mem_take he))
    have hlater' : ∀ event ∈ later.take (pageLength - (now.length - a)), event.ledger ≠ L :=
      fun event he => Nat.ne_of_gt (hlater event (List.mem_of_mem_take he))
    obtain ⟨response, hserve, hevents, hcursor⟩ := serve_later hcut hview ha
    simp only [fetchEventsForSequence, hserve, onResponse_split hevents hnow' hlater'] at h
    by_cases hl : later.take (pageLength - (now.length - a)) = []
    · rw [if_neg (not_not.2 hl)] at h
      by_cases hn : (now.drop a).take pageLength = []
      · rw [if_pos hn] at h
        simp only [Option.some.injEq, Except.ok.injEq, Prod.mk.injEq] at h
        have hend : now.length - a = 0 := by
          have := congrArg List.length hn
          rw [List.length_take, List.length_drop, List.length_nil] at this
          omega
        have hnil : later = [] := by
          rw [List.take_eq_nil_iff] at hl
          exact hl.resolve_left (by omega)
        rw [← h.2, hnil, List.take_nil, discardLast_nil]
      · rw [if_neg hn] at h
        have hnext : response.cursor = before.length + (a + min pageLength (now.length - a)) := by
          rw [hcursor, hevents, hl, List.append_nil, List.length_take, List.length_drop, Nat.add_assoc]
        rw [hnext] at h
        rw [toCache_later hcut hview hnow hlater hpos fuel (by omega) h]
        rcases List.take_eq_nil_iff.1 hl with hfull | hnil
        · have hmod : (now.length - a) % pageLength = (now.length - a - pageLength) % pageLength :=
            Nat.mod_eq_sub_mod (by omega)
          have hsub : now.length - (a + min pageLength (now.length - a)) = now.length - a - pageLength := by omega
          rw [hmod, hsub]
        · rw [hnil, List.take_nil, List.take_nil, discardLast_nil, discardLast_nil]
    · rw [if_pos hl] at h
      simp only [Option.some.injEq, Except.ok.injEq, Prod.mk.injEq] at h
      have hlt : now.length - a < pageLength := by
        by_contra hge
        exact hl (List.take_eq_nil_iff.2 (Or.inl (by omega)))
      have htake : (now.drop a).take pageLength = now.drop a :=
        List.take_of_length_le (by rw [List.length_drop]; omega)
      rw [← h.2, htake, Nat.mod_eq_of_lt hlt]
      show discardLast _ _ _ = _
      rw [discardLast_append _ hl, List.length_drop]

theorem toCache_first (hcut : ∀ request, request.limit = limit → cut request = pageLength)
    (hview : log.view rpc filters = before ++ now ++ later) (hbefore : ∀ event ∈ before, event.ledger < L)
    (hnow : ∀ event ∈ now, event.ledger = L) (hlater : ∀ event ∈ later, L < event.ledger) (hL : L ≤ log.newestLedger)
    {fuel : Nat} {events eventsToCache : CachedEventsResponse}
    (h : fetchEventsForSequence (serve log rpc cut) L fuel ⟨some L, some (L + 1), filters, none, limit⟩ [] =
      some (.ok (events, eventsToCache))) :
    eventsToCache.events = discardLast (later.take (room pageLength now.length))
      (later.take (room pageLength now.length))
      (limit.getD DEFAULT_PAGE_SIZE - (now.length - pageLength) % pageLength) := by
  cases fuel with
  | zero => cases h
  | succ fuel =>
    obtain ⟨response, hserve, hevents, hcursor⟩ := serve_first hcut hview hbefore hnow hlater hL
    have hnow' : ∀ event ∈ now.take pageLength, event.ledger = L := fun event he => hnow event (List.mem_of_mem_take he)
    simp only [fetchEventsForSequence, hserve,
      onResponse_split hevents hnow' (fun event he => absurd he List.not_mem_nil)] at h
    rw [if_neg (not_not.2 rfl)] at h
    by_cases hn : now.take pageLength = []
    · rw [if_pos hn] at h
      simp only [Option.some.injEq, Except.ok.injEq, Prod.mk.injEq] at h
      have hroom : room pageLength now.length = 0 := by
        unfold room
        rcases List.take_eq_nil_iff.1 hn with rfl | rfl
        · rw [Nat.zero_sub, ite_self]
        · rfl
      rw [← h.2, hroom, List.take_zero, discardLast_nil]
    · rw [if_neg hn, hcursor] at h
      obtain ⟨hpos, hne⟩ := not_or.1 (fun hnil => hn (List.take_eq_nil_iff.2 hnil))
      have hsub : now.length - min pageLength now.length = now.length - pageLength := by omega
      have hroom : room pageLength now.length = pageLength - (now.length - pageLength) % pageLength :=
        if_neg (fun h0 => hne (List.eq_nil_of_length_eq_zero h0))
      rw [toCache_later hcut hview hnow hlater (Nat.pos_of_ne_zero hpos) fuel (Nat.min_le_right _ _) h, hsub, hroom]

end Split

/-- **What a fetch leaves to be cached**, against pages of one length. -/
theorem fetchEventsForSequence_leftover {L pageLength fuel : Nat} {filters : List Filter} {limit : Option Nat}
    {cut : GetEventsRequest Filter → Nat} (hcut : ∀ request, request.limit = limit → cut request = pageLength)
    (hL : L ≤ log.newestLedger) {events eventsToCache : CachedEventsResponse}
    (h : fetchEventsForSequence (serve log rpc cut) L fuel ⟨some L, some (L + 1), filters, none, limit⟩ [] =
      some (.ok (events, eventsToCache))) :
    eventsToCache.events = leftover (log.view rpc filters) L pageLength (limit.getD DEFAULT_PAGE_SIZE) := by
  have hview : log.view rpc filters = _ ++ ledgerEvents L (log.view rpc filters) ++ _ :=
    (view_sorted log rpc filters).split L
  exact toCache_first hcut hview (fun event he => of_decide_eq_true (List.mem_filter.1 he).2)
    (fun event he => ((Keyed.mem_block _).1 he).2) (fun event he => of_decide_eq_true (List.mem_filter.1 he).2) hL h

theorem fetchEventsForSequence_toCache {L pageLimit fuel : Nat} {filters : List Filter}
    (hL : L ≤ log.newestLedger) {events eventsToCache : CachedEventsResponse}
    (h : fetchEventsForSequence (serve log rpc pageUpToLimit) L fuel
      ⟨some L, some (L + 1), filters, none, some pageLimit⟩ [] = some (.ok (events, eventsToCache))) :
    eventsToCache.events = spill (log.view rpc filters) L pageLimit := by
  have hcut : ∀ request : GetEventsRequest Filter,
      request.limit = some pageLimit → pageUpToLimit request = pageLimit := by
    intro request hlimit
    unfold pageUpToLimit
    rw [hlimit, Option.getD_some]
  rw [fetchEventsForSequence_leftover hcut hL h, Option.getD_some, leftover_self]

end Fetch

end SubqlStellar
