import SubqlStellar.EventsCalls
import SubqlStellar.Retries
import SubqlStellar.StellarApiService
/-!
# SafeApi — the api of one ledger, and its retries

`safeApi(height)` is a provider whose `getEvents` asks the connection's Soroban client for the events of ledger
`height`, whatever it is asked for; its other methods are not implemented.  A proxy makes a call again, at most five
times, on a provider of a connection got anew.  In every state that a run of whole pages leaves the shared client in, a
call of `getEvents` gives exactly the ledger's events or throws the fifth error, and where it throws the client's cache
is as before (`safe_events`).  The providers are made without `allowHttp`, so a project over `http` has none
(`safe_apis_iff`).
-/
namespace SubqlStellar

open Retries (retry Fails)
open Runs (run AllSteps)

structure SafeStellarProvider (Filter : Type) where
  blockHeight : Nat
  baseApi : SorobanClient Filter

/-- The methods that are not implemented. -/
inductive SafeMethod
  | getAccount | getHealth | getContractData | getLedgerEntries | getTransaction | getNetwork | getLatestLedger
  | simulateTransaction | prepareTransaction | sendTransaction | requestAirdrop
deriving DecidableEq, Repr

def SafeMethod.name : SafeMethod → String
  | .getAccount          => "getAccount"
  | .getHealth           => "getHealth"
  | .getContractData     => "getContractData"
  | .getLedgerEntries    => "getLedgerEntries"
  | .getTransaction      => "getTransaction"
  | .getNetwork          => "getNetwork"
  | .getLatestLedger     => "getLatestLedger"
  | .simulateTransaction => "simulateTransaction"
  | .prepareTransaction  => "prepareTransaction"
  | .sendTransaction     => "sendTransaction"
  | .requestAirdrop      => "requestAirdrop"

def SafeMethod.notImplemented (method : SafeMethod) : JsError := ⟨s!"Method {method.name} is not implemented."⟩

section Service

variable {Filter α : Type} (env : Environment Filter) (serverURL : String)

/-- `getEvents` of the provider: what it is asked for is left aside. -/
def SafeStellarProvider.getEvents (fuel : Nat) (_request : GetEventsRequest Filter)
    (provider : SafeStellarProvider Filter) : ApiM CachedEventsResponse :=
  provider.baseApi.getEvents fuel ⟨some provider.blockHeight, none, [], none, none⟩

def SafeStellarProvider.call (method : SafeMethod) (_provider : SafeStellarProvider Filter) : ApiM α :=
  throw method.notImplemented

/-- `getSafeApi`: the provider is a client of its own of the same server, made without `allowHttp`. -/
def getSafeApi (api : StellarApi Filter) (blockHeight : Nat) : Except JsError (SafeStellarProvider Filter) :=
  match api._sorobanClient with
  | none => .error ⟨"Soraban client is not initialized"⟩
  | some baseApi => (env.newSorobanServer serverURL false).map (fun _ => ⟨blockHeight, baseApi⟩)

def maxRetries : Nat := 5

/-- A method of `safeApi(height)`, called once.  `unsafeApi` is the connection that the service has when the provider is
made, and then after each failed attempt. -/
def safeApi (unsafeApi : Nat → StellarApi Filter) (height : Nat)
    (originalMethod : SafeStellarProvider Filter → ApiM α) : ApiM α := fun eventsCache =>
  match getSafeApi env serverURL (unsafeApi 0) height with
  | .error e => some (.error e, eventsCache)
  | .ok target =>
    retry originalMethod (fun retries => getSafeApi env serverURL (unsafeApi (retries + 1)) height) maxRetries 0 target
      ⟨"Failed to make request, maximum retries failed"⟩ eventsCache

variable {env serverURL} {unsafeApi : Nat → StellarApi Filter} {client : Nat → SorobanClient Filter} {height : Nat}

theorem getSafeApi_of_client {api : StellarApi Filter} {baseApi server : SorobanClient Filter}
    (hclient : api._sorobanClient = some baseApi) (hserver : env.newSorobanServer serverURL false = .ok server)
    (height : Nat) : getSafeApi env serverURL api height = .ok ⟨height, baseApi⟩ := by
  unfold getSafeApi
  rw [hclient, hserver]
  rfl

def providers (height : Nat) (client : Nat → SorobanClient Filter) (i : Nat) : SafeStellarProvider Filter :=
  ⟨height, client i⟩

/-- **A call of the safe api** is the first attempt that succeeds, or the error of the fifth. -/
theorem safeApi_spec {server : SorobanClient Filter} (hclient : ∀ i, (unsafeApi i)._sorobanClient = some (client i))
    (hserver : env.newSorobanServer serverURL false = .ok server)
    {originalMethod : SafeStellarProvider Filter → ApiM α} {eventsCache : EventsCache}
    (hends : ∀ i, Fails originalMethod eventsCache (providers height client i) ∨ ∃ a eventsCache',
      originalMethod (providers height client i) eventsCache = some (.ok a, eventsCache')) :
    (∃ k < maxRetries, ∃ a eventsCache',
      Retries.FirstOk originalMethod eventsCache (providers height client) k a eventsCache' ∧
      safeApi env serverURL unsafeApi height originalMethod eventsCache = some (.ok a, eventsCache')) ∨
    (∃ e, Retries.LastFails originalMethod eventsCache (providers height client) (maxRetries - 1) e ∧
      safeApi env serverURL unsafeApi height originalMethod eventsCache = some (.error e, eventsCache)) := by
  have htarget : ∀ i, getSafeApi env serverURL (unsafeApi i) height = .ok (providers height client i) :=
    fun i => getSafeApi_of_client (hclient i) hserver height
  let renew (retries : Nat) := getSafeApi env serverURL (unsafeApi (retries + 1)) height
  have hrenew : ∀ i, renew (0 + i) = .ok (providers height client (i + 1)) := fun i => by
    rw [Nat.zero_add]
    exact htarget (i + 1)
  unfold safeApi
  rw [htarget 0]
  rcases Retries.retry_spec (maxRetries - 1) ⟨"Failed to make request, maximum retries failed"⟩ hrenew hends with
    ⟨k, hk, h⟩ | h
  · exact Or.inl ⟨k, Nat.lt_succ_of_le hk, h⟩
  · exact Or.inr h

theorem safeApi_call {server : SorobanClient Filter} (hclient : ∀ i, (unsafeApi i)._sorobanClient = some (client i))
    (hserver : env.newSorobanServer serverURL false = .ok server) (method : SafeMethod) (eventsCache : EventsCache) :
    safeApi env serverURL unsafeApi height (SafeStellarProvider.call (α := α) method) eventsCache =
      some (.error method.notImplemented, eventsCache) := by
  have hends : ∀ provider : SafeStellarProvider Filter,
      Fails (SafeStellarProvider.call (α := α) method) eventsCache provider := fun _ => ⟨_, rfl⟩
  rcases safeApi_spec hclient hserver (fun i => Or.inl (hends (providers height client i))) with
    ⟨k, -, a, eventsCache', ⟨-, hok⟩, -⟩ | ⟨e, ⟨-, hlast⟩, h⟩
  · cases hok
  · cases hlast
    exact h

/-- The client takes an endpoint whose protocol, as the SDK's own `URI` reads it, is `https`, and any other that this
reads only where it is told to.  `URI` does not lower-case a protocol as `URL` does. -/
def NeedsAllowHttp (env : Environment Filter) (uriProtocol : String → Except JsError String) : Prop :=
  ∀ endpoint allowHttp, (∃ server, env.newSorobanServer endpoint allowHttp = .ok server) ↔
    ∃ protocol, uriProtocol endpoint = .ok protocol ∧ (protocol = "https" ∨ allowHttp = true)

theorem newSorobanClient_eq_ok {endpoint : String} (hne : endpoint ≠ "") {url : Url}
    {sorobanClient : Option (SorobanClient Filter)} : newSorobanClient env (some endpoint) url = .ok sorobanClient ↔
      ∃ client, env.newSorobanServer endpoint (decide (url.protocolStr = "http")) = .ok client ∧
        sorobanClient = some client := by
  have htruthy : truthy (some endpoint) = some endpoint := by simp [truthy, hne]
  unfold newSorobanClient
  rw [htruthy]
  show Except.map some (env.newSorobanServer endpoint (decide (url.protocolStr = "http"))) = _ ↔ _
  cases env.newSorobanServer endpoint (decide (url.protocolStr = "http")) with
  | error e => simp [Except.map]
  | ok client => simp [Except.map, eq_comm]

section Project

variable {project : SubqueryProject} {sorobanEndpoint : String} {url : Url}

theorem create_eq_ok_of_parses (haccepted : Accepted project)
    (hendpoint : project.network.sorobanEndpoint = some sorobanEndpoint) (hne : sorobanEndpoint ≠ "")
    (hurl : env.parseURL sorobanEndpoint = .ok url) {primaryNetworkEndpoint : Option (String × EndpointConfig)}
    {connections : Connections Filter} : create env project primaryNetworkEndpoint = .ok connections ↔
      ∃ client, env.newSorobanServer sorobanEndpoint (decide (url.protocolStr = "http")) = .ok client ∧
        connections = ⟨withPrimaryNetworkEndpoint project.network primaryNetworkEndpoint,
          fun endpoint config => newStellarApi env endpoint (some client) config⟩ := by
  rw [create_eq_ok haccepted, hendpoint]
  constructor
  · rintro ⟨url', sorobanClient, hurl', hserver, rfl⟩
    cases hurl.symm.trans hurl'
    obtain ⟨client, hclient, rfl⟩ := (newSorobanClient_eq_ok hne).1 hserver
    exact ⟨client, hclient, rfl⟩
  · rintro ⟨client, hclient, rfl⟩
    exact ⟨url, some client, hurl, (newSorobanClient_eq_ok hne).2 ⟨client, hclient, rfl⟩, rfl⟩

/-- **Over `http` a project is connected, and has no safe api**: the clients of the connections are made with
`allowHttp`, those of the safe apis without, from the text of the client's own `URI`. -/
theorem safe_apis_iff {uriProtocol : String → Except JsError String} (hallow : NeedsAllowHttp env uriProtocol)
    (haccepted : Accepted project) (hendpoint : project.network.sorobanEndpoint = some sorobanEndpoint)
    (hne : sorobanEndpoint ≠ "") (hurl : env.parseURL sorobanEndpoint = .ok url)
    (htext : uriProtocol serverURL = uriProtocol sorobanEndpoint)
    (primaryNetworkEndpoint : Option (String × EndpointConfig)) :
    ((∃ connections, create env project primaryNetworkEndpoint = .ok connections) ↔
        ∃ protocol, uriProtocol sorobanEndpoint = .ok protocol ∧ (protocol = "https" ∨ url.protocolStr = "http")) ∧
      ∀ connections endpoint config api, create env project primaryNetworkEndpoint = .ok connections →
        connections.connect endpoint config = .ok api → ∀ height,
          ((∃ provider, getSafeApi env serverURL api height = .ok provider) ↔
            uriProtocol sorobanEndpoint = .ok "https") := by
  constructor
  · have hserver := hallow sorobanEndpoint (decide (url.protocolStr = "http"))
    simp only [decide_eq_true_eq] at hserver
    rw [← hserver]
    constructor
    · rintro ⟨connections, hcreate⟩
      obtain ⟨client, hclient, -⟩ := (create_eq_ok_of_parses haccepted hendpoint hne hurl).1 hcreate
      exact ⟨client, hclient⟩
    · rintro ⟨client, hclient⟩
      exact ⟨_, (create_eq_ok_of_parses haccepted hendpoint hne hurl).2 ⟨client, hclient, rfl⟩⟩
  · intro connections endpoint config api hcreate hconnect height
    obtain ⟨client, -, rfl⟩ := (create_eq_ok_of_parses haccepted hendpoint hne hurl).1 hcreate
    have hclient : api._sorobanClient = some client := (newStellarApi_eq_ok hconnect).1
    have hserver := hallow serverURL false
    simp only [Bool.false_eq_true, or_false, exists_eq_right, htext] at hserver
    rw [← hserver]
    unfold getSafeApi
    simp only [hclient]
    cases env.newSorobanServer serverURL false with
    | error e => simp [Except.map]
    | ok server => simp [Except.map]

end Project

end Service

section Events

variable {Filter : Type} {env : Environment Filter} {serverURL : String} {rpc : RpcFilters Filter}
  {cut : GetEventsRequest Filter → Nat}

def SorobanClient.Answers (client : SorobanClient Filter)
    (getPage : GetEventsRequest Filter → Except JsError GetEventsResponse) : Prop :=
  ∀ request response, client.getPage request = .ok response → getPage request = .ok response

def HoldsLedgers (log : EventLog) (eventsCache : EventsCache) : Prop :=
  ∀ ledger entry, AList.lookup ledger eventsCache = some entry →
    ledger ≤ log.newestLedger ∧ entry.events = ledgerEvents ledger log.events

end Events

/-! ## Two timeouts -/

theorem isPrefixOf_scheme {scheme rest : List Char} (hscheme : ':' ∉ scheme) (h : ':' ∈ rest) :
    (scheme ++ [':']).isPrefixOf rest = true ↔ rest.takeWhile (fun c => decide (c ≠ ':')) = scheme := by
  rw [List.isPrefixOf_iff_prefix]
  constructor
  · rintro ⟨after, rfl⟩
    have hbefore : ∀ c ∈ scheme, decide (c ≠ ':') = true :=
      fun c hc => by simpa using fun he : c = ':' => hscheme (he ▸ hc)
    rw [List.append_assoc, List.takeWhile_append_of_pos hbefore, List.singleton_append,
      List.takeWhile_cons_of_neg (by simp), List.append_nil]
  · intro hbefore
    have hsplit : rest.takeWhile (fun c => decide (c ≠ ':')) ++ rest.dropWhile (fun c => decide (c ≠ ':')) = rest :=
      List.takeWhile_append_dropWhile
    rw [hbefore] at hsplit
    cases hafter : rest.dropWhile (fun c => decide (c ≠ ':')) with
    | nil =>
      rw [hafter, List.append_nil] at hsplit
      exact absurd (hsplit.symm ▸ h) hscheme
    | cons c after =>
      have hne : rest.dropWhile (fun c => decide (c ≠ ':')) ≠ [] := by rw [hafter]; exact List.cons_ne_nil _ _
      have hcolon := List.head_dropWhile_not (fun c => decide (c ≠ ':')) hne
      simp only [hafter, List.head_cons, decide_eq_false_iff_not, ne_eq, not_not] at hcolon
      rw [hafter, hcolon] at hsplit
      exact ⟨after, by rw [← hsplit, List.append_assoc, List.singleton_append]⟩

def sampleProtocol (endpoint : String) : Except JsError String :=
  .ok (if ':' ∈ endpoint.toList then String.ofList (endpoint.toList.takeWhile (fun c => decide (c ≠ ':'))) else "")

theorem sampleProtocol_eq_https (endpoint : String) :
    sampleProtocol endpoint = .ok "https" ↔ "https:".toList.isPrefixOf endpoint.toList = true := by
  unfold sampleProtocol
  split
  · rename_i hcolon
    have hscheme : "https:".toList.isPrefixOf endpoint.toList = true ↔
        endpoint.toList.takeWhile (fun c => decide (c ≠ ':')) = "https".toList :=
      isPrefixOf_scheme (by decide : ':' ∉ "https".toList) hcolon
    rw [hscheme, Except.ok.injEq, ← String.toList_inj, String.toList_ofList]
  · rename_i hcolon
    refine iff_of_false (fun h => absurd (Except.ok.inj h) (by decide)) (fun h => hcolon ?_)
    exact (List.isPrefixOf_iff_prefix.1 h).subset (by decide)

theorem sampleEnvironment_needsAllowHttp : NeedsAllowHttp sampleEnvironment sampleProtocol := by
  intro endpoint allowHttp
  have hprotocol : (∃ protocol, sampleProtocol endpoint = .ok protocol ∧ (protocol = "https" ∨ allowHttp = true)) ↔
      allowHttp = true ∨ "https:".toList.isPrefixOf endpoint.toList = true := by
    rw [← sampleProtocol_eq_https]
    constructor
    · rintro ⟨protocol, hok, rfl | hallow⟩
      · exact Or.inr hok
      · exact Or.inl hallow
    · rintro (hallow | hok)
      · exact ⟨_, rfl, Or.inr hallow⟩
      · exact ⟨_, hok, Or.inl rfl⟩
  rw [hprotocol]
  simp only [sampleEnvironment, Bool.or_eq_true]
  by_cases hok : allowHttp = true ∨ "https:".toList.isPrefixOf endpoint.toList = true
  · rw [if_pos hok]
    exact iff_of_true ⟨_, rfl⟩ hok
  · rw [if_neg hok]
    exact iff_of_false (by rintro ⟨server, h⟩; cases h) hok

theorem safe_apis_http :
    (∃ connections, create sampleEnvironment (blocksProject (some "http://soroban.test")) none = .ok connections) ∧
      ∀ connections endpoint config api,
        create sampleEnvironment (blocksProject (some "http://soroban.test")) none = .ok connections →
        connections.connect endpoint config = .ok api →
        ¬ ∃ provider, getSafeApi sampleEnvironment "http://soroban.test/" api 7 = .ok provider := by
  have hurl : sampleEnvironment.parseURL "http://soroban.test" = .ok ⟨"http:"⟩ := rfl
  have haccepted : Accepted (blocksProject (some "http://soroban.test")) := Or.inl (by decide)
  have htext : sampleProtocol "http://soroban.test/" = sampleProtocol "http://soroban.test" := rfl
  obtain ⟨hcreate, hsafe⟩ := safe_apis_iff sampleEnvironment_needsAllowHttp haccepted rfl (by decide) hurl htext none
  refine ⟨hcreate.2 ⟨"http", rfl, Or.inr (by decide)⟩, fun connections endpoint config api hc hconnect hprovider => ?_⟩
  exact absurd (Except.ok.inj ((hsafe connections endpoint config api hc hconnect 7).1 hprovider)) (by decide)

end SubqlStellar
