import SubqlStellar.BatchDelivery
import SubqlStellar.Decimals
/-!
# Headers — ledger numbers for hashes

Stellar has no call for a ledger by its hash, so a header has the text of its ledger's number for a hash, and that of
the number before for its parent's (`stellarBlockToHeader`); a hash is read back as a number (`getHeaderForHash`).
Following parent hashes then goes down Horizon's ledgers one by one (`ancestor_eq`), and links the blocks of all
batches (`headers_linked`).
-/
namespace SubqlStellar

open Decimals (parseInt parseInt_repr repr_inj)
open Runs (run)

/-- `ledgers()` of Horizon: a ledger by its number, where no number is `NaN`, and its first page, newest first. -/
structure LedgerCalls where
  ledger : Option Int → Except JsError LedgerRecord
  newestFirst : Except JsError (List LedgerRecord)

structure Header (Date : Type) where
  blockHeight : Nat
  blockHash : String
  parentHash : String
  timestamp : Date
deriving DecidableEq, Repr

section Headers

variable {Date : Type} (newDate : String → Date)

def stellarBlockToHeader (record : LedgerRecord) : Header Date where
  blockHeight := record.sequence
  blockHash := (record.sequence : Int).repr
  parentHash := ((record.sequence : Int) - 1).repr
  timestamp := newDate record.closedAt

/-- The `getHeader` of `formatBlockUtil`. -/
def getHeader (block : StellarBlock) : Header Date := stellarBlockToHeader newDate block.record

def getHeaderForHeight (api : LedgerCalls) (height : Option Int) : Except JsError (Header Date) :=
  (api.ledger height).map (stellarBlockToHeader newDate)

def getHeaderForHash (api : LedgerCalls) (hash : String) : Except JsError (Header Date) :=
  getHeaderForHeight newDate api (parseInt hash)

/-- `records[0]`. -/
def getFinalizedBlock (api : LedgerCalls) : Except JsError (Option LedgerRecord) := api.newestFirst.map List.head?

def getFinalizedHeader (api : LedgerCalls) : Except JsError (Header Date) := do
  match ← getFinalizedBlock api with
  | some record => return stellarBlockToHeader newDate record
  | none        => throw ⟨"Cannot read properties of undefined (reading 'sequence')"⟩

def getFinalizedBlockHeight (api : LedgerCalls) : Except JsError Nat := do
  match ← getFinalizedBlock api with
  | some record => return record.sequence
  | none        => throw ⟨"Cannot read properties of undefined (reading 'sequence')"⟩

def getBestBlockHeight (api : LedgerCalls) : Except JsError Nat := do
  return (← getFinalizedBlockHeight api) + 1

/-- The header reached by `k` parent hashes. -/
def ancestor (api : LedgerCalls) : Nat → Header Date → Except JsError (Header Date)
  | 0, header     => .ok header
  | k + 1, header => do ancestor api k (← getHeaderForHash newDate api header.parentHash)

def LedgerCalls.Numbered (api : LedgerCalls) : Prop :=
  ∀ n record, api.ledger n = .ok record → n = some (record.sequence : Int)

/-- The `k` ledgers below ledger `n`. -/
def LedgerCalls.HoldsBelow (api : LedgerCalls) (n : Int) (k : Nat) : Prop :=
  ∀ i : Nat, i < k → ∃ record, api.ledger (some (n - (i + 1))) = .ok record

variable {newDate}

theorem getHeaderForHash_parentHash (api : LedgerCalls) (record : LedgerRecord) :
    getHeaderForHash newDate api (stellarBlockToHeader newDate record).parentHash =
      getHeaderForHeight newDate api (some (record.sequence - 1)) := by
  show getHeaderForHeight newDate api (parseInt ((record.sequence : Int) - 1).repr) = _
  rw [parseInt_repr]

theorem getHeaderForHash_blockHash (api : LedgerCalls) (record : LedgerRecord) :
    getHeaderForHash newDate api (stellarBlockToHeader newDate record).blockHash =
      getHeaderForHeight newDate api (some record.sequence) := by
  show getHeaderForHeight newDate api (parseInt (record.sequence : Int).repr) = _
  rw [parseInt_repr]

/-- **Following parent hashes goes down the ledgers one by one**, and ends at the first that Horizon does not have. -/
theorem ancestor_eq {api : LedgerCalls} (hnumbered : api.Numbered) : ∀ (k : Nat) {record : LedgerRecord},
    api.HoldsBelow record.sequence k →
    ancestor newDate api (k + 1) (stellarBlockToHeader newDate record) =
      getHeaderForHeight newDate api (some (record.sequence - (k + 1)))
  | 0, record, _ => by
    show (getHeaderForHash newDate api _ >>= Except.ok) = _
    rw [getHeaderForHash_parentHash]
    exact bind_pure (getHeaderForHeight newDate api (some (record.sequence - 1)))
  | k + 1, record, hbelow => by
    obtain ⟨parent, hparent⟩ := hbelow 0 (Nat.succ_pos k)
    have hparent : api.ledger (some (record.sequence - 1)) = .ok parent := by simpa using hparent
    have hsequence : (parent.sequence : Int) = record.sequence - 1 :=
      (Option.some.inj (hnumbered _ _ hparent)).symm
    have hrest : api.HoldsBelow parent.sequence k := by
      intro i hi
      obtain ⟨record', hrecord'⟩ := hbelow (i + 1) (Nat.succ_lt_succ hi)
      refine ⟨record', ?_⟩
      rw [hsequence, ← hrecord']
      congr 2
      omega
    have hstep : getHeaderForHash newDate api (stellarBlockToHeader newDate record).parentHash =
        .ok (stellarBlockToHeader newDate parent) := by
      rw [getHeaderForHash_parentHash, getHeaderForHeight, hparent]
      rfl
    rw [ancestor, hstep]
    show ancestor newDate api (k + 1) (stellarBlockToHeader newDate parent) = _
    rw [ancestor_eq hnumbered k hrest, hsequence]
    congr 2
    omega

theorem parentHash_eq_blockHash {record record' : LedgerRecord} :
    (stellarBlockToHeader newDate record').parentHash = (stellarBlockToHeader newDate record).blockHash ↔
      record'.sequence = record.sequence + 1 := by
  show ((record'.sequence : Int) - 1).repr = (record.sequence : Int).repr ↔ _
  rw [repr_inj]
  omega

end Headers

section Batches

variable {Date Filter : Type} {newDate : String → Date} {api : LedgerCalls} {lists : HorizonLists}
  {rpc : RpcFilters Filter} {log : EventLog} {s : BatchSystem Filter} {labels : List (BatchLabel Filter)}

/-- A block that a batch has resolved with, at one of its heights. -/
def FetchedAt (s : BatchSystem Filter) (height : Nat) (block : StellarBlock) : Prop :=
  ∃ batch ∈ s.batches, ∃ blocks, batch.outcome = some (.ok blocks) ∧
    ∃ i : Nat, batch.bufferBlocks[i]? = some height ∧ blocks[i]? = some block

structure SameHorizon (lists : HorizonLists) (api : LedgerCalls) : Prop where
  ledger : ∀ n : Nat, api.ledger (some n) = lists.ledger n
  numbered : api.Numbered

theorem BatchOk.exists_task {events : EventsSystem Filter} {batch : Batch} (h : BatchOk lists events batch)
    {blocks : List StellarBlock} (hblocks : batch.outcome = some (.ok blocks)) {i height : Nat} {block : StellarBlock}
    (hheight : batch.bufferBlocks[i]? = some height) (hblock : blocks[i]? = some block) :
    ∃ task ∈ batch.tasks, task.result = some (.ok block) ∧ task.sequence = height := by
  rw [← h.sequences, List.getElem?_map] at hheight
  obtain ⟨task, htask, hsequence⟩ := Option.map_eq_some_iff.1 hheight
  have hresults := congrArg (fun results => results[i]?) (h.outcome.fulfilled blocks hblocks)
  simp only [List.getElem?_map, htask, hblock, Option.map_some, Option.some.injEq] at hresults
  exact ⟨task, List.mem_of_getElem? htask, hresults, hsequence⟩

theorem TaskOk.ledger_of_result {events : EventsSystem Filter} {sequence : Nat} {pageLimit : ℕ+} {state : TaskState}
    {block : StellarBlock} (h : TaskOk lists events sequence state)
    (hresult : LedgerTask.result ⟨sequence, pageLimit, state⟩ = some (.ok block)) :
    lists.ledger sequence = .ok block.record := by
  cases h with
  | fetching => cases hresult
  | awaitingEvents => cases hresult
  | wrapped hledger hevents =>
    cases hresult
    rw [hledger, assembleBlock_eq]
  | rejected => cases hresult

/-- **A fetched block is of the ledger of its height**, whatever its events. -/
theorem ledger_of_fetchedAt (h : run (batchStep lists rpc) (BatchSystem.init Filter log) labels = some s)
    {height : Nat} {block : StellarBlock} (hfetched : FetchedAt s height block) :
    lists.ledger height = .ok block.record := by
  obtain ⟨batch, hbatch, blocks, hblocks, i, hheight, hblock⟩ := hfetched
  have hok := (batchesOk_of_run h).batches batch hbatch
  obtain ⟨task, htask, hresult, rfl⟩ := hok.exists_task hblocks hheight hblock
  exact (hok.tasks task htask).ledger_of_result hresult

theorem SameHorizon.ledger_of_fetchedAt (hsame : SameHorizon lists api)
    (h : run (batchStep lists rpc) (BatchSystem.init Filter log) labels = some s) {height : Nat} {block : StellarBlock}
    (hfetched : FetchedAt s height block) :
    api.ledger (some height) = .ok block.record ∧ block.record.sequence = height := by
  have hledger : api.ledger (some height) = .ok block.record :=
    (hsame.ledger height).trans (SubqlStellar.ledger_of_fetchedAt h hfetched)
  have hsequence : (height : Int) = block.record.sequence := Option.some.inj (hsame.numbered _ _ hledger)
  exact ⟨hledger, by omega⟩

theorem SameHorizon.ancestor_fetchedAt (hsame : SameHorizon lists api)
    (h : run (batchStep lists rpc) (BatchSystem.init Filter log) labels = some s) {height : Nat} {block : StellarBlock}
    (hfetched : FetchedAt s height block) {record : LedgerRecord} (k : Nat)
    (hheight : record.sequence = height + (k + 1)) (hbelow : api.HoldsBelow record.sequence k) :
    ancestor newDate api (k + 1) (stellarBlockToHeader newDate record) = .ok (getHeader newDate block) := by
  have hplace : (record.sequence : Int) - (k + 1) = height := by omega
  rw [ancestor_eq hsame.numbered k hbelow, hplace, getHeaderForHeight, (hsame.ledger_of_fetchedAt h hfetched).1]
  rfl

/-- **The headers of the fetched blocks are linked by their hashes**, across batches and interleavings: a block's hash
and its height are looked up as its own header, its parent's hash is the hash of the ledger before and of no other,
and parent hashes lead from it to every fetched block below, where Horizon has the ledgers in between. -/
theorem headers_linked (hsame : SameHorizon lists api)
    (h : run (batchStep lists rpc) (BatchSystem.init Filter log) labels = some s) {height : Nat} {block : StellarBlock}
    (hfetched : FetchedAt s height block) :
    getHeaderForHeight newDate api (some height) = .ok (getHeader newDate block) ∧
      getHeaderForHash newDate api (getHeader newDate block).blockHash = .ok (getHeader newDate block) ∧
      ∀ height' block', FetchedAt s height' block' →
        ((getHeader newDate block).parentHash = (getHeader newDate block').blockHash ↔ height = height' + 1) ∧
        ∀ k : Nat, height = height' + (k + 1) → api.HoldsBelow height k →
          ancestor newDate api (k + 1) (getHeader newDate block) = .ok (getHeader newDate block') := by
  obtain ⟨hledger, hsequence⟩ := hsame.ledger_of_fetchedAt h hfetched
  have hheight : getHeaderForHeight newDate api (some height) = .ok (getHeader newDate block) := by
    rw [getHeaderForHeight, hledger]
    rfl
  refine ⟨hheight, ?_, fun height' block' hfetched' => ⟨?_, fun k hk hbelow => ?_⟩⟩
  · rw [getHeader, getHeaderForHash_blockHash, hsequence]
    exact hheight
  · obtain ⟨-, hsequence'⟩ := hsame.ledger_of_fetchedAt h hfetched'
    rw [getHeader, getHeader, parentHash_eq_blockHash, hsequence, hsequence']
  · rw [← hsequence] at hk hbelow
    exact hsame.ancestor_fetchedAt h hfetched' k hk hbelow

/-- **The finalized header is that of the newest ledger, also where a batch has fetched it, and parent hashes lead from
it down to every block fetched below**; the best height is that of a ledger no batch can have fetched. -/
theorem finalized_header_above (hsame : SameHorizon lists api)
    (h : run (batchStep lists rpc) (BatchSystem.init Filter log) labels = some s) {newest : LedgerRecord}
    {older : List LedgerRecord} (hnewestFirst : api.newestFirst = .ok (newest :: older))
    (hnewest : ∀ n record, api.ledger n = .ok record → record.sequence ≤ newest.sequence) :
    getFinalizedHeader newDate api = .ok (stellarBlockToHeader newDate newest) ∧
      ∀ height block, FetchedAt s height block →
        (∀ best, getBestBlockHeight api = .ok best → height < best) ∧
        (api.ledger (some height) = .ok newest →
          stellarBlockToHeader newDate newest = getHeader newDate block) ∧
        ∀ k : Nat, newest.sequence = height + (k + 1) → api.HoldsBelow newest.sequence k →
          ancestor newDate api (k + 1) (stellarBlockToHeader newDate newest) = .ok (getHeader newDate block) := by
  have hblock : getFinalizedBlock api = .ok (some newest) := by
    rw [getFinalizedBlock, hnewestFirst]
    rfl
  refine ⟨?_, fun height block hfetched => ⟨fun best hbest => ?_, fun hsole => ?_, fun k hk hbelow => ?_⟩⟩
  · rw [getFinalizedHeader, hblock]
    rfl
  · rw [getBestBlockHeight, getFinalizedBlockHeight, hblock] at hbest
    obtain rfl : newest.sequence + 1 = best := Except.ok.inj hbest
    obtain ⟨hledger, hsequence⟩ := hsame.ledger_of_fetchedAt h hfetched
    have hle := hnewest _ _ hledger
    omega
  · -- both calls to Horizon give the ledger's record
    obtain rfl : newest = block.record :=
      Except.ok.inj (hsole.symm.trans (hsame.ledger_of_fetchedAt h hfetched).1)
    rfl
  · exact hsame.ancestor_fetchedAt h hfetched k hk hbelow

end Batches

/-! ## Ledgers 6 and 7 in two batches -/

def finalizedCalls : LedgerCalls where
  ledger
    | some (.ofNat n) => finalizedLists.ledger n
    | _               => .error ⟨"Not Found"⟩
  newestFirst := .ok [⟨7, "2024-01-01T00:00:00Z"⟩, ⟨6, "2024-01-01T00:00:00Z"⟩]

def finalizedLabels : List (BatchLabel Unit) :=
  [.fetchBlocks sampleLimit [6], .fetchBlocks oneRecord [7]] ++ horizonLabels 1 0 ++ horizonLabels 0 0 ++
    [.events (.page 0 sampleLimit), .events (.page 1 sampleLimit), .events (.page 0 sampleLimit), .events (.finish 0),
      .events (.finish 1), .task 0 0 .resume, .task 1 0 .resume]

theorem finalizedCalls_eq_ok {n : Option Int} {record : LedgerRecord} (h : finalizedCalls.ledger n = .ok record) :
    n = some (record.sequence : Int) ∧ record.sequence ≤ 7 := by
  simp only [finalizedCalls, finalizedLists, invokingLists] at h
  split at h
  · split at h
    · cases h
      exact ⟨rfl, by assumption⟩
    · cases h
  · cases h

theorem finalizedCalls_same : SameHorizon finalizedLists finalizedCalls :=
  ⟨fun _ => rfl, fun _ _ h => (finalizedCalls_eq_ok h).1⟩

theorem batchRun_finalized : run (batchStep finalizedLists unfiltered) (BatchSystem.init Unit invokingLog)
    finalizedLabels = some (batchRun finalizedLists finalizedLabels) := rfl

theorem fetchedAt_seven : FetchedAt (batchRun finalizedLists finalizedLabels) 7 invokingRecords.block :=
  ⟨_, List.mem_of_getElem? (i := 1) rfl, _, rfl, 0, rfl, rfl⟩

theorem exists_fetchedAt_six : ∃ block, FetchedAt (batchRun finalizedLists finalizedLabels) 6 block :=
  ⟨_, _, List.mem_of_getElem? (i := 0) rfl, _, rfl, 0, rfl, rfl⟩

theorem headers_linked_seven : ∃ block, FetchedAt (batchRun finalizedLists finalizedLabels) 6 block ∧
    getHeaderForHash id finalizedCalls (getHeader id invokingRecords.block).blockHash =
      .ok (getHeader id invokingRecords.block) ∧
    (getHeader id invokingRecords.block).parentHash = (getHeader id block).blockHash := by
  obtain ⟨block, hblock⟩ := exists_fetchedAt_six
  have hlinked := @headers_linked _ _ id _ _ _ _ _ _ finalizedCalls_same batchRun_finalized _ _ fetchedAt_seven
  exact ⟨block, hblock, hlinked.2.1, (hlinked.2.2 6 block hblock).1.2 rfl⟩

theorem finalized_header_above_six : ∃ block, FetchedAt (batchRun finalizedLists finalizedLabels) 6 block ∧
    stellarBlockToHeader id ⟨7, "2024-01-01T00:00:00Z"⟩ = getHeader id invokingRecords.block ∧
    getFinalizedHeader id finalizedCalls = .ok (stellarBlockToHeader id ⟨7, "2024-01-01T00:00:00Z"⟩) ∧
    ancestor id finalizedCalls 1 (stellarBlockToHeader id ⟨7, "2024-01-01T00:00:00Z"⟩) =
      .ok (getHeader id block) := by
  obtain ⟨block, hblock⟩ := exists_fetchedAt_six
  have habove := @finalized_header_above _ _ id _ _ _ _ _ _ finalizedCalls_same batchRun_finalized _ _ rfl
    (fun _ _ h => (finalizedCalls_eq_ok h).2)
  exact ⟨block, hblock, (habove.2 7 _ fetchedAt_seven).2.1 rfl, habove.1,
    (habove.2 6 block hblock).2.2 0 rfl (fun _ hi => absurd hi (Nat.not_lt_zero _))⟩

end SubqlStellar
