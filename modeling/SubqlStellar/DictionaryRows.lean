import SubqlStellar.BlockFilters
import SubqlStellar.StellarDictionary
/-!
# DictionaryRows — what the dictionary holds of an item, and what a query selects of it

The dictionary has a row for each item: its accounts, its type and its contract's address in lower case, and its first
four topics as native values.  A query entry is written from the handler's filter in the same form, so the row of an
item that the filter accepts satisfies all conditions of the entry (`accepted_satisfies`).
-/
namespace SubqlStellar

/-- A row: the value of a column, where it has one. -/
abbrev DictionaryRow := String → Option NativeValue

def satisfies (row : DictionaryRow) (condition : DictionaryQueryCondition) : Bool :=
  match condition.value, row condition.field with
  | .text value, some (.text column)   => decide (condition.matcher = "equalTo" ∧ column = value)
  | .texts values, some (.text column) => decide (condition.matcher = "in" ∧ column ∈ values)
  | _, _                               => false

section Rows

variable (env : FilterEnvironment)

def lowerCased (value : String) : Option NativeValue := some (.text (env.toLowerCase value))

def transactionRow (tx : StellarTransaction) : DictionaryRow := fun field =>
  if field = "account" then lowerCased env tx.record.sourceAccount else none

def operationRow (op : StellarOperation) : DictionaryRow := fun field =>
  if field = "type" then lowerCased env op.record.type
  else if field = "sourceAccount" then lowerCased env op.record.sourceAccount
  else none

def effectRow (effect : StellarEffect) : DictionaryRow := fun field =>
  if field = "type" then lowerCased env effect.record.type
  else if field = "account" then lowerCased env effect.record.account
  else none

def eventRow (event : SorobanEvent) : DictionaryRow := fun field =>
  if field = "address" then event.record.contractId.bind (lowerCased env)
  else ((List.range 4).find? (fun i => decide (field = s!"topics{i}"))).bind
    (fun i => (event.record.topic[i]?).map env.scValToNative)

/-- The table that an item is in, and its row there. -/
def dictionaryRow : HandlerInput → Option (DictionaryEntity × DictionaryRow)
  | .transaction tx        => some (.transactions, transactionRow env tx)
  | .sorobanTransaction tx => some (.transactions, transactionRow env tx)
  | .operation op          => some (.operations, operationRow env op)
  | .effects effect        => some (.effects, effectRow env effect)
  | .event event           => some (.events, eventRow env event)
  | .block _               => none

variable {env}

theorem satisfies_equalTo {row : DictionaryRow} {change : String → String} {field : String} {expected : Option String}
    (h : ∀ value, truthy expected = some value → row field = some (.text (change value))) :
    ∀ condition ∈ equalTo change field expected, satisfies row condition = true := by
  intro condition hcondition
  unfold equalTo at hcondition
  split at hcondition
  · rename_i value hvalue
    rw [List.mem_singleton.1 hcondition]
    simp [satisfies, h value hvalue]
  · cases hcondition

theorem satisfies_field (row : DictionaryRow) (field : String) {actual : String} {expected : Option String}
    (haccepts : fieldAccepts expected (some actual) = true) (hrow : row field = lowerCased env actual) :
    ∀ condition ∈ equalTo env.toLowerCase field expected, satisfies row condition = true := by
  refine satisfies_equalTo (fun value hvalue => ?_)
  obtain rfl : actual = value := Option.some.inj (eq_of_fieldAccepts haccepts hvalue)
  exact hrow

theorem satisfies_transactionEntry {tx : StellarTransaction} {filter : StellarTransactionFilter}
    (address : Option String) (h : filterTransactionProcessor tx (some filter) address = true) :
    ∀ condition ∈ (transactionFilterToQueryEntry env.toLowerCase filter).conditions,
      satisfies (transactionRow env tx) condition = true :=
  satisfies_field (transactionRow env tx) "account" h rfl

theorem satisfies_operationEntry {op : StellarOperation} {filter : StellarOperationFilter} (address : Option String)
    (h : filterOperationProcessor op (some filter) address = true) :
    ∀ condition ∈ (operationFilterToQueryEntry env.toLowerCase filter).conditions,
      satisfies (operationRow env op) condition = true := by
  obtain ⟨haccount, htype⟩ := Bool.and_eq_true_iff.1 h
  intro condition hcondition
  rcases List.mem_append.1 hcondition with hcondition | hcondition
  · exact satisfies_field (operationRow env op) "type" htype rfl condition hcondition
  · exact satisfies_field (operationRow env op) "sourceAccount" haccount rfl condition hcondition

theorem satisfies_effectEntry {effect : StellarEffect} {filter : StellarEffectFilter} (address : Option String)
    (h : filterEffectProcessor effect (some filter) address = true) :
    ∀ condition ∈ (effectFilterToQueryEntry env.toLowerCase filter).conditions,
      satisfies (effectRow env effect) condition = true := by
  obtain ⟨haccount, htype⟩ := Bool.and_eq_true_iff.1 h
  intro condition hcondition
  rcases List.mem_append.1 hcondition with hcondition | hcondition
  · exact satisfies_field (effectRow env effect) "type" htype rfl condition hcondition
  · exact satisfies_field (effectRow env effect) "account" haccount rfl condition hcondition

theorem eventRow_topics (event : SorobanEvent) {i : Nat} (hi : i < 4) :
    eventRow env event s!"topics{i}" = (event.record.topic[i]?).map env.scValToNative := by
  have hfind : ∀ i < 4, s!"topics{i}" ≠ "address" ∧
      (List.range 4).find? (fun j => decide (s!"topics{i}" = s!"topics{j}")) = some i := by decide
  obtain ⟨hne, hsome⟩ := hfind i hi
  unfold eventRow
  rw [if_neg hne, hsome, Option.bind_some]

theorem satisfies_topicConditions {event : SorobanEvent} {topics : List String}
    (h : topicsAccept env topics event.record.topic = true) :
    ∀ condition ∈ topicConditions topics, satisfies (eventRow env event) condition = true := by
  intro condition hcondition
  obtain ⟨⟨topic, i⟩, hmem, hcondition⟩ := List.mem_flatMap.1 hcondition
  refine satisfies_equalTo (fun value hvalue => ?_) condition hcondition
  obtain ⟨hne, rfl⟩ : topic ≠ "" ∧ topic = value := by simpa [truthy, Option.filter] using hvalue
  have hi : i < 4 := by
    have hlt := List.snd_lt_of_mem_zipIdx hmem
    rw [List.length_take] at hlt
    omega
  rw [eventRow_topics event hi]
  exact topic_of_topicsAccept h hmem hne

theorem satisfies_eventEntry {event : SorobanEvent} {filter : SorobanEventFilter}
    {options : Option SubqlStellarProcessorOptions}
    (h : filterEventProcessor env event (some filter) (options.bind SubqlStellarProcessorOptions.address) = true)
    (queryAddressLimit : Nat) :
    ∀ condition ∈ (eventFilterToQueryEntry env.toLowerCase queryAddressLimit filter (.one options)).conditions,
      satisfies (eventRow env event) condition = true := by
  simp only [filterEventProcessor, Bool.and_eq_true] at h
  obtain ⟨haddress, -, htopics⟩ := h
  intro condition hcondition
  rcases List.mem_append.1 hcondition with hcondition | hcondition
  · refine satisfies_equalTo (fun address hvalue => ?_) condition hcondition
    rw [hvalue] at haddress
    obtain ⟨contractId, hcontract, hlower⟩ := Option.map_eq_some_iff.1 (eq_of_stringNormalizedEq haddress)
    unfold eventRow
    rw [if_pos rfl, hcontract, Option.bind_some, lowerCased, hlower]
  · cases hfilter : filter.topics with
    | none =>
      rw [hfilter] at hcondition
      cases hcondition
    | some topics =>
      rw [hfilter] at hcondition htopics
      exact satisfies_topicConditions htopics condition hcondition

/-- **The row of an item that a handler's filter accepts satisfies every condition of the entry that is pushed for the
handler.** -/
theorem accepted_satisfies (ds : SubqlDatasource) (handler : SubqlHandler) (queryAddressLimit : Nat)
    {entries : List DictionaryQueryEntry}
    (hentries : handlerEntries env.toLowerCase queryAddressLimit ds handler = some entries) {input : HandlerInput}
    (haccepts : filterTypeMap env ds handler input = true) :
    ∀ entry ∈ entries, ∃ row, dictionaryRow env input = some (entry.entity, row) ∧
      ∀ condition ∈ entry.conditions, satisfies row condition = true := by
  intro entry hentry
  have htranslated : translated env.toLowerCase queryAddressLimit ds handler = some entry :=
    translated_of_pushed hentries hentry
  match handler, input, htranslated, haccepts with
  | .transaction (some filter), .transaction tx, rfl, haccepts =>
    exact ⟨_, rfl, satisfies_transactionEntry (filterTypeMap.address ds) haccepts⟩
  | .operation (some filter), .operation op, rfl, haccepts =>
    exact ⟨_, rfl, satisfies_operationEntry (filterTypeMap.address ds) haccepts⟩
  | .effects (some filter), .effects effect, rfl, haccepts =>
    exact ⟨_, rfl, satisfies_effectEntry (filterTypeMap.address ds) haccepts⟩
  | .event (some filter), .event event, rfl, haccepts => exact ⟨_, rfl, satisfies_eventEntry haccepts queryAddressLimit⟩

end Rows

/-! ## A transfer -/

def transferFilters : FilterEnvironment where
  toLowerCase text := String.ofList (text.toList.map Char.toLower)
  scValToNative value := if value.xdr = "AAAADwAAAAh0cmFuc2Zlcg==" then .text "transfer" else .other value.xdr
  filterBlockTimestamp _ _ := true

def transferDatasource : SubqlDatasource where
  kind := .runtime
  options := some ⟨some "CAS3"⟩
  handlers := [.event (some ⟨none, some ["transfer", ""]⟩)]

def transferEvent : SorobanEvent where
  record := ⟨"0030064775168-0000000001", 7, ⟨"a1", by decide⟩, 0, some "CAS3", [⟨"AAAADwAAAAh0cmFuc2Zlcg=="⟩]⟩
  ledger := none
  transaction := none
  operation := none

theorem accepted_satisfies_transfer :
    satisfies (eventRow transferFilters transferEvent) ⟨"address", .text "cas3", "equalTo"⟩ = true ∧
      satisfies (eventRow transferFilters transferEvent) ⟨"topics0", .text "transfer", "equalTo"⟩ = true := by
  have hentries : handlerEntries transferFilters.toLowerCase 100 transferDatasource
      (.event (some ⟨none, some ["transfer", ""]⟩)) =
      some [⟨.events, [⟨"address", .text "cas3", "equalTo"⟩, ⟨"topics0", .text "transfer", "equalTo"⟩]⟩] := by decide
  have haccepts : filterTypeMap transferFilters transferDatasource (.event (some ⟨none, some ["transfer", ""]⟩))
      (.event transferEvent) = true := by decide
  obtain ⟨row, hrow, hsatisfies⟩ :=
    accepted_satisfies transferDatasource _ 100 hentries haccepts _ (List.mem_singleton_self _)
  cases hrow
  exact ⟨hsatisfies _ List.mem_cons_self, hsatisfies _ (List.mem_cons_of_mem _ List.mem_cons_self)⟩

end SubqlStellar
