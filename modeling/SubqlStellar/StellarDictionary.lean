import Mathlib.Data.List.Sort
import SubqlStellar.JsonText
import SubqlStellar.KeyedLists
import SubqlStellar.Loops
import SubqlStellar.Project
/-!
# StellarDictionary — the dictionary queries of a project's handlers

`buildDictionaryQueryEntries` turns the handlers' filters into query entries, or into none where a handler cannot use
the dictionary.  A handler of a kind that its `switch` does not name adds nothing and stops nothing, so the other
handlers' entries may leave it out (`dictionary_covers_iff`).
-/
namespace SubqlStellar

inductive ConditionValue
  | text (value : String)
  | texts (values : List String)
deriving DecidableEq, Repr

structure DictionaryQueryCondition where
  field : String
  value : ConditionValue
  matcher : String
deriving DecidableEq, Repr

inductive DictionaryEntity
  | transactions
  | operations
  | effects
  | events
deriving DecidableEq, Repr

def DictionaryEntity.text : DictionaryEntity → String
  | .transactions => "transactions"
  | .operations   => "operations"
  | .effects      => "effects"
  | .events       => "events"

structure DictionaryQueryEntry where
  entity : DictionaryEntity
  conditions : List DictionaryQueryCondition
deriving DecidableEq, Repr

/-- What `eventFilterToQueryEntry` is given for a datasource: its options, or those of several. -/
inductive DsOptions
  | one (options : Option SubqlStellarProcessorOptions)
  | grouped (options : List SubqlStellarProcessorOptions)

def equalTo (change : String → String) (field : String) (value : Option String) : List DictionaryQueryCondition :=
  match truthy value with
  | some value => [⟨field, .text (change value), "equalTo"⟩]
  | none       => []

section Entries

variable (toLowerCase : String → String) (queryAddressLimit : Nat)

def transactionFilterToQueryEntry (filter : StellarTransactionFilter) : DictionaryQueryEntry where
  entity := .transactions
  conditions := equalTo toLowerCase "account" filter.account

def operationFilterToQueryEntry (filter : StellarOperationFilter) : DictionaryQueryEntry where
  entity := .operations
  conditions := equalTo toLowerCase "type" filter.type ++ equalTo toLowerCase "sourceAccount" filter.sourceAccount

def effectFilterToQueryEntry (filter : StellarEffectFilter) : DictionaryQueryEntry where
  entity := .effects
  conditions := equalTo toLowerCase "type" filter.type ++ equalTo toLowerCase "account" filter.account

def addressConditions : DsOptions → List DictionaryQueryCondition
  | .grouped options =>
    let addresses := options.filterMap (fun option => truthy option.address)
    if addresses.length ≠ 0 ∧ addresses.length ≤ queryAddressLimit then [⟨"address", .texts addresses, "in"⟩] else []
  | .one options => equalTo toLowerCase "address" (options.bind SubqlStellarProcessorOptions.address)

def topicConditions (topics : List String) : List DictionaryQueryCondition :=
  (topics.take 4).zipIdx.flatMap (fun (topic, i) => equalTo id s!"topics{i}" (some topic))

def eventFilterToQueryEntry (filter : SorobanEventFilter) (dsOptions : DsOptions) : DictionaryQueryEntry where
  entity := .events
  conditions := addressConditions toLowerCase queryAddressLimit dsOptions ++
    (filter.topics.map topicConditions).getD []

/-- What a handler pushes; `none` is the early `return []`. -/
def handlerEntries (ds : SubqlDatasource) : SubqlHandler → Option (List DictionaryQueryEntry)
  | .block _ => none
  | .transaction none | .sorobanTransaction none | .operation none | .effects none | .event none | .custom _ none => none
  | .transaction (some filter) =>
    if truthy filter.account ≠ none then some [transactionFilterToQueryEntry toLowerCase filter] else none
  | .operation (some filter) =>
    if truthy filter.sourceAccount ≠ none ∨ truthy filter.type ≠ none then
      some [operationFilterToQueryEntry toLowerCase filter]
    else none
  | .effects (some filter) =>
    if truthy filter.account ≠ none ∨ truthy filter.type ≠ none then some [effectFilterToQueryEntry toLowerCase filter]
    else none
  | .event (some filter) =>
    -- an empty array of topics is truthy
    if truthy (ds.options.bind SubqlStellarProcessorOptions.address) ≠ none ∨ filter.topics ≠ none then
      some [eventFilterToQueryEntry toLowerCase queryAddressLimit filter (.one ds.options)]
    else none
  -- `default:`
  | .sorobanTransaction (some _) | .custom _ (some _) => some []

def ConditionValue.json : ConditionValue → List Char
  | .text value   => Json.string value
  | .texts values => Json.array Json.string values

def DictionaryQueryCondition.json (condition : DictionaryQueryCondition) : List Char :=
  "\x7b\"field\":".toList ++ (Json.string condition.field ++ (",\"value\":".toList ++ (condition.value.json ++
    (",\"matcher\":".toList ++ (Json.string condition.matcher ++ "\x7d".toList)))))

def sortByField (conditions : List DictionaryQueryCondition) : List DictionaryQueryCondition :=
  conditions.insertionSort (fun c c' => c.field ≤ c'.field)

def entryKey (item : DictionaryQueryEntry) : String :=
  item.entity.text ++ "|" ++ String.ofList (Json.array DictionaryQueryCondition.json (sortByField item.conditions))

def uniqBy {α κ : Type} [DecidableEq κ] (l : List α) (key : α → κ) : List α := Keyed.mergeOn key [] l

def pushEntries (dataSources : List SubqlDatasource) : Option (List DictionaryQueryEntry) :=
  dataSources.foldlM (fun queryEntries ds =>
    ds.handlers.foldlM (fun queryEntries handler =>
      (handlerEntries toLowerCase queryAddressLimit ds handler).map (fun pushed => queryEntries ++ pushed))
      queryEntries) []

def buildDictionaryQueryEntries (dataSources : List SubqlDatasource) : List DictionaryQueryEntry :=
  match pushEntries toLowerCase queryAddressLimit dataSources with
  | some queryEntries => uniqBy queryEntries entryKey
  | none              => []

/-- Among the entries is one built from the handler, up to the order of conditions. -/
def Represented (entries : List DictionaryQueryEntry) (ds : SubqlDatasource) (handler : SubqlHandler) : Prop :=
  ∃ own, handlerEntries toLowerCase queryAddressLimit ds handler = some [own] ∧
    ∃ entry ∈ entries, entry.entity = own.entity ∧ entry.conditions.Perm own.conditions

def Covers (dataSources : List SubqlDatasource) : Prop :=
  buildDictionaryQueryEntries toLowerCase queryAddressLimit dataSources ≠ [] →
    ∀ ds ∈ dataSources, ∀ handler ∈ ds.handlers,
      Represented toLowerCase queryAddressLimit
        (buildDictionaryQueryEntries toLowerCase queryAddressLimit dataSources) ds handler

end Entries

def Unusable (ds : SubqlDatasource) : SubqlHandler → Prop
  | .block _ => True
  | .transaction none | .sorobanTransaction none | .operation none | .effects none | .event none | .custom _ none => True
  | .transaction (some filter) => truthy filter.account = none
  | .operation (some filter) => truthy filter.sourceAccount = none ∧ truthy filter.type = none
  | .effects (some filter) => truthy filter.account = none ∧ truthy filter.type = none
  | .event (some filter) =>
    truthy (ds.options.bind SubqlStellarProcessorOptions.address) = none ∧ filter.topics = none
  | .sorobanTransaction (some _) | .custom _ (some _) => False

/-- A kind that the `switch` does not name. -/
def Unnamed : SubqlHandler → Prop
  | .sorobanTransaction _ | .custom _ _ => True
  | _ => False

def translated (toLowerCase : String → String) (queryAddressLimit : Nat) (ds : SubqlDatasource) :
    SubqlHandler → Option DictionaryQueryEntry
  | .transaction (some filter) => some (transactionFilterToQueryEntry toLowerCase filter)
  | .operation (some filter)   => some (operationFilterToQueryEntry toLowerCase filter)
  | .effects (some filter)     => some (effectFilterToQueryEntry toLowerCase filter)
  | .event (some filter)       => some (eventFilterToQueryEntry toLowerCase queryAddressLimit filter (.one ds.options))
  | _                          => none

section Json

open Codes (PrefixFree StartsOff)

theorem conditionValue_prefixFree : PrefixFree ConditionValue.json := by
  have hstring : StartsOff Json.string ']' := fun s => ⟨'"', _, rfl, by decide⟩
  have harray : PrefixFree (Json.array Json.string) := Json.array_prefixFree Json.string_prefixFree hstring
  have hsum : PrefixFree (fun z : String ⊕ List String => Sum.elim Json.string (Json.array Json.string) z) :=
    Json.string_prefixFree.sum harray (fun x y r s h => by simp [Json.string, Json.array] at h)
  rintro (v | vs) (v' | vs') r s h
  · obtain ⟨heq, hrs⟩ := hsum (Sum.inl v) (Sum.inl v') r s h
    cases heq
    exact ⟨rfl, hrs⟩
  · cases (hsum (Sum.inl v) (Sum.inr vs') r s h).1
  · cases (hsum (Sum.inr vs) (Sum.inl v') r s h).1
  · obtain ⟨heq, hrs⟩ := hsum (Sum.inr vs) (Sum.inr vs') r s h
    cases heq
    exact ⟨rfl, hrs⟩

theorem fields_injective :
    Function.Injective (fun condition : DictionaryQueryCondition =>
      (condition.field, condition.value, condition.matcher)) := by
  rintro ⟨field, value, matcher⟩ ⟨field', value', matcher'⟩ h
  simp only [Prod.mk.injEq] at h
  obtain ⟨rfl, rfl, rfl⟩ := h
  rfl

theorem object_prefixFree (a b c d : List Char) : PrefixFree (fun p : String × ConditionValue × String =>
    a ++ (Json.string p.1 ++ (b ++ (p.2.1.json ++ (c ++ (Json.string p.2.2 ++ d)))))) := by
  have hmatcher := (Json.string_prefixFree.append_right d).append_left c
  have hvalue := (conditionValue_prefixFree.pair hmatcher).append_left b
  exact (Json.string_prefixFree.pair hvalue).append_left a

theorem condition_prefixFree : PrefixFree DictionaryQueryCondition.json := by
  intro x y r s h
  unfold DictionaryQueryCondition.json at h
  obtain ⟨hxy, hrs⟩ := object_prefixFree _ _ _ _ (x.field, x.value, x.matcher) (y.field, y.value, y.matcher) r s h
  exact ⟨fields_injective hxy, hrs⟩

theorem entity_prefixFree : PrefixFree (fun entity : DictionaryEntity => entity.text.toList ++ ['|']) := by
  rintro (_ | _ | _ | _) (_ | _ | _ | _) r s h <;> simp [DictionaryEntity.text] at h ⊢ <;> exact h

/-- **Two entries have one key only where they differ in the order of conditions.** -/
theorem perm_of_entryKey {item item' : DictionaryQueryEntry} (h : entryKey item = entryKey item') :
    item.entity = item'.entity ∧ item.conditions.Perm item'.conditions := by
  have hlist := congrArg String.toList h
  simp only [entryKey, String.toList_append, String.toList_ofList] at hlist
  obtain ⟨hentity, hjson⟩ := entity_prefixFree _ _ _ _ hlist
  have hstarts : StartsOff DictionaryQueryCondition.json ']' := fun c => ⟨_, _, rfl, by decide⟩
  have hsorted := (Json.array_prefixFree condition_prefixFree hstarts).injective hjson
  refine ⟨hentity, ?_⟩
  have hsort : ∀ l : List DictionaryQueryCondition, (sortByField l).Perm l := fun l => List.perm_insertionSort _ l
  exact (hsort item.conditions).symm.trans (hsorted ▸ hsort item'.conditions)

end Json

section Covers

variable {toLowerCase : String → String} {queryAddressLimit : Nat}

theorem queried_or_stops {unusable unnamed usable : Prop} [Decidable usable] (own : DictionaryQueryEntry)
    (husable : usable ↔ ¬ unusable) (hnamed : ¬ unnamed) :
    (unusable ∧ (if usable then some [own] else none) = none) ∨
    (¬ unusable ∧ (if usable then some [own] else none) = some (some own).toList ∧ (some own = none ↔ unnamed)) := by
  by_cases h : usable
  · exact Or.inr ⟨husable.1 h, if_pos h, iff_of_false (Option.some_ne_none own) hnamed⟩
  · have hunusable : unusable := Classical.byContradiction (fun hn => h (husable.2 hn))
    exact Or.inl ⟨hunusable, if_neg h⟩

/-- **What the `switch` does with a handler**: it stops the loops, or pushes its translation. -/
theorem handlerEntries_cases (toLowerCase : String → String) (queryAddressLimit : Nat) (ds : SubqlDatasource) :
    ∀ handler : SubqlHandler,
    (Unusable ds handler ∧ handlerEntries toLowerCase queryAddressLimit ds handler = none) ∨
    (¬ Unusable ds handler ∧
      handlerEntries toLowerCase queryAddressLimit ds handler =
        some (translated toLowerCase queryAddressLimit ds handler).toList ∧
      (translated toLowerCase queryAddressLimit ds handler = none ↔ Unnamed handler))
  | .block _ => Or.inl ⟨trivial, rfl⟩
  | .transaction none => Or.inl ⟨trivial, rfl⟩
  | .sorobanTransaction none => Or.inl ⟨trivial, rfl⟩
  | .operation none => Or.inl ⟨trivial, rfl⟩
  | .effects none => Or.inl ⟨trivial, rfl⟩
  | .event none => Or.inl ⟨trivial, rfl⟩
  | .custom _ none => Or.inl ⟨trivial, rfl⟩
  | .sorobanTransaction (some _) => Or.inr ⟨id, rfl, iff_of_true rfl trivial⟩
  | .custom _ (some _) => Or.inr ⟨id, rfl, iff_of_true rfl trivial⟩
  | .transaction (some _) => queried_or_stops _ Iff.rfl id
  | .operation (some _) => queried_or_stops _ not_and_or.symm id
  | .effects (some _) => queried_or_stops _ not_and_or.symm id
  | .event (some _) => queried_or_stops _ not_and_or.symm id

theorem handlerEntries_eq_none {ds : SubqlDatasource} {handler : SubqlHandler} :
    handlerEntries toLowerCase queryAddressLimit ds handler = none ↔ Unusable ds handler := by
  rcases handlerEntries_cases toLowerCase queryAddressLimit ds handler with ⟨h, he⟩ | ⟨h, he, -⟩ <;> simp [h, he]

theorem handlerEntries_of_usable (toLowerCase : String → String) (queryAddressLimit : Nat) {ds : SubqlDatasource}
    {handler : SubqlHandler} (h : ¬ Unusable ds handler) :
    handlerEntries toLowerCase queryAddressLimit ds handler =
        some (translated toLowerCase queryAddressLimit ds handler).toList ∧
      (translated toLowerCase queryAddressLimit ds handler = none ↔ Unnamed handler) :=
  (handlerEntries_cases toLowerCase queryAddressLimit ds handler).elim (fun hstops => absurd hstops.1 h) And.right

theorem translated_of_pushed {ds : SubqlDatasource} {handler : SubqlHandler} {entries : List DictionaryQueryEntry}
    (h : handlerEntries toLowerCase queryAddressLimit ds handler = some entries) {entry : DictionaryQueryEntry}
    (hentry : entry ∈ entries) : translated toLowerCase queryAddressLimit ds handler = some entry := by
  rcases handlerEntries_cases toLowerCase queryAddressLimit ds handler with ⟨-, hentries⟩ | ⟨-, hentries, -⟩
  · cases hentries.symm.trans h
  · obtain rfl := Option.some.inj (hentries.symm.trans h)
    exact Option.mem_toList.1 hentry

def handlersOf (dataSources : List SubqlDatasource) : List (SubqlDatasource × SubqlHandler) :=
  dataSources.flatMap (fun ds => ds.handlers.map (fun handler => (ds, handler)))

theorem mem_handlersOf {dataSources : List SubqlDatasource} {ds : SubqlDatasource} {handler : SubqlHandler} :
    (ds, handler) ∈ handlersOf dataSources ↔ ds ∈ dataSources ∧ handler ∈ ds.handlers := by
  simp only [handlersOf, List.mem_flatMap, List.mem_map, Prod.mk.injEq]
  constructor
  · rintro ⟨ds', hds, handler', hhandler, rfl, rfl⟩
    exact ⟨hds, hhandler⟩
  · rintro ⟨hds, hhandler⟩
    exact ⟨ds, hds, handler, hhandler, rfl, rfl⟩

theorem pushEntries_eq_some {dataSources : List SubqlDatasource} {queryEntries : List DictionaryQueryEntry} :
    pushEntries toLowerCase queryAddressLimit dataSources = some queryEntries ↔
      (∀ p ∈ handlersOf dataSources, handlerEntries toLowerCase queryAddressLimit p.1 p.2 ≠ none) ∧
        queryEntries = (handlersOf dataSources).flatMap (fun p =>
          (handlerEntries toLowerCase queryAddressLimit p.1 p.2).getD []) := by
  have hloops : pushEntries toLowerCase queryAddressLimit dataSources =
      (handlersOf dataSources).foldlM (fun queryEntries p =>
        (handlerEntries toLowerCase queryAddressLimit p.1 p.2).map (fun pushed => queryEntries ++ pushed)) [] := by
    unfold handlersOf pushEntries
    rw [Loops.foldlM_flatMap]
    simp only [List.foldlM_map]
  rw [hloops, Loops.foldlM_push, List.nil_append]

theorem buildDictionaryQueryEntries_of_usable {dataSources : List SubqlDatasource}
    (h : ∀ p ∈ handlersOf dataSources, ¬ Unusable p.1 p.2) :
    buildDictionaryQueryEntries toLowerCase queryAddressLimit dataSources =
      uniqBy ((handlersOf dataSources).filterMap
        (fun p => translated toLowerCase queryAddressLimit p.1 p.2)) entryKey := by
  have hpush : pushEntries toLowerCase queryAddressLimit dataSources = some _ :=
    pushEntries_eq_some.2 ⟨fun p hp hnone => h p hp (handlerEntries_eq_none.1 hnone), rfl⟩
  unfold buildDictionaryQueryEntries
  rw [hpush, List.filterMap_eq_flatMap_toList]
  show uniqBy _ entryKey = _
  congr 1
  refine List.flatMap_congr (fun p hp => ?_)
  rw [(handlerEntries_of_usable toLowerCase queryAddressLimit (h p hp)).1, Option.getD_some]

theorem buildDictionaryQueryEntries_of_unusable {dataSources : List SubqlDatasource}
    {p : SubqlDatasource × SubqlHandler} (hp : p ∈ handlersOf dataSources) (h : Unusable p.1 p.2) :
    buildDictionaryQueryEntries toLowerCase queryAddressLimit dataSources = [] := by
  unfold buildDictionaryQueryEntries
  cases hpush : pushEntries toLowerCase queryAddressLimit dataSources with
  | none => rfl
  | some queryEntries =>
    exact absurd (handlerEntries_eq_none.2 h) ((pushEntries_eq_some.1 hpush).1 p hp)

theorem exists_mem_uniqBy {queryEntries : List DictionaryQueryEntry} {own : DictionaryQueryEntry}
    (h : own ∈ queryEntries) : ∃ entry ∈ uniqBy queryEntries entryKey,
      entry.entity = own.entity ∧ entry.conditions.Perm own.conditions := by
  obtain ⟨entry, hentry, hkey⟩ : ∃ entry ∈ Keyed.mergeOn entryKey [] queryEntries, entryKey entry = entryKey own :=
    Keyed.exists_mem_mergeOn entryKey (Or.inr h)
  exact ⟨entry, hentry, perm_of_entryKey hkey⟩

theorem represented_of_named {dataSources : List SubqlDatasource}
    (husable : ∀ p ∈ handlersOf dataSources, ¬ Unusable p.1 p.2) {ds : SubqlDatasource} {handler : SubqlHandler}
    (hp : (ds, handler) ∈ handlersOf dataSources) (hnamed : ¬ Unnamed handler) :
    Represented toLowerCase queryAddressLimit
      (buildDictionaryQueryEntries toLowerCase queryAddressLimit dataSources) ds handler := by
  obtain ⟨hentries, hnone⟩ := handlerEntries_of_usable toLowerCase queryAddressLimit (husable _ hp)
  obtain ⟨own, hown⟩ := Option.ne_none_iff_exists'.1 (fun h => hnamed (hnone.1 h))
  refine ⟨own, by rw [hentries, hown, Option.toList_some], ?_⟩
  rw [buildDictionaryQueryEntries_of_usable husable]
  exact exists_mem_uniqBy (List.mem_filterMap.2 ⟨(ds, handler), hp, hown⟩)

theorem not_represented_of_unnamed {entries : List DictionaryQueryEntry} {ds : SubqlDatasource}
    {handler : SubqlHandler} (h : Unnamed handler) :
    ¬ Represented toLowerCase queryAddressLimit entries ds handler := by
  rintro ⟨own, hown, -⟩
  rcases handlerEntries_cases toLowerCase queryAddressLimit ds handler with ⟨-, hentries⟩ | ⟨-, hentries, hnone⟩
  · cases hentries.symm.trans hown
  · rw [hnone.2 h] at hentries
    cases hentries.symm.trans hown

theorem buildDictionaryQueryEntries_of_unnamed {dataSources : List SubqlDatasource}
    (husable : ∀ p ∈ handlersOf dataSources, ¬ Unusable p.1 p.2)
    (hunnamed : ∀ p ∈ handlersOf dataSources, Unnamed p.2) :
    buildDictionaryQueryEntries toLowerCase queryAddressLimit dataSources = [] := by
  have hnothing : (handlersOf dataSources).filterMap
      (fun p => translated toLowerCase queryAddressLimit p.1 p.2) = [] :=
    List.filterMap_eq_nil_iff.2 (fun p hp =>
      (handlerEntries_of_usable toLowerCase queryAddressLimit (husable p hp)).2.2 (hunnamed p hp))
  rw [buildDictionaryQueryEntries_of_usable husable, hnothing]
  rfl

end Covers

/-- **The entries cover every handler if and only if one of the handlers leaves no entries, or all handlers are of kinds
that the `switch` names, or none is.** -/
theorem dictionary_covers_iff (toLowerCase : String → String) (queryAddressLimit : Nat)
    (dataSources : List SubqlDatasource) : Covers toLowerCase queryAddressLimit dataSources ↔
      (∃ p ∈ handlersOf dataSources, Unusable p.1 p.2) ∨
      (∀ p ∈ handlersOf dataSources, ¬ Unnamed p.2) ∨ ∀ p ∈ handlersOf dataSources, Unnamed p.2 := by
  constructor
  · intro hcovers
    by_contra hnone
    push Not at hnone
    obtain ⟨husable, ⟨⟨ds, handler⟩, hhandler, hunnamed⟩, ⟨⟨ds', handler'⟩, hhandler', hnamed⟩⟩ := hnone
    -- the handler whose kind is named has an entry, so there are entries
    obtain ⟨-, -, entry, hentry, -⟩ : Represented toLowerCase queryAddressLimit
        (buildDictionaryQueryEntries toLowerCase queryAddressLimit dataSources) ds' handler' :=
      represented_of_named husable hhandler' hnamed
    obtain ⟨hds, hmem⟩ := mem_handlersOf.1 hhandler
    exact not_represented_of_unnamed hunnamed (hcovers (List.ne_nil_of_mem hentry) ds hds handler hmem)
  · intro h hne
    have husable : ∀ p ∈ handlersOf dataSources, ¬ Unusable p.1 p.2 :=
      fun p hp hunusable => hne (buildDictionaryQueryEntries_of_unusable hp hunusable)
    rcases h with ⟨p, hp, hunusable⟩ | hnamed | hunnamed
    · exact absurd hunusable (husable p hp)
    · intro ds hds handler hmem
      have hhandler := mem_handlersOf.2 ⟨hds, hmem⟩
      exact represented_of_named husable hhandler (hnamed _ hhandler)
    · exact absurd (buildDictionaryQueryEntries_of_unnamed husable hunnamed) hne

/-! ## A handler that the entries leave out -/

def sampleDatasource : SubqlDatasource where
  kind := .runtime
  options := none
  handlers := [.transaction (some ⟨some "test_account"⟩), .sorobanTransaction (some ⟨some "another_account"⟩)]

/-- **The Transaction handler's entry leaves out the SorobanTransaction handler.** -/
theorem sorobanTransaction_left_out :
    buildDictionaryQueryEntries id 100 [sampleDatasource] =
        [⟨.transactions, [⟨"account", .text "test_account", "equalTo"⟩]⟩] ∧
      ¬ Covers id 100 [sampleDatasource] := by
  have hentries : buildDictionaryQueryEntries id 100 [sampleDatasource] =
      [⟨.transactions, [⟨"account", .text "test_account", "equalTo"⟩]⟩] := rfl
  refine ⟨hentries, fun hcovers => ?_⟩
  obtain ⟨own, hown, -⟩ := hcovers (by rw [hentries]; exact List.cons_ne_nil _ _) sampleDatasource
    List.mem_cons_self (.sorobanTransaction (some ⟨some "another_account"⟩)) (by decide)
  cases hown

end SubqlStellar
