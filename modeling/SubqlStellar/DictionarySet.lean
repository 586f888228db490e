import SubqlStellar.StellarDictionary
/-!
# DictionarySet — the dictionary queries as a set

Where no handler stops the loops, the queries are the set of entries that the handlers are translated to
(`mem_buildDictionaryQueryEntries`): a translation writes its conditions in a fixed order of fields, so two entries that
agree up to that order are one, and `uniqBy` keeps one of each.  So the queries do not depend on the order or the
repetition of datasources and handlers (`dictionary_entries_set`).
-/
namespace SubqlStellar

def SameQuery (entry entry' : DictionaryQueryEntry) : Prop :=
  entry.entity = entry'.entity ∧ entry.conditions.Perm entry'.conditions

/-- Datasources in another order, their handlers in another order, or one of them twice. -/
inductive Rearranged : List SubqlDatasource → List SubqlDatasource → Prop
  | dataSources {a b : List SubqlDatasource} (h : a.Perm b) : Rearranged a b
  | handlers {a b : List SubqlDatasource} (h : List.Forall₂ (fun ds ds' =>
      ds'.kind = ds.kind ∧ ds'.options = ds.options ∧ ds.handlers.Perm ds'.handlers) a b) : Rearranged a b
  | twice {a : List SubqlDatasource} {ds : SubqlDatasource} (h : ds ∈ a) : Rearranged a (ds :: a)
  | symm {a b : List SubqlDatasource} (h : Rearranged a b) : Rearranged b a
  | trans {a b c : List SubqlDatasource} (h : Rearranged a b) (h' : Rearranged b c) : Rearranged a c

section Order

variable {toLowerCase : String → String} {queryAddressLimit : Nat}

def fieldPlace (field : String) : Nat :=
  ["type", "sourceAccount", "account", "address", "topics0", "topics1", "topics2", "topics3"].idxOf field

def InFieldOrder (conditions : List DictionaryQueryCondition) : Prop :=
  conditions.Pairwise (fun c c' => fieldPlace c.field < fieldPlace c'.field)

theorem field_of_mem_equalTo {change : String → String} {field : String} {value : Option String}
    {condition : DictionaryQueryCondition} (h : condition ∈ equalTo change field value) : condition.field = field := by
  unfold equalTo at h
  split at h
  · rw [List.mem_singleton.1 h]
  · cases h

theorem equalTo_inFieldOrder (change : String → String) (field : String) (value : Option String) :
    InFieldOrder (equalTo change field value) := by
  unfold equalTo
  split
  · exact List.pairwise_singleton _ _
  · exact List.Pairwise.nil

theorem equalTo_append_inFieldOrder {change change' : String → String} {field field' : String}
    {value value' : Option String} (h : fieldPlace field < fieldPlace field') :
    InFieldOrder (equalTo change field value ++ equalTo change' field' value') := by
  refine List.pairwise_append.2 ⟨equalTo_inFieldOrder _ _ _, equalTo_inFieldOrder _ _ _, fun c hc c' hc' => ?_⟩
  rw [field_of_mem_equalTo hc, field_of_mem_equalTo hc']
  exact h

theorem fieldPlace_topics : ∀ i < 4, fieldPlace s!"topics{i}" = 4 + i := by decide

theorem fieldPlace_of_mem_topicConditions {topics : List String} {condition : DictionaryQueryCondition}
    (h : condition ∈ topicConditions topics) : ∃ i < 4, fieldPlace condition.field = 4 + i := by
  obtain ⟨⟨topic, i⟩, hmem, hcondition⟩ := List.mem_flatMap.1 h
  have hlt := List.snd_lt_of_mem_zipIdx hmem
  rw [List.length_take] at hlt
  have hi : i < 4 := by omega
  exact ⟨i, hi, by rw [field_of_mem_equalTo hcondition, fieldPlace_topics i hi]⟩

theorem topicConditions_inFieldOrder (topics : List String) : InFieldOrder (topicConditions topics) := by
  unfold topicConditions
  generalize hfirst : topics.take 4 = first
  have hlength : first.length ≤ 4 := by
    rw [← hfirst]
    exact List.length_take_le _ _
  refine List.pairwise_flatMap.2 ⟨fun x _ => equalTo_inFieldOrder _ _ _, ?_⟩
  have hplaces : first.zipIdx.Pairwise (fun x y => x.2 < y.2) := by
    rw [← List.pairwise_map, List.zipIdx_map_snd]
    exact List.pairwise_lt_range'
  refine (List.Pairwise.and_mem.1 hplaces).imp (fun {x y} hxy c hc c' hc' => ?_)
  obtain ⟨hx, hy, hlt⟩ := hxy
  have hy4 := List.snd_lt_of_mem_zipIdx hy
  rw [field_of_mem_equalTo hc, field_of_mem_equalTo hc', fieldPlace_topics x.2 (by omega),
    fieldPlace_topics y.2 (by omega)]
  omega

theorem inFieldOrder_of_translated {ds : SubqlDatasource} : ∀ {handler : SubqlHandler} {entry : DictionaryQueryEntry},
    translated toLowerCase queryAddressLimit ds handler = some entry → InFieldOrder entry.conditions
  | .transaction (some filter), _, rfl => equalTo_inFieldOrder _ _ _
  | .operation (some filter), _, rfl => equalTo_append_inFieldOrder (by decide)
  | .effects (some filter), _, rfl => equalTo_append_inFieldOrder (by decide)
  | .event (some filter), _, rfl => by
    refine List.pairwise_append.2 ⟨equalTo_inFieldOrder _ _ _, ?_, fun c hc c' hc' => ?_⟩
    · cases filter.topics with
      | none => exact List.Pairwise.nil
      | some topics => exact topicConditions_inFieldOrder topics
    · have haddress : fieldPlace c.field = 3 := by rw [field_of_mem_equalTo hc]; decide
      cases hfilter : filter.topics with
      | none =>
        rw [hfilter] at hc'
        cases hc'
      | some topics =>
        rw [hfilter] at hc'
        obtain ⟨i, -, hplace⟩ := fieldPlace_of_mem_topicConditions hc'
        omega

/-- **Two translations that agree up to the order of conditions are one.** -/
theorem eq_of_sameQuery {entry entry' : DictionaryQueryEntry} (h : InFieldOrder entry.conditions)
    (h' : InFieldOrder entry'.conditions) (hsame : SameQuery entry entry') : entry = entry' := by
  obtain ⟨hentity, hperm⟩ := hsame
  have hconditions : entry.conditions = entry'.conditions :=
    hperm.eq_of_pairwise (fun c c' _ _ hlt hgt => absurd hlt (Nat.lt_asymm hgt)) h h'
  obtain ⟨entity, conditions⟩ := entry
  obtain ⟨entity', conditions'⟩ := entry'
  cases hentity
  cases hconditions
  rfl

end Order

section Entries

variable {toLowerCase : String → String} {queryAddressLimit : Nat} {dataSources : List SubqlDatasource}

theorem mem_of_mem_uniqBy {queryEntries : List DictionaryQueryEntry} {entry : DictionaryQueryEntry}
    (h : entry ∈ uniqBy queryEntries entryKey) : entry ∈ queryEntries := by
  rcases Keyed.mem_of_mem_mergeOn entryKey h with hnil | hmem
  · cases hnil
  · exact hmem

/-- **The queries are the translations**, none of which `uniqBy` loses. -/
theorem mem_buildDictionaryQueryEntries (h : ∀ p ∈ handlersOf dataSources, ¬ Unusable p.1 p.2)
    {entry : DictionaryQueryEntry} : entry ∈ buildDictionaryQueryEntries toLowerCase queryAddressLimit dataSources ↔
      ∃ p ∈ handlersOf dataSources, translated toLowerCase queryAddressLimit p.1 p.2 = some entry := by
  rw [buildDictionaryQueryEntries_of_usable h, ← List.mem_filterMap]
  constructor
  · exact mem_of_mem_uniqBy
  · intro hentry
    -- what `uniqBy` keeps of its key is a translation too, and so the same entry
    obtain ⟨kept, hkept, hsame⟩ := exists_mem_uniqBy hentry
    obtain ⟨p, -, hp⟩ := List.mem_filterMap.1 hentry
    obtain ⟨q, -, hq⟩ := List.mem_filterMap.1 (mem_of_mem_uniqBy hkept)
    rw [← eq_of_sameQuery (inFieldOrder_of_translated hq) (inFieldOrder_of_translated hp) hsame]
    exact hkept

theorem nodup_buildDictionaryQueryEntries (h : ∀ p ∈ handlersOf dataSources, ¬ Unusable p.1 p.2) :
    (buildDictionaryQueryEntries toLowerCase queryAddressLimit dataSources).Nodup := by
  rw [buildDictionaryQueryEntries_of_usable h]
  exact List.Nodup.of_map entryKey (Keyed.nodup_mergeOn entryKey List.nodup_nil)

theorem pairwise_not_sameQuery (h : ∀ p ∈ handlersOf dataSources, ¬ Unusable p.1 p.2) :
    (buildDictionaryQueryEntries toLowerCase queryAddressLimit dataSources).Pairwise
      (fun entry entry' => ¬ SameQuery entry entry') := by
  refine (List.Pairwise.and_mem.1 (nodup_buildDictionaryQueryEntries h)).imp
    (fun {entry entry'} hentries hsame => ?_)
  obtain ⟨hentry, hentry', hne⟩ := hentries
  obtain ⟨p, -, hp⟩ := (mem_buildDictionaryQueryEntries h).1 hentry
  obtain ⟨q, -, hq⟩ := (mem_buildDictionaryQueryEntries h).1 hentry'
  exact hne (eq_of_sameQuery (inFieldOrder_of_translated hp) (inFieldOrder_of_translated hq) hsame)

end Entries

section Rearranged

variable {dataSources dataSources' : List SubqlDatasource}

def HasHandler (dataSources : List SubqlDatasource) (options : Option SubqlStellarProcessorOptions)
    (handler : SubqlHandler) : Prop :=
  ∃ ds ∈ dataSources, ds.options = options ∧ handler ∈ ds.handlers

theorem unusable_congr {ds ds' : SubqlDatasource} (h : ds.options = ds'.options) {handler : SubqlHandler}
    (hunusable : Unusable ds handler) : Unusable ds' handler := by
  unfold Unusable at hunusable ⊢
  rwa [← h]

theorem translated_congr (toLowerCase : String → String) (queryAddressLimit : Nat) {ds ds' : SubqlDatasource}
    (h : ds.options = ds'.options) (handler : SubqlHandler) :
    translated toLowerCase queryAddressLimit ds handler = translated toLowerCase queryAddressLimit ds' handler := by
  unfold translated
  rw [h]

theorem hasHandler_of_forall₂ {options : Option SubqlStellarProcessorOptions} {handler : SubqlHandler}
    (h : List.Forall₂ (fun ds ds' => ds'.options = ds.options ∧ ds.handlers ⊆ ds'.handlers) dataSources dataSources') :
    HasHandler dataSources options handler → HasHandler dataSources' options handler := by
  induction h with
  | nil => exact id
  | @cons ds ds' a b hhead _ ih =>
    rintro ⟨ds₁, hds₁, hoptions, hhandler⟩
    rcases List.mem_cons.1 hds₁ with rfl | hds₁
    · exact ⟨ds', List.mem_cons_self, hhead.1.trans hoptions, hhead.2 hhandler⟩
    · obtain ⟨ds₂, hds₂, hrest⟩ := ih ⟨ds₁, hds₁, hoptions, hhandler⟩
      exact ⟨ds₂, List.mem_cons_of_mem ds' hds₂, hrest⟩

theorem Rearranged.hasHandler_iff (h : Rearranged dataSources dataSources') :
    ∀ {options : Option SubqlStellarProcessorOptions} {handler : SubqlHandler},
      HasHandler dataSources options handler ↔ HasHandler dataSources' options handler := by
  induction h with
  | dataSources hperm =>
    intro options handler
    exact exists_congr (fun ds => and_congr_left' hperm.mem_iff)
  | handlers hall =>
    intro options handler
    constructor
    · refine hasHandler_of_forall₂ (hall.imp (fun ds ds' hds => ?_))
      obtain ⟨-, hoptions, hperm⟩ := hds
      exact ⟨hoptions, hperm.subset⟩
    · refine hasHandler_of_forall₂ (hall.flip.imp (fun ds' ds hds => ?_))
      obtain ⟨-, hoptions, hperm⟩ := hds
      exact ⟨hoptions.symm, hperm.symm.subset⟩
  | @twice a ds hmem =>
    intro options handler
    constructor
    · rintro ⟨ds', hds', hrest⟩
      exact ⟨ds', List.mem_cons_of_mem ds hds', hrest⟩
    · rintro ⟨ds', hds', hrest⟩
      rcases List.mem_cons.1 hds' with rfl | hds'
      · exact ⟨ds', hmem, hrest⟩
      · exact ⟨ds', hds', hrest⟩
  | symm _ ih => exact ih.symm
  | trans _ _ ih ih' => exact ih.trans ih'

theorem exists_mem_handlersOf (h : Rearranged dataSources dataSources') {p : SubqlDatasource × SubqlHandler}
    (hp : p ∈ handlersOf dataSources) :
    ∃ ds', ds'.options = p.1.options ∧ (ds', p.2) ∈ handlersOf dataSources' := by
  obtain ⟨hds, hhandler⟩ := mem_handlersOf.1 hp
  obtain ⟨ds', hds', hoptions, hhandler'⟩ := h.hasHandler_iff.1 ⟨p.1, hds, rfl, hhandler⟩
  exact ⟨ds', hoptions, mem_handlersOf.2 ⟨hds', hhandler'⟩⟩

theorem exists_unusable (h : Rearranged dataSources dataSources')
    (hunusable : ∃ p ∈ handlersOf dataSources, Unusable p.1 p.2) : ∃ p ∈ handlersOf dataSources', Unusable p.1 p.2 := by
  obtain ⟨p, hp, hstops⟩ := hunusable
  obtain ⟨ds', hoptions, hmem⟩ := exists_mem_handlersOf h hp
  exact ⟨(ds', p.2), hmem, unusable_congr hoptions.symm hstops⟩

theorem exists_translated (toLowerCase : String → String) (queryAddressLimit : Nat)
    (h : Rearranged dataSources dataSources') {entry : DictionaryQueryEntry}
    (hentry : ∃ p ∈ handlersOf dataSources, translated toLowerCase queryAddressLimit p.1 p.2 = some entry) :
    ∃ p ∈ handlersOf dataSources', translated toLowerCase queryAddressLimit p.1 p.2 = some entry := by
  obtain ⟨p, hp, htranslated⟩ := hentry
  obtain ⟨ds', hoptions, hmem⟩ := exists_mem_handlersOf h hp
  refine ⟨(ds', p.2), hmem, ?_⟩
  rw [translated_congr toLowerCase queryAddressLimit hoptions, htranslated]

theorem buildDictionaryQueryEntries_perm (toLowerCase : String → String) (queryAddressLimit : Nat)
    (h : Rearranged dataSources dataSources') :
    (buildDictionaryQueryEntries toLowerCase queryAddressLimit dataSources).Perm
      (buildDictionaryQueryEntries toLowerCase queryAddressLimit dataSources') := by
  by_cases hunusable : ∃ p ∈ handlersOf dataSources, Unusable p.1 p.2
  · obtain ⟨p, hp, hstops⟩ := hunusable
    obtain ⟨p', hp', hstops'⟩ := exists_unusable h ⟨p, hp, hstops⟩
    rw [buildDictionaryQueryEntries_of_unusable hp hstops, buildDictionaryQueryEntries_of_unusable hp' hstops']
  · have husable : ∀ p ∈ handlersOf dataSources, ¬ Unusable p.1 p.2 :=
      fun p hp hstops => hunusable ⟨p, hp, hstops⟩
    have husable' : ∀ p ∈ handlersOf dataSources', ¬ Unusable p.1 p.2 :=
      fun p hp hstops => hunusable (exists_unusable h.symm ⟨p, hp, hstops⟩)
    rw [List.perm_ext_iff_of_nodup (nodup_buildDictionaryQueryEntries husable)
      (nodup_buildDictionaryQueryEntries husable')]
    intro entry
    rw [mem_buildDictionaryQueryEntries husable, mem_buildDictionaryQueryEntries husable']
    exact ⟨exists_translated toLowerCase queryAddressLimit h, exists_translated toLowerCase queryAddressLimit h.symm⟩

end Rearranged

/-- **The queries are a set that the handlers determine**: none where a handler stops the loops, else the entries that
the handlers are translated to, each once, whatever the order and the repetition of datasources and handlers. -/
theorem dictionary_entries_set (toLowerCase : String → String) (queryAddressLimit : Nat)
    (dataSources : List SubqlDatasource) :
    ((∃ p ∈ handlersOf dataSources, Unusable p.1 p.2) →
      buildDictionaryQueryEntries toLowerCase queryAddressLimit dataSources = []) ∧
    ((∀ p ∈ handlersOf dataSources, ¬ Unusable p.1 p.2) →
      (∀ entry, entry ∈ buildDictionaryQueryEntries toLowerCase queryAddressLimit dataSources ↔
        ∃ p ∈ handlersOf dataSources, translated toLowerCase queryAddressLimit p.1 p.2 = some entry) ∧
      (buildDictionaryQueryEntries toLowerCase queryAddressLimit dataSources).Pairwise
        (fun entry entry' => ¬ SameQuery entry entry')) ∧
    ∀ dataSources', Rearranged dataSources dataSources' →
      (buildDictionaryQueryEntries toLowerCase queryAddressLimit dataSources).Perm
        (buildDictionaryQueryEntries toLowerCase queryAddressLimit dataSources') := by
  refine ⟨?_, fun husable => ⟨fun entry => mem_buildDictionaryQueryEntries husable, pairwise_not_sameQuery husable⟩,
    fun dataSources' h => buildDictionaryQueryEntries_perm toLowerCase queryAddressLimit h⟩
  rintro ⟨p, hp, hstops⟩
  exact buildDictionaryQueryEntries_of_unusable hp hstops

end SubqlStellar
