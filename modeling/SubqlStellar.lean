import SubqlStellar.EventsPaging
import SubqlStellar.EventsCap
import SubqlStellar.EventsLeak
import SubqlStellar.EventsMemory
import SubqlStellar.Headers
import SubqlStellar.EventsFilters
import SubqlStellar.BlockTree
import SubqlStellar.BlockRecords
import SubqlStellar.BlockJoin
import SubqlStellar.IndexerManager
import SubqlStellar.IndexerDelivery
import SubqlStellar.EventDelivery
import SubqlStellar.ApiErrors
import SubqlStellar.Pipeline
import SubqlStellar.BatchDelivery
import SubqlStellar.StellarApiService
import SubqlStellar.SafeApi
import SubqlStellar.StellarDictionary
import SubqlStellar.DictionaryRows
import SubqlStellar.DictionarySet
import SubqlStellar.DictionaryBlocks
