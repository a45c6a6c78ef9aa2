import ResultCache.Http.Router
import ResultCache.Proofs.Admission
import ResultCache.Proofs.Binary64.Rounding
import ResultCache.Proofs.Binary64.Shortest
import ResultCache.Proofs.Debits
import ResultCache.Proofs.Durable.Absence
import ResultCache.Proofs.Durable.Clearing
import ResultCache.Proofs.Durable.Durability
import ResultCache.Proofs.Durable.Files
import ResultCache.Proofs.Durable.Isolation
import ResultCache.Proofs.Durable.Loading
import ResultCache.Proofs.Durable.Retention
import ResultCache.Proofs.Durable.Transparency
import ResultCache.Proofs.Eviction
import ResultCache.Proofs.Freshness
import ResultCache.Proofs.Json.Distinct
import ResultCache.Proofs.Json.Objects
import ResultCache.Proofs.Patterns
import ResultCache.Proofs.Pressure
import ResultCache.Proofs.Reads
import ResultCache.Proofs.Request.Canonical
import ResultCache.Proofs.Request.Keys
import ResultCache.Proofs.Request.NormalForms
import ResultCache.Proofs.Sweeping
import ResultCache.Proofs.TtlTables
import ResultCache.Session
import ResultCache.Store.Backing
