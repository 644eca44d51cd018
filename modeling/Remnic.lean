import Remnic.Reconcile.Mirror
import Remnic.Reconcile.Precedence
import Remnic.Converge.CursorCoverage
import Remnic.Converge.FactPreservation
import Remnic.Buffer.ClaimUnique
import Remnic.ContentHash.FactSubset
import Remnic.Revision.Recovery
import Remnic.Revision.InvalidationQuarantine
import Remnic.Revision.DeletionJoin
import Remnic.Tombstone.Freshness
import Remnic.Tombstone.RebuildDecisions
import Remnic.FileLock.Exclusion
import Remnic.Supersession.Locality
import Remnic.Correction.Order
import Remnic.Supersession.Apart
import Remnic.Lcm.Isolation
import Remnic.Lcm.WorkQueue
import Remnic.SupportPassport.GrantCap
import Remnic.OfflineSync.StablePull
import Remnic.Contradiction.Permanence
import Remnic.Contradiction.AllOrNothing
import Remnic.Propagation.Fencing
import Remnic.Idempotency.KeyLockExclusion
import Remnic.Idempotency.Retained
import Remnic.PageVersioning.Revert
import Remnic.Catalog.Coherence
import Remnic.MemoryIndex.Mirror
import Remnic.Wearables.Evidence
import Remnic.CodingGraph.SearchIndex
import Remnic.CodingGraph.Reported
import Remnic.CodingGraph.ExactTraversals
import Remnic.Buffer.IdentityKey
import Remnic.Buffer.ExtractionClear
import Remnic.CodingGraph.GitRoundTrip
import Remnic.CodingGraph.ResolvedCalls
import Remnic.CodingGraph.BatchOrder
import Remnic.Capsule.LocalContent
import Remnic.RateLimit.SlidingBound
import Remnic.PageVersioning.Diff
import Remnic.Lsp.Streams
import Remnic.Memory.Chunking
import Remnic.Memory.SemanticMerge
