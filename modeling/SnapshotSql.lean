import SnapshotSql.Json.Reader
import SnapshotSql.Proofs.Query.Binding
import SnapshotSql.Proofs.Query.CallResults
import SnapshotSql.Proofs.Query.FilterAbove
import SnapshotSql.Proofs.Query.Grouped
import SnapshotSql.Proofs.Query.IntegerSums
import SnapshotSql.Proofs.Query.Moments
import SnapshotSql.Proofs.Query.Ordering
import SnapshotSql.Proofs.Query.Pushdown
import SnapshotSql.Proofs.Query.Renumber
import SnapshotSql.Proofs.Query.TableSets
import SnapshotSql.Proofs.Session.Assigned
import SnapshotSql.Proofs.Session.Caching
import SnapshotSql.Proofs.Session.Census
import SnapshotSql.Proofs.Session.Conflicts
import SnapshotSql.Proofs.Session.Interleaved
import SnapshotSql.Proofs.Session.Lowered
import SnapshotSql.Proofs.Session.Ordered
import SnapshotSql.Proofs.Session.Plain
import SnapshotSql.Proofs.Session.Reading
import SnapshotSql.Proofs.Session.Repeatable
import SnapshotSql.Proofs.Session.Replaced
import SnapshotSql.Proofs.Session.Stamps
import SnapshotSql.Proofs.Session.Traceless
import SnapshotSql.Proofs.Transaction.Contested
import SnapshotSql.Proofs.Transaction.WriteGuard
import SnapshotSql.Proofs.Query.Gathered
import SnapshotSql.Proofs.Query.Rearranged
import SnapshotSql.Proofs.Query.Shuffled
import SnapshotSql.Proofs.Session.Reordered
import SnapshotSql.Proofs.Query.SameGroup
import SnapshotSql.Proofs.Query.Protocol
import SnapshotSql.Proofs.Transaction.Replacement
import SnapshotSql.Proofs.Session.Listing
import SnapshotSql.Proofs.Session.RowObjects
import SnapshotSql.Proofs.Session.Explained
