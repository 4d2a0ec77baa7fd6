import Atlantis.Codegen.FieldGain
import Atlantis.Codegen.SameCatalog
import Atlantis.Codegen.UniqueHistory
import Atlantis.Codegen.SplitAgreement
import Atlantis.Query.Includes
import Atlantis.Query.Paging
import Atlantis.Cache.BodyInvalidation
import Atlantis.Admin.Exclusion
import Atlantis.Admin.Progress
import Atlantis.Jobs.Stranded
import Atlantis.Jobs.Fencing
import Atlantis.Jobs.Retries
import Atlantis.Workflows.Order
import Atlantis.Workflows.Compensation
import Atlantis.Admin.Removal
import Atlantis.Admin.Adopt
import Atlantis.Server.SchemaListener
import Atlantis.Cache.Generations
import Atlantis.Server.Writes
import Atlantis.Sandbox.Isolation
import Atlantis.Schema.TableSharing
import Atlantis.Admin.Readopt
import Atlantis.Admin.BackfillRows
import Atlantis.Server.Identity
import Atlantis.Cache.OutboxRows
import Atlantis.Jobs.Closed
import Atlantis.Jobs.WorkerSDK
import Atlantis.RawSql.ReadOnly
import Atlantis.Jobs.Slots
import Atlantis.Jobs.Heartbeat
import Atlantis.RawSql.BackfillExpr
import Atlantis.Sandbox.Value
import Atlantis.Codegen.TypeChange
import Atlantis.Proto.DistinctNumbers
import Atlantis.Jobs.Revoked
import Atlantis.Cache.Tier0
import Atlantis.Schema.Duration
import Atlantis.Schema.Members
