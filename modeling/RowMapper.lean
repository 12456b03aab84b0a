import RowMapper.Catalog.Build
import RowMapper.Database.Location
import RowMapper.Database.Sqlite
import RowMapper.Engine.Query
import RowMapper.Proofs.Delivery.Count
import RowMapper.Proofs.Delivery.Holding
import RowMapper.Proofs.Engine.WatchQuery
import RowMapper.Proofs.Engine.Termination
import RowMapper.Settings
import RowMapper.Proofs.Delivery.Elements
import RowMapper.Proofs.Delivery.Gathering
import RowMapper.Proofs.Delivery.Windows
import RowMapper.Proofs.Engine.Filled
import RowMapper.Proofs.Access.Renaming
import RowMapper.Proofs.Engine.History
import RowMapper.Proofs.Engine.Renamed
import RowMapper.Proofs.Engine.RenamedQuery
import RowMapper.Proofs.Delivery.Independence
import RowMapper.Proofs.Delivery.Selected
import RowMapper.Proofs.Access.Region
import RowMapper.Proofs.Delivery.Failures
import RowMapper.Proofs.Delivery.Prefix
import RowMapper.Proofs.References.Edits
import RowMapper.Proofs.References.Queries
import RowMapper.Proofs.References.Reached
import RowMapper.Proofs.Objects.Assembly
import RowMapper.Proofs.Objects.Built
import RowMapper.Proofs.Delivery.GroupedQuery
import RowMapper.Proofs.Request.Phases
import RowMapper.Proofs.Objects.ReadBack
import RowMapper.Proofs.Objects.TypedRuns
import RowMapper.Proofs.Engine.Registrations
import RowMapper.Proofs.Engine.Discriminators
import RowMapper.Proofs.Delivery.Merging
import RowMapper.Proofs.Catalog.Qualified
import RowMapper.Proofs.Statement.Sentinels
import RowMapper.Proofs.Database.Sqlite
import RowMapper.Proofs.Objects.Inferred
import RowMapper.Proofs.Delivery.Records
import RowMapper.Proofs.Delivery.Discards
import RowMapper.Proofs.Coercer.Texts
import RowMapper.Proofs.Access.PutGet
import RowMapper.Proofs.Access.FailedWrites
import RowMapper.Proofs.Engine.Parameters
import RowMapper.Proofs.Engine.SingleColumns
import RowMapper.Proofs.Statement.Implicit
import RowMapper.Proofs.Delivery.Unreported
import RowMapper.Proofs.Data.Xml
import RowMapper.Proofs.Mapping.ColumnSpec
import RowMapper.Proofs.Error.Chain
import RowMapper.Proofs.Data.Sets
