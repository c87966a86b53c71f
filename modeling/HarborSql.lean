import HarborSql.Verify.TableCache.Loading
import HarborSql.Verify.TableCache.SingleFlight
import HarborSql.Verify.TableCache.Hits
import HarborSql.Verify.TableCache.Invalidation
import HarborSql.Verify.Results.Fetch
import HarborSql.Verify.Results.Displayable
import HarborSql.Thrift.ResultEncoding
import HarborSql.Thrift.Responses
import HarborSql.Verify.Thrift.Capacity
import HarborSql.Verify.Thrift.Refreshing
import HarborSql.Verify.Thrift.Sessions
import HarborSql.Verify.Thrift.Lifecycle
import HarborSql.Verify.Thrift.ContainerBound
import HarborSql.Verify.Engine.Write
import HarborSql.Verify.Rewrite.Like
import HarborSql.Verify.Rewrite.Capture
import HarborSql.Verify.Engine.Errors
import HarborSql.Verify.Engine.ReadOnly
import HarborSql.Verify.Engine.Routing
import HarborSql.Verify.Engine.Location
import HarborSql.Verify.Engine.Columns
import HarborSql.Verify.Engine.ColumnOrder
import HarborSql.Verify.Thrift.Gauges
import HarborSql.Verify.Results.Rendering
import HarborSql.Verify.Thrift.Handles
import HarborSql.Verify.Rewrite.Aliases
import HarborSql.Verify.Observability.Series
import HarborSql.Verify.Engine.Length
import HarborSql.Verify.Results.TextForms
import HarborSql.Verify.Rewrite.Frame
import HarborSql.Verify.Rewrite.Again
import HarborSql.Verify.Rewrite.Values
import HarborSql.Verify.Rewrite.Text
import HarborSql.Verify.Engine.ShowParser
import HarborSql.Verify.Engine.MetadataPattern
import HarborSql.Verify.Engine.Minute
import HarborSql.Verify.Engine.ShowPattern
import HarborSql.Verify.Engine.Pushdown
import HarborSql.Verify.Thrift.NonInterference
import HarborSql.Verify.Thrift.Progress
import HarborSql.Verify.Engine.Catalog
import HarborSql.Verify.Thrift.Responses
import HarborSql.Verify.Unity.Tables
