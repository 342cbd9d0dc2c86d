import Resourcey.Logic.Kleene
import Resourcey.Logic.Like
import Resourcey.Logic.Keyset
import Resourcey.Util.Value
import Resourcey.Util.SearchFilter
import Resourcey.Util.ObjectFilter
import Resourcey.Sql.Expr
import Resourcey.Sql.FilterConverter
import Resourcey.Sql.Cursor
import Resourcey.Sql.SqlService
import Resourcey.Sql.Paging
import Resourcey.Mongo.Query
import Resourcey.Mongo.FilterConverter
import Resourcey.Mongo.MongoService
import Resourcey.Mongo.Paging
import Resourcey.Logic.Trace
import Resourcey.Jobs.Model
import Resourcey.Jobs.Runner
import Resourcey.Jobs.Terminal
import Resourcey.Jobs.Ownership
import Resourcey.Jobs.Ledger
import Resourcey.Jobs.AttemptCap
import Resourcey.Jobs.Sweep
import Resourcey.Jobs.SingleWinner
import Resourcey.Jobs.Recovery
import Resourcey.Auth.OauthRefresh
import Resourcey.Auth.OauthLease
import Resourcey.Cache.CacheStrategy
import Resourcey.Cache.CachedService
import Resourcey.Auth.Policy
import Resourcey.Auth.RbacResolver
import Resourcey.Http.GetRoutes
import Resourcey.Http.EntityTag
import Resourcey.Http.LastModified
import Resourcey.Sql.Session
import Resourcey.Http.BatchRoutes
import Resourcey.Auth.AuthorizedService
import Resourcey.Auth.OutOfScope
import Resourcey.Http.CachePrivacy
import Resourcey.Sql.Ownership
import Resourcey.Logic.UuidText
import Resourcey.Auth.Membership
import Resourcey.Auth.StoredPolicy
import Resourcey.Logic.Gregorian
import Resourcey.Tasks.Cron
import Resourcey.Logic.PyText
import Resourcey.Tasks.CronParser
import Resourcey.Tasks.Scheduler
import Resourcey.Filestore.LocalFileStore
import Resourcey.Core.Dto
import Resourcey.Mongo.Pushdown
import Resourcey.Logic.StableSort
import Resourcey.List.ListService
import Resourcey.List.Paging
import Resourcey.Util.QuerySurface
import Resourcey.Tasks.CronGrammar
import Resourcey.Core.Manifest
import Resourcey.Triggers.Binding
import Resourcey.Filestore.PutSteps
import Resourcey.Realtime.RealtimeRoutes
import Resourcey.Triggers.RequestFirings
import Resourcey.Core.ServiceStack
import Resourcey.Auth.ServiceWrapper
import Resourcey.Triggers.TruthfulEvents
import Resourcey.Auth.ConstantPolicies
import Resourcey.Filestore.FileService
import Resourcey.Mongo.MongoWrites
import Resourcey.Util.NormalForm
import Resourcey.Auth.BatchEdits
import Resourcey.Sql.SetFilters
import Resourcey.Sql.ColumnWrites
import Resourcey.Logic.BoundedBuffer
import Resourcey.Realtime.InMemoryChannel
import Resourcey.Encryption.EncryptionService
import Resourcey.Filestore.SignedUrls
import Resourcey.Util.Cursor
import Resourcey.Triggers.WebhookTrigger
import Resourcey.Filestore.Walks
import Resourcey.Auth.Backends
import Resourcey.List.FilterAgreement
import Resourcey.View.Hiding
import Resourcey.Core.References
import Resourcey.Core.BatchRead
import Resourcey.Core.SecretFields
import Resourcey.Auth.OauthRoutes
import Resourcey.Core.Declaration
import Resourcey.Core.WireConstraints
import Resourcey.View.ViewChain
import Resourcey.Http.DeclaredFilters
import Resourcey.Logic.Fuel
import Resourcey.Util.EnvParser
import Resourcey.Util.EnvReading
import Resourcey.Util.EnvOverrides
import Resourcey.Util.UnionKinds
import Resourcey.Filestore.SqlFileStore
import Resourcey.Auth.Authentication
import Resourcey.Auth.ApiKeys
import Resourcey.Auth.OauthBearer
import Resourcey.Auth.SessionCookies
