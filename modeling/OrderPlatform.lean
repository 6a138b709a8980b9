import OrderPlatform.Async.Program
import OrderPlatform.Async.Pool
import OrderPlatform.Async.Contract
import OrderPlatform.Text.Json
import OrderPlatform.Text.Component
import OrderPlatform.Text.Date
import OrderPlatform.Text.CodeUnits
import OrderPlatform.Text.Grammar
import OrderPlatform.Text.Double
import OrderPlatform.Text.Numeral
import OrderPlatform.Text.CaseMapping
import OrderPlatform.Text.JavaScript
import OrderPlatform.Text.Jsonb
import OrderPlatform.Text.JsonBytes
import OrderPlatform.Shared.OrderStatus
import OrderPlatform.Api.Types
import OrderPlatform.Api.Redis
import OrderPlatform.Api.Cache
import OrderPlatform.Api.Idempotency
import OrderPlatform.Api.IdempotentCalls
import OrderPlatform.Api.IdempotencyOwnership
import OrderPlatform.Api.IdempotencySafety
import OrderPlatform.Api.IdempotencyRelease
import OrderPlatform.Api.Database
import OrderPlatform.Api.Orders
import OrderPlatform.Api.OrderService
import OrderPlatform.Api.Keys
import OrderPlatform.Api.OrderAudit
import OrderPlatform.Api.OrderInvariant
import OrderPlatform.Api.OrderCache
import OrderPlatform.Api.OrderStatements
import OrderPlatform.Api.OrderContract
import OrderPlatform.Api.OrderReads
import OrderPlatform.Api.OrderWrites
import OrderPlatform.Api.OrderRuns
import OrderPlatform.Api.OrderIsolation
import OrderPlatform.Api.OrderTrail
import OrderPlatform.Api.OrderFreshness
import OrderPlatform.Async.Alone
import OrderPlatform.Async.Schedule
import OrderPlatform.Api.OrderExistence
import OrderPlatform.Api.OrderPlainReads
import OrderPlatform.Api.IdempotencyExpiry
import OrderPlatform.Api.Counters
import OrderPlatform.Api.AuthTables
import OrderPlatform.Api.Auth
import OrderPlatform.Api.AuthService
import OrderPlatform.Api.AuthContract
import OrderPlatform.Api.AuthTokens
import OrderPlatform.Api.AuthLockout
import OrderPlatform.Async.Background
import OrderPlatform.Broker.Messages
import OrderPlatform.Broker.Server
import OrderPlatform.Worker.ProcessedEvents
import OrderPlatform.Worker.Consumer
import OrderPlatform.Worker.Service
import OrderPlatform.Worker.Contract
import OrderPlatform.Worker.Exclusion
import OrderPlatform.Worker.Deliveries
import OrderPlatform.Worker.Acknowledgement
import OrderPlatform.Api.Lifecycle
import OrderPlatform.Api.Drain
import OrderPlatform.Migrations.Files
import OrderPlatform.Migrations.Database
import OrderPlatform.Migrations.Runner
import OrderPlatform.Async.Path
import OrderPlatform.Migrations.Steps
import OrderPlatform.Migrations.Atomicity
import OrderPlatform.Migrations.Overlap
import OrderPlatform.Migrations.VersionOrder
import OrderPlatform.Api.AuthWindow
import OrderPlatform.Async.Evaluation
import OrderPlatform.Api.IdempotencyRetries
import OrderPlatform.Api.AuthAtomicity
import OrderPlatform.Api.EntitySpellings
import OrderPlatform.Paging.Pages
import OrderPlatform.Api.OrderPaging
import OrderPlatform.Api.PageOffsets
import OrderPlatform.Api.OrderOrigins
import OrderPlatform.Api.EmailFilter
import OrderPlatform.Api.OrderBodies
import OrderPlatform.Api.OrderStorage
import OrderPlatform.Api.OrderAlone
import OrderPlatform.Api.StoredOrders
import OrderPlatform.Api.OrderReplay
import OrderPlatform.Api.RateLimit
import OrderPlatform.Api.CounterLog
import OrderPlatform.Api.RedisKeys
import OrderPlatform.Api.RateWindow
import OrderPlatform.Api.RateReset
import OrderPlatform.Api.CounterExpiry
import OrderPlatform.Api.LoginLimit
import OrderPlatform.Outbox.Events
import OrderPlatform.Outbox.Publisher
import OrderPlatform.Outbox.Service
import OrderPlatform.Outbox.Contract
import OrderPlatform.Outbox.Marking
import OrderPlatform.Outbox.Confirmation
import OrderPlatform.Outbox.SinglePublication
import OrderPlatform.Outbox.Enqueued
import OrderPlatform.Async.Notes
import OrderPlatform.Async.Conjunction
import OrderPlatform.Services.Rejections
import OrderPlatform.Worker.Turns
import OrderPlatform.Worker.Lossless
import OrderPlatform.Ledger.Changes
import OrderPlatform.Worker.Conservation
import OrderPlatform.Worker.Cycles
import OrderPlatform.Worker.Retries
import OrderPlatform.Worker.LifeCycle
import OrderPlatform.Worker.Prefetch
import OrderPlatform.Worker.Contents
import OrderPlatform.Services.EventContents
import OrderPlatform.Worker.Desk
import OrderPlatform.Worker.Consumers
import OrderPlatform.Worker.Completion
import OrderPlatform.Api.Revocation
import OrderPlatform.Async.Beginning
import OrderPlatform.Outbox.Republication
