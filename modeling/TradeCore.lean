import TradeCore.Common
import TradeCore.Lib.Run
import TradeCore.Lib.Interleave
import TradeCore.Lib.Loop
import TradeCore.Lib.Table
import TradeCore.Lib.DecimalText
import TradeCore.Lib.StableSort
import TradeCore.Lib.HashChain
import TradeCore.Lib.Rounding
import TradeCore.Lib.OrderStatistic
import TradeCore.Lib.Double
import TradeCore.Lib.RelativeError
import TradeCore.Lib.Arithmetic
import TradeCore.Lib.ArraySort
import TradeCore.Escrow.Stroops
import TradeCore.Escrow.Entities
import TradeCore.Escrow.Service
import TradeCore.Escrow.Lifecycle
import TradeCore.Escrow.Discipline
import TradeCore.Escrow.Payout
import TradeCore.Escrow.Conservation
import TradeCore.Escrow.Approval
import TradeCore.Escrow.Creation
import TradeCore.Escrow.Milestones
import TradeCore.Trading.Model
import TradeCore.Trading.Match
import TradeCore.Trading.Book
import TradeCore.Trading.Priority
import TradeCore.Trading.Agreement
import TradeCore.Trading.Concurrent
import TradeCore.Trading.Crossing
import TradeCore.Trading.Detached
import TradeCore.Trading.Fills
import TradeCore.Trading.Settlement
import TradeCore.Trading.Sweep
import TradeCore.Trading.Roles
import TradeCore.Trading.Objects
import TradeCore.Trading.Statuses
import TradeCore.Trading.Admission
import TradeCore.Trading.Rounding
import TradeCore.Trading.Doubles
import TradeCore.Http.TransactionInterceptor
import TradeCore.Marketplace.OrderMonitor
import TradeCore.Marketplace.OrderCreation
import TradeCore.Notification.Services
import TradeCore.Notification.Limits
import TradeCore.Notification.Delivery
import TradeCore.Notification.Template
import TradeCore.Webhook.Service
import TradeCore.Webhook.Signature
import TradeCore.Webhook.Delivery
import TradeCore.Lib.SortedIndex
import TradeCore.Lib.SecondaryIndex
import TradeCore.Lib.Fields
import TradeCore.Lib.Calendar
import TradeCore.Lib.DateTime
import TradeCore.Lib.ScoredSet
import TradeCore.RateLimit.Config
import TradeCore.RateLimit.PathPattern
import TradeCore.RateLimit.Retry
import TradeCore.RateLimit.Service
import TradeCore.RateLimit.Counting
import TradeCore.RateLimit.Guard
import TradeCore.RateLimit.SlidingWindow
import TradeCore.Auth.Challenge
import TradeCore.Auth.Refresh
import TradeCore.Auth.Lockout
import TradeCore.Auth.Cleanup
import TradeCore.Auth.ApiKeys
import TradeCore.Wallet.Primary
import TradeCore.Wallet.MultisigAccount
import TradeCore.Wallet.MultisigPool
import TradeCore.Wallet.Broadcast
import TradeCore.Wallet.Signing
import TradeCore.Wallet.SecretKeys
import TradeCore.Indexer.EventBuffer
import TradeCore.Indexer.Persistence
import TradeCore.Indexer.Normalizer
import TradeCore.Indexer.Pipeline
import TradeCore.Indexer.Sequence
import TradeCore.Indexer.Cursor
import TradeCore.Indexer.Flush
import TradeCore.Indexer.Backfill
import TradeCore.Indexer.EventIndexer
import TradeCore.Indexer.Polling
import TradeCore.Indexer.Reorg
import TradeCore.Indexer.HorizonStream
import TradeCore.Indexer.Subscriptions
import TradeCore.Indexer.EventGateway
import TradeCore.Coordinator.Entities
import TradeCore.Coordinator.Graph
import TradeCore.Coordinator.Executor
import TradeCore.Coordinator.Phases
import TradeCore.Coordinator.Atomicity
import TradeCore.Coordinator.Bounds
import TradeCore.Coordinator.Ordering
import TradeCore.Coordinator.Timeout
import TradeCore.Coordinator.TopologicalOrder
import TradeCore.Coordinator.Submission
import TradeCore.Authorization.PolicyEngine
import TradeCore.Authorization.Registration
import TradeCore.Authorization.ActionCount
import TradeCore.Authorization.Delegation
import TradeCore.Authorization.ApprovalChain
import TradeCore.Authorization.Audit
import TradeCore.Authorization.StellarSigner
import TradeCore.Authorization.Threshold
import TradeCore.Authorization.Service
import TradeCore.Dispute.Service
import TradeCore.Dispute.Load
import TradeCore.Dispute.Remediation
import TradeCore.Dispute.Enforcement
import TradeCore.Liquidity.Router
import TradeCore.Liquidity.Freshness
import TradeCore.Liquidity.Simulator
import TradeCore.Liquidity.SimulatedSteps
import TradeCore.Liquidity.Routes
import TradeCore.Liquidity.RouteImpact
import TradeCore.Liquidity.Splitter
import TradeCore.Liquidity.PriceImpact
import TradeCore.Liquidity.Oracle
import TradeCore.Liquidity.Monitoring
import TradeCore.Lib.JsonText
import TradeCore.Soroban.Registry
import TradeCore.Soroban.StateKey
import TradeCore.Soroban.ContractState
import TradeCore.Soroban.Upgrade
import TradeCore.Soroban.MultisigBuilder
import TradeCore.Soroban.GasOptimizer
import TradeCore.Gateway.RequestQueue
import TradeCore.Gateway.ConnectionPool
import TradeCore.Gateway.ApiGateway
import TradeCore.Soroban.EventPolling
import TradeCore.Soroban.EventIndex
import TradeCore.Risk.Liquidation
import TradeCore.Risk.Cascade
import TradeCore.Risk.Concentration
import TradeCore.Risk.ValueAtRisk
import TradeCore.Compliance.Kyc
import TradeCore.Compliance.TransactionRisk
import TradeCore.Compliance.RiskScore
import TradeCore.Analytics.CronExpression
import TradeCore.Analytics.CronSearch
import TradeCore.Analytics.NextRun
import TradeCore.Analytics.ScheduledReports
import TradeCore.Lib.Csv
import TradeCore.Audit.ReportTable
import TradeCore.Lib.Layout
import TradeCore.Audit.PdfReport
import TradeCore.Audit.PdfReading
import TradeCore.Lib.LiteralString
import TradeCore.Audit.PdfLiterals
import TradeCore.Lib.StreamDecoder
import TradeCore.Indexer.StreamChunks
import TradeCore.Lib.JsonParse
import TradeCore.Soroban.StateCache
import TradeCore.Analytics.Buckets
import TradeCore.Analytics.Metrics
import TradeCore.Analytics.PriceAction
import TradeCore.Lib.KeyedFold
import TradeCore.Lib.Weights
import TradeCore.Lib.Template
import TradeCore.Portfolio.Trustlines
import TradeCore.Portfolio.Dashboard
