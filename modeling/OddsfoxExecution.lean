import OddsfoxExecution.Library.Table
import OddsfoxExecution.Library.Growth
import OddsfoxExecution.Library.Sums
import OddsfoxExecution.Library.Program
import OddsfoxExecution.Library.Pool
import OddsfoxExecution.Library.Potential
import OddsfoxExecution.Domain
import OddsfoxExecution.Venue
import OddsfoxExecution.Risk
import OddsfoxExecution.Store.Schema
import OddsfoxExecution.Store.Fills
import OddsfoxExecution.Store.Intents
import OddsfoxExecution.Store.Submission
import OddsfoxExecution.Store.Orders
import OddsfoxExecution.Store.Control
import OddsfoxExecution.Store.Paper
import OddsfoxExecution.Store.PaperLedger
import OddsfoxExecution.Store.Ledger
import OddsfoxExecution.PaperVenue
import OddsfoxExecution.Library.Greedy
import OddsfoxExecution.Library.Retention
import OddsfoxExecution.BookWalk
import OddsfoxExecution.PaperDivision
import OddsfoxExecution.PaperConservation
import OddsfoxExecution.PaperSolvency
import OddsfoxExecution.Store.Calls
import OddsfoxExecution.Store.Housekeeping
import OddsfoxExecution.Store.Lifecycle
import OddsfoxExecution.Store.Effects
import OddsfoxExecution.Store.Decisions
import OddsfoxExecution.Portfolio
import OddsfoxExecution.Store.Exposure
import OddsfoxExecution.Store.ExposureEffects
import OddsfoxExecution.Store.Pipeline
import OddsfoxExecution.RiskCaps
import OddsfoxExecution.GrossExposure
import OddsfoxExecution.DailyNotional
import OddsfoxExecution.RiskMonotone
import OddsfoxExecution.CancelOnHalt
import OddsfoxExecution.Store.Run
import OddsfoxExecution.Store.Frames
import OddsfoxExecution.Store.Stages
import OddsfoxExecution.Store.Journal
import OddsfoxExecution.Store.Registry
import OddsfoxExecution.Audit
import OddsfoxExecution.OrderTransitions
import OddsfoxExecution.Attempts
import OddsfoxExecution.Recovery
import OddsfoxExecution.FillBooking
import OddsfoxExecution.TerminalStates
import OddsfoxExecution.TradeFinality
import OddsfoxExecution.FindingClearance
import OddsfoxExecution.Api.Mutations
import OddsfoxExecution.Api.Requests
import OddsfoxExecution.Library.Keyset
import OddsfoxExecution.Api.Listings
import OddsfoxExecution.Api.StrictJson
import OddsfoxExecution.KeyReuse
import OddsfoxExecution.ExactlyOnce
import OddsfoxExecution.Store.IntentTerms
import OddsfoxExecution.Store.IdempotencyKeys
import OddsfoxExecution.Coordinator.Calls
import OddsfoxExecution.Coordinator.Reconciliation
import OddsfoxExecution.Coordinator.Intents
import OddsfoxExecution.PaperFit
import OddsfoxExecution.ExposureAgreement
import OddsfoxExecution.ProjectionReplay
import OddsfoxExecution.EventRetention
import OddsfoxExecution.Coordinator.Tasks
import OddsfoxExecution.Coordinator.System
import OddsfoxExecution.Coordinator.Executions
import OddsfoxExecution.Coordinator.Promises
import OddsfoxExecution.Coordinator.Conduct
import OddsfoxExecution.Coordinator.Flagging
import OddsfoxExecution.Coordinator.Runs
import OddsfoxExecution.Coordinator.Control
import OddsfoxExecution.Coordinator.Schedule
import OddsfoxExecution.Coordinator.Clock
import OddsfoxExecution.AtMostOnce
import OddsfoxExecution.UnexpectedOrders
import OddsfoxExecution.Expiry
import OddsfoxExecution.HaltLatch
import OddsfoxExecution.UnknownOutcome
import OddsfoxExecution.Representation
import OddsfoxExecution.CrashRecovery
import OddsfoxExecution.SubmissionOutcome
import OddsfoxExecution.Cancellation
import OddsfoxExecution.PaperFills
import OddsfoxExecution.TradeStatus
import OddsfoxExecution.RemainingQuantity
import OddsfoxExecution.Library.FixedPoint
import OddsfoxExecution.DecimalRange
import OddsfoxExecution.Library.Overlay
import OddsfoxExecution.PriceChanges
import OddsfoxExecution.Library.Following
import OddsfoxExecution.Api.EventStream
import OddsfoxExecution.EventDelivery
import OddsfoxExecution.OrderTrades
import OddsfoxExecution.PaperTally
import OddsfoxExecution.Polymarket.Client
import OddsfoxExecution.Polymarket.Adapter
import OddsfoxExecution.Library.Refresh
import OddsfoxExecution.Polymarket.System
import OddsfoxExecution.Library.Traces
import OddsfoxExecution.Polymarket.Account
import OddsfoxExecution.Polymarket.Promises
import OddsfoxExecution.Polymarket.Conduct
import OddsfoxExecution.Library.Player
import OddsfoxExecution.Polymarket.Generations
import OddsfoxExecution.Polymarket.Books
import OddsfoxExecution.Polymarket.Replies
import OddsfoxExecution.Polymarket.Losses
import OddsfoxExecution.Library.LockOrder
import OddsfoxExecution.Coordinator.Kinds
import OddsfoxExecution.Coordinator.Gates
import OddsfoxExecution.Store.PreparedOrders
import OddsfoxExecution.Approvals
import OddsfoxExecution.Library.Secure
import OddsfoxExecution.Store.Identity
import OddsfoxExecution.Backup.Files
import OddsfoxExecution.Backup.System
import OddsfoxExecution.Backup.Isolation
import OddsfoxExecution.Backup.Published
import OddsfoxExecution.Backup.Conduct
import OddsfoxExecution.Backup.Runs
import OddsfoxExecution.AfterHalt
import OddsfoxExecution.LivePolicy
import OddsfoxExecution.Positions
import OddsfoxExecution.Api.Auth
import OddsfoxExecution.Authorization
