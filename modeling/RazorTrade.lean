import RazorTrade.Lib.Program
import RazorTrade.Lib.Safety
import RazorTrade.Lib.Table
import RazorTrade.Lib.InverseLedger
import RazorTrade.Core.Decimal
import RazorTrade.Core.Rounding
import RazorTrade.Core.Time
import RazorTrade.Core.Json
import RazorTrade.Core.Order
import RazorTrade.Core.Market
import RazorTrade.Core.Portfolio
import RazorTrade.Risk.Checks
import RazorTrade.Risk.Checklist
import RazorTrade.Risk.LossStops
import RazorTrade.Risk.StopAgreement
import RazorTrade.Kraken.Fills
import RazorTrade.Persistence.Schema
import RazorTrade.Persistence.Orders
import RazorTrade.Persistence.Positions
import RazorTrade.Persistence.PositionLedger
import RazorTrade.Persistence.Repo
import RazorTrade.Daemon.World
import RazorTrade.Lib.Concurrent
import RazorTrade.Lib.Replay
import RazorTrade.Risk.KillSwitch
import RazorTrade.Daemon.MarketData
import RazorTrade.Daemon.EquityWriter
import RazorTrade.Daemon.FillReconciler
import RazorTrade.Daemon.SignalProcessor
import RazorTrade.Persistence.Frame
import RazorTrade.Daemon.System
import RazorTrade.Daemon.Links
import RazorTrade.Daemon.ProcessorSafety
import RazorTrade.Daemon.Contracts
import RazorTrade.Daemon.Submission
import RazorTrade.Daemon.RealizedPnl
import RazorTrade.Kraken.OrderBook
import RazorTrade.Kraken.BookReplay
import RazorTrade.Persistence.PositionInvariant
import RazorTrade.Lib.InverseBook
import RazorTrade.Persistence.Fragmentation
import RazorTrade.Daemon.OrderSizing
import RazorTrade.Strategy.Indicators
import RazorTrade.Strategy.Donchian
import RazorTrade.Strategy.VolatilityVeto
import RazorTrade.Strategy.Consumption
import RazorTrade.Daemon.RejectionInvariant
import RazorTrade.Daemon.Rejection
import RazorTrade.Daemon.DuplicateExposure
import RazorTrade.Daemon.FillJournal
import RazorTrade.Daemon.FillDedup
import RazorTrade.Daemon.FillAgreement
import RazorTrade.Daemon.StatusRank
import RazorTrade.Daemon.TickCompleteness
import RazorTrade.Daemon.FillWriteOff
import RazorTrade.Daemon.FillProcessing
import RazorTrade.Daemon.FailClosed
import RazorTrade.Daemon.PanicRounds
import RazorTrade.Daemon.EventTrigger
import RazorTrade.Kraken.Rest
import RazorTrade.Daemon.SubmitOutcome
import RazorTrade.Daemon.Loading
import RazorTrade.Daemon.Progress
import RazorTrade.Daemon.Gate
import RazorTrade.Daemon.GateTiming
import RazorTrade.Daemon.OrderRecord
import RazorTrade.Daemon.OrderIds
import RazorTrade.Kraken.WsClient
import RazorTrade.Kraken.WsRun
import RazorTrade.Daemon.EquityAccounts
import RazorTrade.Risk.NoPanic
import RazorTrade.Daemon.ChecklistPanic
import RazorTrade.Daemon.SoftStop
import RazorTrade.Core.DecimalText
import RazorTrade.Daemon.GuardAgreement
import RazorTrade.Core.Calendar
import RazorTrade.Lib.FixedWidth
import RazorTrade.Core.Rfc3339
import RazorTrade.Persistence.TimeOrder
import RazorTrade.Dashboard.KillSwitch
import RazorTrade.Dashboard.TextTime
import RazorTrade.Dashboard.Windows
import RazorTrade.Daemon.FillOrder
import RazorTrade.Core.Serde
import RazorTrade.Kraken.OpenOrders
import RazorTrade.Lib.RunningMean
import RazorTrade.Persistence.OrderFold
import RazorTrade.Persistence.BooksAgree
import RazorTrade.Persistence.Flatten
import RazorTrade.Daemon.ExitOrders
import RazorTrade.Daemon.EntryOrder
import RazorTrade.Daemon.RiskMonotone
import RazorTrade.Risk.LiquidationBuffer
import RazorTrade.Strategy.Channel
import RazorTrade.Strategy.EntryExit
import RazorTrade.Strategy.Scripts
import RazorTrade.Daemon.HardStop
import RazorTrade.Lib.Window
import RazorTrade.Kraken.FillsWindow
import RazorTrade.Kraken.OpenOrdersReplay
import RazorTrade.Lib.RetryLoop
import RazorTrade.Kraken.Nonce
import RazorTrade.Lib.Smoothing
import RazorTrade.Strategy.AverageTrueRange
import RazorTrade.Daemon.RegistrySizes
import RazorTrade.Lib.Runs
import RazorTrade.Kraken.Auth
import RazorTrade.Kraken.Session
import RazorTrade.Daemon.PeriodicReconciler
import RazorTrade.Lib.Typestate
import RazorTrade.Daemon.SignalLifecycle
import RazorTrade.Lib.Answers
import RazorTrade.Daemon.GivenTasks
import RazorTrade.Daemon.SilentGuards
import RazorTrade.Daemon.DryRun
import RazorTrade.Lib.Simulation
import RazorTrade.Persistence.Retention
import RazorTrade.Daemon.Upkeep
import RazorTrade.Lib.FormUrl
import RazorTrade.Kraken.Requests
import RazorTrade.Kraken.Frames
