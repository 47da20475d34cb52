import Oddzilla.Lib.Like
import Oddzilla.Lib.Txn
import Oddzilla.Lib.ReadCommitted
import Oddzilla.Lib.Serial
import Oddzilla.Lib.Interference
import Oddzilla.Lib.Decimal
import Oddzilla.Lib.Ladder
import Oddzilla.Lib.PoissonBinomial
import Oddzilla.Lib.Select
import Oddzilla.Lib.Table
import Oddzilla.Lib.Keyed
import Oddzilla.Lib.Monitor
import Oddzilla.Lib.Text
import Oddzilla.Lib.Trace
import Oddzilla.Lib.Holders
import Oddzilla.Lib.Scan
import Oddzilla.Lib.Outline
import Oddzilla.Lib.Bisection
import Oddzilla.Lib.Digits
import Oddzilla.Lib.Pattern
import Oddzilla.Lib.Upserts
import Oddzilla.Lib.LastWrite
import Oddzilla.Lib.Fields
import Oddzilla.Store.Schema
import Oddzilla.Store.Ledger
import Oddzilla.Store.Frame
import Oddzilla.Store.TicketWrites
import Oddzilla.Store.Engine
import Oddzilla.Feed.Messages
import Oddzilla.Feed.Specifiers
import Oddzilla.Feed.Bifrost
import Oddzilla.Feed.BifrostKeys
import Oddzilla.Feed.Catalog
import Oddzilla.Feed.OddsChange
import Oddzilla.Fonbet.Rules
import Oddzilla.Fonbet.Mapper
import Oddzilla.Fonbet.Descriptions
import Oddzilla.Fonbet.Grade
import Oddzilla.Fonbet.Results
import Oddzilla.Settler.Payout
import Oddzilla.Settler.Ladder
import Oddzilla.Settler.Scripts
import Oddzilla.Settler.Parallel
import Oddzilla.Settler.Inference
import Oddzilla.Settler.External
import Oddzilla.Logic.Books
import Oddzilla.Logic.TicketLife
import Oddzilla.Logic.ScriptSpecs
import Oddzilla.Logic.Handlers
import Oddzilla.Logic.Interleaving
import Oddzilla.Logic.Accounts
import Oddzilla.Logic.Race
import Oddzilla.Odds.Quote
import Oddzilla.Odds.Products
import Oddzilla.Odds.Ceiling
import Oddzilla.Odds.Publisher
import Oddzilla.Odds.Netwinstable
import Oddzilla.Api.Pricing
import Oddzilla.Api.BettorOdds
import Oddzilla.Api.Withdrawals
import Oddzilla.Api.Riskzilla
import Oddzilla.Api.Placement
import Oddzilla.Api.Cashout
import Oddzilla.Api.Bank
import Oddzilla.Api.Community
import Oddzilla.Api.Sessions
import Oddzilla.Api.Competitions
import Oddzilla.Api.BoostedOdds
import Oddzilla.Api.Money
import Oddzilla.Gateway.Cascade
import Oddzilla.Gateway.Server
import Oddzilla.BetDelay.Worker
import Oddzilla.Deposits.Chain
import Oddzilla.Deposits.Tick
import Oddzilla.Deposits.Frame
import Oddzilla.SlotZilla.Rules
import Oddzilla.SlotZilla.Store
import Oddzilla.SlotZilla.Engine
import Oddzilla.Logic.Custody
import Oddzilla.Logic.Spins
import Oddzilla.Logic.Gateway
import Oddzilla.Logic.Bank
import Oddzilla.Logic.Boosts
import Oddzilla.Logic.Rekeying
import Oddzilla.Logic.Grades
import Oddzilla.Logic.ScoreParts
import Oddzilla.Theorems.Generations
import Oddzilla.Theorems.Reconcile
import Oddzilla.Theorems.History
import Oddzilla.Theorems.BestEffort
import Oddzilla.Theorems.Heal
import Oddzilla.Theorems.CancelExact
import Oddzilla.Theorems.ParallelSettle
import Oddzilla.Theorems.PotentialPayout
import Oddzilla.Theorems.Reprice
import Oddzilla.Theorems.RollbackInverse
import Oddzilla.Theorems.NoStranded
import Oddzilla.Theorems.RollbackRace
import Oddzilla.Theorems.NoDrift
import Oddzilla.Theorems.QuoteLadder
import Oddzilla.Theorems.Tippot
import Oddzilla.Theorems.AllOrNothing
import Oddzilla.Theorems.ApplyOnce
import Oddzilla.Theorems.WithdrawalLife
import Oddzilla.Deposits.Discovery
import Oddzilla.Deposits.DepositsOnce
import Oddzilla.Theorems.BankGate
import Oddzilla.Theorems.PlaceOnce
import Oddzilla.Theorems.CashoutRace
import Oddzilla.Theorems.Reels
import Oddzilla.Theorems.SpinMoney
import Oddzilla.Theorems.SpinExposure
import Oddzilla.Theorems.FinishedGames
import Oddzilla.Theorems.FreshWindows
import Oddzilla.Theorems.TerminalSticky
import Oddzilla.Theorems.NewestOdds
import Oddzilla.Theorems.PriceOrder
import Oddzilla.Theorems.TickPrice
import Oddzilla.Theorems.CascadeAtRest
import Oddzilla.Theorems.Subscriptions
import Oddzilla.Theorems.LineGrades
import Oddzilla.Theorems.VariantLabels
import Oddzilla.Theorems.SpecifierForm
import Oddzilla.Theorems.BifrostForm
import Oddzilla.Theorems.GradedLeg
import Oddzilla.Theorems.LadderInference
import Oddzilla.Theorems.LiabilityCaps
import Oddzilla.Theorems.ManualVoid
import Oddzilla.Theorems.OpenLiability
import Oddzilla.Theorems.RetryOrder
import Oddzilla.Theorems.Projections
import Oddzilla.Theorems.Revocable
import Oddzilla.Theorems.PredictionPoints
import Oddzilla.Theorems.BoostDisplay
import Oddzilla.Theorems.BoostPage
import Oddzilla.Theorems.SelectionBoosts
import Oddzilla.Theorems.Rekeying
import Oddzilla.Theorems.BoostQuotes
import Oddzilla.Theorems.CashoutFair
import Oddzilla.Theorems.MoneyText
import Oddzilla.Theorems.BulkUpserts
import Oddzilla.Theorems.Batches
import Oddzilla.Theorems.MatchWinners
import Oddzilla.Theorems.GradedBooks
import Oddzilla.Theorems.ResultRows
import Oddzilla.Theorems.SubEventWalk
import Oddzilla.Theorems.SubEventKeys
import Oddzilla.Theorems.RowLines
import Oddzilla.Theorems.SpinPages
import Oddzilla.Theorems.NameSimilarity
import Oddzilla.Theorems.Proposals
import Oddzilla.Theorems.CustomPrices
import Oddzilla.Theorems.JoinCap
import Oddzilla.Theorems.ViewerRank
import Oddzilla.Theorems.SportsViewed
import Oddzilla.Theorems.CacheBust
import Oddzilla.Theorems.ZillaCards
import Oddzilla.Theorems.SnapshotMemory
