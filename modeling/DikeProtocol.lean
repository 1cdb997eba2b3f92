import DikeProtocol.Lib.Store
import DikeProtocol.Lib.Result
import DikeProtocol.Lib.Run
import DikeProtocol.Lib.Lock
import DikeProtocol.Lib.Double
import DikeProtocol.Lib.Root
import DikeProtocol.Lib.Decimal
import DikeProtocol.Types
import DikeProtocol.Math
import DikeProtocol.State
import DikeProtocol.Registry
import DikeProtocol.Deployment
import DikeProtocol.Resolution.Statuses
import DikeProtocol.Resolution.Rewards
import DikeProtocol.Governance.Entry
import DikeProtocol.Governance.Timelock
import DikeProtocol.Governance.Discipline
import DikeProtocol.Resolution.Votes
import DikeProtocol.Resolution.Moves
import DikeProtocol.FeeManager
import DikeProtocol.Resolution.Council
import DikeProtocol.Vault.Bonds
import DikeProtocol.Resolution.Oracle
import DikeProtocol.Resolution.Steps
import DikeProtocol.Resolution.Reporting
import DikeProtocol.Resolution.Settlement
import DikeProtocol.Vault.Debt
import DikeProtocol.Tokens
import DikeProtocol.Tokens.Supply
import DikeProtocol.Vault.Entry
import DikeProtocol.Vault.Books
import DikeProtocol.Vault.Gauge
import DikeProtocol.Vault.Frame
import DikeProtocol.Vault.Sane
import DikeProtocol.Vault.Flow
import DikeProtocol.Vault.System
import DikeProtocol.Vault.Chains
import DikeProtocol.Vault.Ledgers
import DikeProtocol.Vault.Agreement
import DikeProtocol.Vault.Limits
import DikeProtocol.Vault.Isolation
import DikeProtocol.Vault.Unlent
import DikeProtocol.Vault.Splits
import DikeProtocol.Vault.Pools
import DikeProtocol.Vault.Orders
import DikeProtocol.Vault.Buckets
import DikeProtocol.Vault.Refunds
import DikeProtocol.Vault.Solvency
import DikeProtocol.Vault.Loans
import DikeProtocol.Vault.ChildLiquidation
import DikeProtocol.Vault.Falls
import DikeProtocol.Vault.Steps
import DikeProtocol.Amm.Entry
import DikeProtocol.Amm.Steps
import DikeProtocol.Amm.Quotes
import DikeProtocol.Amm.Roots
import DikeProtocol.Amm.Writes
import DikeProtocol.Vault.Holdings
import DikeProtocol.Vault.BondRuns
import DikeProtocol.Resolution.Court
import DikeProtocol.Resolution.BondLedger
import DikeProtocol.Trading.System
import DikeProtocol.Trading.Invariant
import DikeProtocol.Trading.Inventory
import DikeProtocol.Trading.Fills
import DikeProtocol.Trading.Shares
import DikeProtocol.Trading.LpFees
import DikeProtocol.Trading.Backing
import DikeProtocol.Trading.Calls
import DikeProtocol.Trading.Outflows
import DikeProtocol.Trading.Records
import DikeProtocol.Trading.Limits
import DikeProtocol.Trading.Encumbrance
import DikeProtocol.Trading.Positions
import DikeProtocol.Trading.WriteOffs
import DikeProtocol.Trading.Payout
import DikeProtocol.Trading.Exits
import DikeProtocol.Trading.Withdrawals
import DikeProtocol.Resolution.Lockstep
import DikeProtocol.Resolution.Standing
import DikeProtocol.Resolution.Progress
import DikeProtocol.Services.Codecs
import DikeProtocol.Services.EventSource
import DikeProtocol.Services.Worker
import DikeProtocol.Services.Lease
import DikeProtocol.Services.Reconciliation
import DikeProtocol.Services.Sponsorship
import DikeProtocol.Services.Replay
import DikeProtocol.Services.Quota
import DikeProtocol.Services.Admission
import DikeProtocol.Services.Migrations
import DikeProtocol.Factory.Counters
import DikeProtocol.Services.Decoding
import DikeProtocol.Services.Convergence
import DikeProtocol.Services.Projection
import DikeProtocol.Trading.Events
import DikeProtocol.Amm.Pricing
import DikeProtocol.Trading.Product
import DikeProtocol.Trading.Fairness
import DikeProtocol.Services.Prices
import DikeProtocol.Services.Amounts
import DikeProtocol.Resolution.Agenda
import DikeProtocol.Resolution.Calls
import DikeProtocol.Services.NextActions
import DikeProtocol.Vault.ParentLiquidation
import DikeProtocol.MockUsdc.Ledger
import DikeProtocol.Trading.Coalition
import DikeProtocol.Network.Custody
import DikeProtocol.Resolution.Provenance
import DikeProtocol.Services.Mirror
