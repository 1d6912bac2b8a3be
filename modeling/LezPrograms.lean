import LezPrograms.Checked
import LezPrograms.FlooredPower
import LezPrograms.Stablecoin.Math
import LezPrograms.Stablecoin.Compounding
import LezPrograms.Stablecoin.Saturation
import LezPrograms.Stablecoin.Controller
import LezPrograms.Lee.Account
import LezPrograms.Token.Core
import LezPrograms.Token.Program
import LezPrograms.Token.Step
import LezPrograms.Lee.Identifier
import LezPrograms.Amm.Core
import LezPrograms.Stablecoin.State
import LezPrograms.TwapOracle.Core
import LezPrograms.Lee.Platform
import LezPrograms.Stablecoin.Checks
import LezPrograms.TwapOracle.Program
import LezPrograms.Stablecoin.Pokes
import LezPrograms.Stablecoin.Positions
import LezPrograms.Stablecoin.Admin
import LezPrograms.Stablecoin.Program
import LezPrograms.Amm.Pools
import LezPrograms.Amm.Liquidity
import LezPrograms.Amm.Program
import LezPrograms.Lee.Runtime
import LezPrograms.Token.Effects
import LezPrograms.Stablecoin.Reading
import LezPrograms.Stablecoin.Step
import LezPrograms.Lee.Invocation
import LezPrograms.Amm.Step
import LezPrograms.Token.Balances
import LezPrograms.Stablecoin.Ledger
import LezPrograms.Stablecoin.Records
import LezPrograms.Stablecoin.Bounds
import LezPrograms.Stablecoin.Instance
import LezPrograms.Stablecoin.Refinement
import LezPrograms.Stablecoin.Reachable
import LezPrograms.Stablecoin.Backing
import LezPrograms.Stablecoin.NormalizedDebt
import LezPrograms.Stablecoin.Collateralization
import LezPrograms.Stablecoin.Projections
import LezPrograms.Stablecoin.Overflow
import LezPrograms.Stablecoin.Vaults
import LezPrograms.Stablecoin.Governance
import LezPrograms.Token.Conservation
import LezPrograms.TwapOracle.Observations
import LezPrograms.RingBuffer
import LezPrograms.StepFunction
import LezPrograms.TwapOracle.Log
import LezPrograms.TwapOracle.Average
import LezPrograms.TwapOracle.Drift
import LezPrograms.TwapOracle.Step
import LezPrograms.TwapOracle.Feed
import LezPrograms.TwapOracle.Publications
import LezPrograms.Lee.Footprint
import LezPrograms.Stablecoin.Transactions
import LezPrograms.Stablecoin.Frozen
import LezPrograms.Stablecoin.Founding
import LezPrograms.Stablecoin.Refresh
import LezPrograms.Stablecoin.Neutral
import LezPrograms.Token.Credits
import LezPrograms.Stablecoin.Squatting
import LezPrograms.ConstantProduct
import LezPrograms.Token.Flows
import LezPrograms.Stablecoin.Repayable
import LezPrograms.FlooredPowerError
import LezPrograms.Stablecoin.Cadence
import LezPrograms.Token.Editions
import LezPrograms.Lee.Executions
import LezPrograms.Token.Authority
import LezPrograms.TwapOracle.Recording
import LezPrograms.TwapOracle.Sentinel
import LezPrograms.Amm.Moves
import LezPrograms.Amm.Accounts
import LezPrograms.Amm.Operations
import LezPrograms.Amm.Sound
import LezPrograms.Amm.Reachable
import LezPrograms.Amm.ShareValue
import LezPrograms.Token.Deposits
import LezPrograms.Amm.Solvency
import LezPrograms.Amm.LpShares
import LezPrograms.Amm.Custody
import LezPrograms.Ata.Core
import LezPrograms.Lee.Machine
import LezPrograms.Lee.OpenPlatform
import LezPrograms.Ata.Program
import LezPrograms.Ata.Custody
import LezPrograms.Spacing
import LezPrograms.TokenMintAuthority.Program
import LezPrograms.TokenMintAuthority.RateLimit
import LezPrograms.FlooredPowerGrowth
import LezPrograms.Stablecoin.Waiting
import LezPrograms.Stablecoin.Anchoring
import LezPrograms.Stablecoin.Feedback
import LezPrograms.Stablecoin.Quotes
import LezPrograms.Amm.Pricing
import LezPrograms.Amm.Dilution
import LezPrograms.TwapOracle.Reports
import LezPrograms.Amm.Tick
import LezPrograms.Amm.Bindings
import LezPrograms.Token.Completion
import LezPrograms.TwapOracle.SquareRoot
import LezPrograms.Amm.Service
import LezPrograms.Amm.Completion
import LezPrograms.Amm.Acceptance
import LezPrograms.Amm.Shares
import LezPrograms.Amm.Maxima
import LezPrograms.AmmClient.Requests
import LezPrograms.AmmClient.Swap
import LezPrograms.AmmClient.Agreement
import LezPrograms.AmmClient.Liquidity
import LezPrograms.AmmClient.LiquidityAgreement
import LezPrograms.Amm.Exchange
import LezPrograms.TwapOracle.Conversion
import LezPrograms.AmmClient.Opening
import LezPrograms.StablecoinClient.Requests
import LezPrograms.StablecoinClient.Plans
import LezPrograms.Stablecoin.Completion
import LezPrograms.StablecoinClient.Execution
import LezPrograms.Amm.Availability
import LezPrograms.Borsh
import LezPrograms.Token.Encoding
import LezPrograms.Token.Ambiguity
import LezPrograms.Token.Exclusion
import LezPrograms.TwapOracle.Identity
import LezPrograms.Amm.Registration
import LezPrograms.Amm.Feeds
import LezPrograms.Locality
import LezPrograms.Lee.AccessLists
import LezPrograms.Lee.Independence
import LezPrograms.Lee.Histories
import LezPrograms.Token.Statements
import LezPrograms.Lee.Identity
import LezPrograms.Stablecoin.Tenure
import LezPrograms.Stablecoin.Exit
import LezPrograms.Amm.Terms
import LezPrograms.StablecoinClient.Pokes
import LezPrograms.StablecoinClient.Poking
import LezPrograms.StablecoinClient.Health
import LezPrograms.Stablecoin.Setters
import LezPrograms.StablecoinClient.Administration
import LezPrograms.StablecoinClient.Settlement
import LezPrograms.AmmClient.SwapPlans
