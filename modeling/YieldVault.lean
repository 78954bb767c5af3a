import YieldVault.Account
import YieldVault.Adapter
import YieldVault.Allocation
import YieldVault.Amount
import YieldVault.Batch
import YieldVault.Batch.Confirmation
import YieldVault.Batch.Encoder
import YieldVault.Batch.Packing
import YieldVault.Bytes
import YieldVault.Bytes.Base58
import YieldVault.Bytes.Base64
import YieldVault.Client
import YieldVault.Client.Rebalance
import YieldVault.Client.Scope
import YieldVault.Client.Transfer
import YieldVault.Decimal
import YieldVault.Deployment
import YieldVault.Deployment.Reader
import YieldVault.Error
import YieldVault.Hash.Curve
import YieldVault.Hash.Sha2
import YieldVault.Hash.XxHash
import YieldVault.Instruction
import YieldVault.Instruction.Tag
import YieldVault.Json
import YieldVault.Json.Decode
import YieldVault.Json.Reader
import YieldVault.Json.Tree
import YieldVault.Key
import YieldVault.Layout
import YieldVault.Ledger
import YieldVault.Movement
import YieldVault.Rate
import YieldVault.Record
import YieldVault.Record.Load
import YieldVault.Rpc.Commitment
import YieldVault.Rpc.Node
import YieldVault.Rpc.NodeAccount
import YieldVault.Rpc.TransactionFault
import YieldVault.Rpc.Version
import YieldVault.Script
import YieldVault.Script.Loop
import YieldVault.Service.Answer
import YieldVault.Service.App
import YieldVault.Service.Config
import YieldVault.Service.Form
import YieldVault.Service.MediaType
import YieldVault.Service.Message
import YieldVault.Service.Route
import YieldVault.Service.Schedule
import YieldVault.Settings
import YieldVault.Submission
import YieldVault.Text.Blank
import YieldVault.Text.Marks
import YieldVault.Text.Numeral
import YieldVault.Text.Percent
import YieldVault.Text.Quoted
import YieldVault.Text.Shortest
import YieldVault.Token
import YieldVault.Venue
import YieldVault.Weights
import YieldVault.Wide
import YieldVault.Zstd.Bits
import YieldVault.Zstd.Frame
import YieldVault.Zstd.Literals
import YieldVault.Zstd.PrefixCode
import YieldVault.Zstd.Sequences
import YieldVault.Zstd.StateTable
import YieldVault.Proofs.Liquidity
import YieldVault.Proofs.Amounts
import YieldVault.Proofs.Freeing
import YieldVault.Proofs.Dialogues
import YieldVault.Proofs.Digests
import YieldVault.Proofs.Layouts
import YieldVault.Proofs.Plans
import YieldVault.Proofs.Payout
import YieldVault.Proofs.Submissions
import YieldVault.Proofs.Courses
import YieldVault.Proofs.Readings
import YieldVault.Proofs.Questions
import YieldVault.Proofs.Reports
import YieldVault.Proofs.Lifecycles
import YieldVault.Proofs.Refusals
import YieldVault.Proofs.Instructions
import YieldVault.Proofs.Encodings
import YieldVault.Proofs.Sessions
import YieldVault.Proofs.Transactions
import YieldVault.Proofs.Commits
import YieldVault.Proofs.Recovery
import YieldVault.Proofs.Rebalances
import YieldVault.Proofs.Activities
import YieldVault.Proofs.Transfers
import YieldVault.Proofs.Snapshots
import YieldVault.Proofs.Moments
import YieldVault.Proofs.Shapes
import YieldVault.Proofs.Halts
import YieldVault.Proofs.Signers
import YieldVault.Proofs.Cuttings
import YieldVault.Proofs.Admissions
import YieldVault.Proofs.Exchange
import YieldVault.Proofs.Shrinking
import YieldVault.Proofs.Decimals
import YieldVault.Proofs.Differences
import YieldVault.Proofs.Distinctions
import YieldVault.Proofs.Weightings
import YieldVault.Proofs.Proposals
import YieldVault.Proofs.Spellings
import YieldVault.Proofs.Printings
import YieldVault.Proofs.Records
import YieldVault.Proofs.Listings
import YieldVault.Proofs.Passes
import YieldVault.Proofs.Wirings
import YieldVault.Proofs.Reversions
import YieldVault.Proofs.Codes
import YieldVault.Proofs.Operands
import YieldVault.Proofs.Rehearsals
import YieldVault.Proofs.Schedules
