import RewardLedger.Call
import RewardLedger.Dispatch
import RewardLedger.Failure.Basic
import RewardLedger.Failure.Fault
import RewardLedger.Failure.Issue
import RewardLedger.Handler
import RewardLedger.Http.Form
import RewardLedger.Http.Message
import RewardLedger.Http.Query
import RewardLedger.Http.Route
import RewardLedger.Http.Routes
import RewardLedger.Http.Server
import RewardLedger.Instant.Basic
import RewardLedger.Instant.Iso8601
import RewardLedger.Instant.Text
import RewardLedger.Instant.Timestamp
import RewardLedger.Ledger.Balance
import RewardLedger.Ledger.Config
import RewardLedger.Ledger.Entries
import RewardLedger.Ledger.Records
import RewardLedger.Ledger.Requests
import RewardLedger.Ledger.Rewards
import RewardLedger.Ledger.Users
import RewardLedger.Money
import RewardLedger.Number.Binary64
import RewardLedger.Number.Binary64Text
import RewardLedger.Number.Decimal
import RewardLedger.Number.DecimalContext
import RewardLedger.Number.DecimalText
import RewardLedger.Number.Digits
import RewardLedger.Number.IntText
import RewardLedger.Number.Order
import RewardLedger.Number.Rounding
import RewardLedger.Proofs.Accepted
import RewardLedger.Proofs.AppendOnly
import RewardLedger.Proofs.CreditCall
import RewardLedger.Proofs.Decided
import RewardLedger.Proofs.Dispatch.Again
import RewardLedger.Proofs.Dispatch.OneReward
import RewardLedger.Proofs.Dispatch.Reports
import RewardLedger.Proofs.Duplicate
import RewardLedger.Proofs.Fault
import RewardLedger.Proofs.Fingerprint
import RewardLedger.Proofs.Http.Browse
import RewardLedger.Proofs.Http.Calls
import RewardLedger.Proofs.Http.NewReward
import RewardLedger.Proofs.Http.Origin
import RewardLedger.Proofs.Http.Pages
import RewardLedger.Proofs.Http.Plain
import RewardLedger.Proofs.Http.Replies
import RewardLedger.Proofs.Instant.Calendar
import RewardLedger.Proofs.Instant.Text
import RewardLedger.Proofs.Ledger.Added
import RewardLedger.Proofs.Ledger.Answers
import RewardLedger.Proofs.Ledger.Balance
import RewardLedger.Proofs.Ledger.Books
import RewardLedger.Proofs.Ledger.ByAge
import RewardLedger.Proofs.Ledger.Commute
import RewardLedger.Proofs.Ledger.Crediting
import RewardLedger.Proofs.Ledger.Directory
import RewardLedger.Proofs.Ledger.Effect
import RewardLedger.Proofs.Ledger.ExactBalance
import RewardLedger.Proofs.Ledger.Impact
import RewardLedger.Proofs.Ledger.InTime
import RewardLedger.Proofs.Ledger.Keyed
import RewardLedger.Proofs.Ledger.Lifecycle
import RewardLedger.Proofs.Ledger.Lockstep
import RewardLedger.Proofs.Ledger.Outstanding
import RewardLedger.Proofs.Ledger.Paging
import RewardLedger.Proofs.Ledger.Pairs
import RewardLedger.Proofs.Ledger.Posting
import RewardLedger.Proofs.Ledger.Progress
import RewardLedger.Proofs.Ledger.Readable
import RewardLedger.Proofs.Ledger.Reading
import RewardLedger.Proofs.Ledger.Refusals
import RewardLedger.Proofs.Ledger.Reversal
import RewardLedger.Proofs.Ledger.RewardRows
import RewardLedger.Proofs.Ledger.Rows
import RewardLedger.Proofs.Ledger.Standing
import RewardLedger.Proofs.Ledger.Steps
import RewardLedger.Proofs.Ledger.Stored
import RewardLedger.Proofs.Ledger.Timed
import RewardLedger.Proofs.Ledger.Users
import RewardLedger.Proofs.Ledger.WellFormed
import RewardLedger.Proofs.Money
import RewardLedger.Proofs.NothingBehind
import RewardLedger.Proofs.Number.DecimalText
import RewardLedger.Proofs.Number.Digits
import RewardLedger.Proofs.Number.Fitted
import RewardLedger.Proofs.Number.HalfUp
import RewardLedger.Proofs.Number.Multiples
import RewardLedger.Proofs.Number.Order
import RewardLedger.Proofs.Number.Sum
import RewardLedger.Proofs.Operation
import RewardLedger.Proofs.Reading
import RewardLedger.Proofs.Recalled
import RewardLedger.Proofs.Replay
import RewardLedger.Proofs.Room
import RewardLedger.Proofs.Rounded
import RewardLedger.Proofs.Rule.Addresses
import RewardLedger.Proofs.Rule.Agreement
import RewardLedger.Proofs.Rule.Book
import RewardLedger.Proofs.Rule.CarriedOver
import RewardLedger.Proofs.Rule.Changing
import RewardLedger.Proofs.Rule.Comparison
import RewardLedger.Proofs.Rule.Engine
import RewardLedger.Proofs.Rule.Evaluation
import RewardLedger.Proofs.Rule.Grammar
import RewardLedger.Proofs.Rule.Laws
import RewardLedger.Proofs.Rule.Listing
import RewardLedger.Proofs.Rule.Malformed
import RewardLedger.Proofs.Rule.ReadBack
import RewardLedger.Proofs.Rule.Reading
import RewardLedger.Proofs.Rule.Script
import RewardLedger.Proofs.Rule.Spelling
import RewardLedger.Proofs.Rule.Submitted
import RewardLedger.Proofs.Rule.Untouched
import RewardLedger.Proofs.Rule.Versions
import RewardLedger.Proofs.Rule.Worlds
import RewardLedger.Proofs.Rule.Written
import RewardLedger.Proofs.Run
import RewardLedger.Proofs.Seeded
import RewardLedger.Proofs.Sorting
import RewardLedger.Proofs.Steady
import RewardLedger.Proofs.Store.Change
import RewardLedger.Proofs.Store.Index
import RewardLedger.Proofs.Store.Key
import RewardLedger.Proofs.Store.Orderly
import RewardLedger.Proofs.Store.Permanence
import RewardLedger.Proofs.Store.Restored
import RewardLedger.Proofs.Store.Rollback
import RewardLedger.Proofs.Store.Script
import RewardLedger.Proofs.Store.Stamps
import RewardLedger.Proofs.Store.Table
import RewardLedger.Proofs.Store.Unchanged
import RewardLedger.Proofs.Store.Unique
import RewardLedger.Proofs.Times
import RewardLedger.Proofs.TwiceRounded
import RewardLedger.Proofs.Untouched
import RewardLedger.Proofs.Uuid
import RewardLedger.Proofs.Validation
import RewardLedger.Proofs.Validity
import RewardLedger.Proofs.Value.Equality
import RewardLedger.Proofs.Value.Json
import RewardLedger.Proofs.Value.JsonString
import RewardLedger.Proofs.Value.Sendable
import RewardLedger.Proofs.Value.Unwritable
import RewardLedger.Proofs.Walk
import RewardLedger.Proofs.WellKept
import RewardLedger.Rule.Action
import RewardLedger.Rule.Basic
import RewardLedger.Rule.Book
import RewardLedger.Rule.Condition
import RewardLedger.Rule.ConditionReader
import RewardLedger.Rule.Engine
import RewardLedger.Rule.Evaluation
import RewardLedger.Rule.Path
import RewardLedger.Schema.Checked
import RewardLedger.Schema.Kinds
import RewardLedger.Script
import RewardLedger.Seed
import RewardLedger.Settings
import RewardLedger.Sha256
import RewardLedger.Status
import RewardLedger.Store.Basic
import RewardLedger.Store.Table
import RewardLedger.Tables
import RewardLedger.Text.Blank
import RewardLedger.Text.CharRange
import RewardLedger.Text.Digit
import RewardLedger.Text.Encoding
import RewardLedger.Text.Hex
import RewardLedger.Text.LowerCase
import RewardLedger.Text.Ordered
import RewardLedger.Text.Printable
import RewardLedger.Text.Quoted
import RewardLedger.Text.Surrogate
import RewardLedger.Text.Utf8
import RewardLedger.Uuid
import RewardLedger.Value.Arithmetic
import RewardLedger.Value.Basic
import RewardLedger.Value.Equality
import RewardLedger.Value.Json
import RewardLedger.Value.JsonText
import RewardLedger.Value.Order
import RewardLedger.Value.Pairs
import RewardLedger.Value.Sorting
import RewardLedger.Value.Text
import RewardLedger.World
