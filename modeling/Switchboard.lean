import Switchboard.Address
import Switchboard.Broadcaster
import Switchboard.Calls.Dispatch
import Switchboard.Calls.Method
import Switchboard.Calls.Registry
import Switchboard.Calls.Routine
import Switchboard.CommandLine
import Switchboard.Crud.Service
import Switchboard.Crud.Shelf
import Switchboard.Daemon
import Switchboard.Decimal
import Switchboard.Decode
import Switchboard.Double
import Switchboard.Error
import Switchboard.ErrorSpec
import Switchboard.Events.Event
import Switchboard.Events.Source
import Switchboard.Events.Subscription
import Switchboard.Hub.Client
import Switchboard.Hub.Keeper
import Switchboard.Hub.Schedule
import Switchboard.Hub.State
import Switchboard.Hub.Step
import Switchboard.Jobs.Board
import Switchboard.Jobs.Snapshot
import Switchboard.Jobs.State
import Switchboard.Jobs.Table
import Switchboard.Json
import Switchboard.JsonText
import Switchboard.Log
import Switchboard.LogStyle
import Switchboard.Main
import Switchboard.Pattern.Basic
import Switchboard.Pattern.CharSet
import Switchboard.Pattern.Engine
import Switchboard.Pattern.Reader
import Switchboard.PatternReader
import Switchboard.Plugins
import Switchboard.Proofs.Calls.Common
import Switchboard.Proofs.Calls.Entries
import Switchboard.Proofs.Calls.Heeding
import Switchboard.Proofs.Calls.Hooks
import Switchboard.Proofs.Calls.Lawful
import Switchboard.Proofs.Calls.Panics
import Switchboard.Proofs.Calls.Refusals
import Switchboard.Proofs.Calls.Registration
import Switchboard.Proofs.Calls.Traces
import Switchboard.Proofs.Calls.Trees
import Switchboard.Proofs.Events.Fanout
import Switchboard.Proofs.Events.Rounds
import Switchboard.Proofs.Hub.Accounts
import Switchboard.Proofs.Hub.Admission
import Switchboard.Proofs.Hub.Answers
import Switchboard.Proofs.Hub.Attribution
import Switchboard.Proofs.Hub.Books
import Switchboard.Proofs.Hub.Calm
import Switchboard.Proofs.Hub.Chronicle
import Switchboard.Proofs.Hub.Crew
import Switchboard.Proofs.Hub.Descent
import Switchboard.Proofs.Hub.Feeds
import Switchboard.Proofs.Hub.Guards
import Switchboard.Proofs.Hub.Isolation
import Switchboard.Proofs.Hub.Lives
import Switchboard.Proofs.Hub.Numbers
import Switchboard.Proofs.Hub.Readers
import Switchboard.Proofs.Hub.Starts
import Switchboard.Proofs.Hub.Strokes
import Switchboard.Proofs.Hub.Waits
import Switchboard.Proofs.Jobs.Aborts
import Switchboard.Proofs.Jobs.Advance
import Switchboard.Proofs.Jobs.Bodies
import Switchboard.Proofs.Jobs.Cancellation
import Switchboard.Proofs.Jobs.Closings
import Switchboard.Proofs.Jobs.Coherence
import Switchboard.Proofs.Jobs.Courses
import Switchboard.Proofs.Jobs.Deeds
import Switchboard.Proofs.Jobs.Encounters
import Switchboard.Proofs.Jobs.Endings
import Switchboard.Proofs.Jobs.Exhibits
import Switchboard.Proofs.Jobs.Folding
import Switchboard.Proofs.Jobs.Handover
import Switchboard.Proofs.Jobs.Headway
import Switchboard.Proofs.Jobs.Independence
import Switchboard.Proofs.Jobs.Ledger
import Switchboard.Proofs.Jobs.Lives
import Switchboard.Proofs.Jobs.Orderly
import Switchboard.Proofs.Jobs.Partings
import Switchboard.Proofs.Jobs.Percents
import Switchboard.Proofs.Jobs.Remembers
import Switchboard.Proofs.Jobs.Replica
import Switchboard.Proofs.Jobs.Retention
import Switchboard.Proofs.Jobs.Roll
import Switchboard.Proofs.Jobs.Runs
import Switchboard.Proofs.Jobs.Shutdown
import Switchboard.Proofs.Jobs.Sound
import Switchboard.Proofs.Jobs.Telling
import Switchboard.Proofs.Jobs.Vigils
import Switchboard.Proofs.Jobs.Workshop
import Switchboard.Proofs.Numbers.Comparisons
import Switchboard.Proofs.Numbers.Quotients
import Switchboard.Proofs.Numbers.Rounding
import Switchboard.Proofs.Numbers.Spellings
import Switchboard.Proofs.Query.Algebra
import Switchboard.Proofs.Query.Arguments
import Switchboard.Proofs.Query.Grammar
import Switchboard.Proofs.Query.Instances
import Switchboard.Proofs.Query.Modes
import Switchboard.Proofs.Query.Options
import Switchboard.Proofs.Query.Pages
import Switchboard.Proofs.Query.Ranges
import Switchboard.Proofs.Query.Selection
import Switchboard.Proofs.Query.Sorting
import Switchboard.Proofs.Reporting.Overflows
import Switchboard.Proofs.Reporting.Processors
import Switchboard.Proofs.Reporting.Samples
import Switchboard.Proofs.Reporting.Texts
import Switchboard.Proofs.Reporting.Usage
import Switchboard.Proofs.Schema.Addresses
import Switchboard.Proofs.Schema.Cleaning
import Switchboard.Proofs.Schema.Conformance
import Switchboard.Proofs.Schema.Relaxing
import Switchboard.Proofs.Schema.Reports
import Switchboard.Proofs.Schema.Stability
import Switchboard.Proofs.Schema.Updates
import Switchboard.Query.Compare
import Switchboard.Query.Filter
import Switchboard.Query.Options
import Switchboard.Query.Path
import Switchboard.Query.Run
import Switchboard.Quoted
import Switchboard.Remote.Request
import Switchboard.Remote.Stream
import Switchboard.Reporting.Counters
import Switchboard.Reporting.Realtime
import Switchboard.Schema.Clean
import Switchboard.Schema.FieldError
import Switchboard.Schema.Param
import Switchboard.Schema.Validator
import Switchboard.Script.Basic
import Switchboard.Script.Run
import Switchboard.Settings
import Switchboard.SettingsText
import Switchboard.Toml.Document
import Switchboard.Toml.Reader
import Switchboard.Unicode.Case
import Switchboard.Unicode.CaseTable
import Switchboard.Unicode.Category
import Switchboard.Unicode.CategoryTable
