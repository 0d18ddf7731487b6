import CacheUpkeep.Action
import CacheUpkeep.Calendar.Date
import CacheUpkeep.Calendar.Instant
import CacheUpkeep.Calendar.Timestamp
import CacheUpkeep.Capacity
import CacheUpkeep.Ci.Error
import CacheUpkeep.Ci.Hooks
import CacheUpkeep.Command.Basic
import CacheUpkeep.Command.Host
import CacheUpkeep.Command.Scripted
import CacheUpkeep.CommandLine.Arguments
import CacheUpkeep.CommandLine.Description
import CacheUpkeep.CommandLine.LogFilter
import CacheUpkeep.CommandLine.LogPattern
import CacheUpkeep.CommandLine.LogText
import CacheUpkeep.CommandLine.Run
import CacheUpkeep.ConanConf.Basic
import CacheUpkeep.ConanConf.Update
import CacheUpkeep.Config.Context
import CacheUpkeep.Config.Effective
import CacheUpkeep.Config.Layer
import CacheUpkeep.Config.Settings
import CacheUpkeep.Digest.Sha256
import CacheUpkeep.Doctor.Checks
import CacheUpkeep.Doctor.Issue
import CacheUpkeep.Doctor.Project
import CacheUpkeep.Doctor.Version
import CacheUpkeep.FileSystem.Basic
import CacheUpkeep.FileSystem.Edit
import CacheUpkeep.FileSystem.Error
import CacheUpkeep.FileSystem.Image
import CacheUpkeep.FileSystem.Resolve
import CacheUpkeep.FileSystem.Survey
import CacheUpkeep.Json.Misfit
import CacheUpkeep.Json.Numeral
import CacheUpkeep.Json.Syntax
import CacheUpkeep.Json.Value
import CacheUpkeep.Json.Writer
import CacheUpkeep.Lock.Acquire
import CacheUpkeep.Lock.Basic
import CacheUpkeep.Lock.Wait
import CacheUpkeep.Machine
import CacheUpkeep.Main
import CacheUpkeep.Number.Binary64
import CacheUpkeep.Number.Layout
import CacheUpkeep.Number.Limits
import CacheUpkeep.Number.ShortestDecimal
import CacheUpkeep.Path
import CacheUpkeep.Platform
import CacheUpkeep.Prune.Backend
import CacheUpkeep.Prune.ClangTidy
import CacheUpkeep.Prune.Conan
import CacheUpkeep.Prune.Error
import CacheUpkeep.Prune.Report
import CacheUpkeep.Retention
import CacheUpkeep.RunnerStorage
import CacheUpkeep.Shell.Arithmetic
import CacheUpkeep.Shell.Builtin
import CacheUpkeep.Shell.Builtin.Basic
import CacheUpkeep.Shell.Builtin.Directories
import CacheUpkeep.Shell.Builtin.Input
import CacheUpkeep.Shell.Builtin.Names
import CacheUpkeep.Shell.Builtin.Signals
import CacheUpkeep.Shell.Builtin.Variables
import CacheUpkeep.Shell.Condition
import CacheUpkeep.Shell.Escape
import CacheUpkeep.Shell.Evaluate
import CacheUpkeep.Shell.Expand
import CacheUpkeep.Shell.Field
import CacheUpkeep.Shell.Format
import CacheUpkeep.Shell.Glob
import CacheUpkeep.Shell.Grammar
import CacheUpkeep.Shell.Mask
import CacheUpkeep.Shell.Native
import CacheUpkeep.Shell.Octets
import CacheUpkeep.Shell.Pattern
import CacheUpkeep.Shell.Program
import CacheUpkeep.Shell.Redirect
import CacheUpkeep.Shell.Run
import CacheUpkeep.Shell.Session
import CacheUpkeep.Shell.Signal
import CacheUpkeep.Shell.Startup
import CacheUpkeep.Shell.State
import CacheUpkeep.Shell.Syntax
import CacheUpkeep.Shell.Token
import CacheUpkeep.Shell.WordReader
import CacheUpkeep.Store.Entry
import CacheUpkeep.Store.Layout
import CacheUpkeep.Store.Prune
import CacheUpkeep.Text.Blank
import CacheUpkeep.Text.Decimal
import CacheUpkeep.Text.Hidden
import CacheUpkeep.Text.Letters
import CacheUpkeep.Text.Lines
import CacheUpkeep.Text.Quoted
import CacheUpkeep.Text.Runs
import CacheUpkeep.Text.Utf8
import CacheUpkeep.Toml.Marked
import CacheUpkeep.Toml.Reader
import CacheUpkeep.Toml.Table
import CacheUpkeep.Toml.Value
import CacheUpkeep.Proofs.FileSystem.Removal
import CacheUpkeep.Proofs.Outcome
import CacheUpkeep.Proofs.FileSystem.Lookup
import CacheUpkeep.Proofs.Store.Tree
import CacheUpkeep.Proofs.Store.Scan
import CacheUpkeep.Proofs.Store.Places
import CacheUpkeep.Proofs.FileSystem.Size
import CacheUpkeep.Proofs.Store.Selection
import CacheUpkeep.Proofs.Store.Order
import CacheUpkeep.Proofs.Store.Rescan
import CacheUpkeep.Proofs.Store.Steps
import CacheUpkeep.Proofs.Store.Prediction
import CacheUpkeep.Proofs.Store.Effect
import CacheUpkeep.Proofs.Calendar.LeapSeconds
import CacheUpkeep.Proofs.Calendar.Timestamp
import CacheUpkeep.Proofs.Json.Strings
import CacheUpkeep.Proofs.Store.Metadata
import CacheUpkeep.Proofs.Store.Exact
import CacheUpkeep.Proofs.Store.DryRun
import CacheUpkeep.Proofs.Store.Spared
import CacheUpkeep.Proofs.Store.Retention
import CacheUpkeep.Proofs.FileSystem.Descent
import CacheUpkeep.Proofs.FileSystem.Growth
import CacheUpkeep.Proofs.Store.Put
import CacheUpkeep.Proofs.FileSystem.Opening
import CacheUpkeep.Proofs.FileSystem.Unlinking
import CacheUpkeep.Proofs.Lock.LockFile
import CacheUpkeep.Proofs.Lock.Jobs
import CacheUpkeep.Proofs.Lock.Exclusion
import CacheUpkeep.Proofs.Store.Ending
import CacheUpkeep.Proofs.Store.Shrinking
import CacheUpkeep.Proofs.Store.Faults
import CacheUpkeep.Proofs.Store.Failing
import CacheUpkeep.Proofs.Store.Containment
import CacheUpkeep.Proofs.Store.Remainder
import CacheUpkeep.Proofs.Store.Reselection
import CacheUpkeep.Proofs.Store.Ageing
import CacheUpkeep.Proofs.Store.Resumption
import CacheUpkeep.Proofs.Json.Members
import CacheUpkeep.Proofs.Config.Precedence
import CacheUpkeep.Proofs.Retention
import CacheUpkeep.Proofs.Config.Settings
import CacheUpkeep.Proofs.Config.Flags
import CacheUpkeep.Proofs.Command.Calls
import CacheUpkeep.Proofs.Prune.Conan
import CacheUpkeep.Proofs.Lock.Bracket
import CacheUpkeep.Proofs.RunnerStorage
import CacheUpkeep.Proofs.Path.Ways
import CacheUpkeep.Proofs.RunnerStorage.Discovery
import CacheUpkeep.Proofs.RunnerStorage.Groups
import CacheUpkeep.Proofs.Ci.Clashes
import CacheUpkeep.Proofs.Ci.Configured
import CacheUpkeep.Proofs.Ci.Storages
import CacheUpkeep.Proofs.Pieces
import CacheUpkeep.Proofs.Store.Pieces
import CacheUpkeep.Proofs.Lock.Crew
import CacheUpkeep.Proofs.Lock.Serial
import CacheUpkeep.Proofs.Store.Expendable
import CacheUpkeep.Proofs.Store.LockFile
import CacheUpkeep.Proofs.Store.LockedPrunes
import CacheUpkeep.Proofs.Text.Lines
import CacheUpkeep.Proofs.ConanConf.Entries
import CacheUpkeep.Proofs.ConanConf.RoundTrip
import CacheUpkeep.Proofs.FileSystem.Ways
import CacheUpkeep.Proofs.FileSystem.Writing
import CacheUpkeep.Proofs.Retention.Ages
import CacheUpkeep.Proofs.Store.Recency
import CacheUpkeep.Proofs.Store.MetadataFile
import CacheUpkeep.Proofs.Retention.Grammar
import CacheUpkeep.Proofs.ConanConf.Settings
import CacheUpkeep.Proofs.Prune.ClangTidy
import CacheUpkeep.Proofs.FileSystem.ListingOrder
import CacheUpkeep.Proofs.Store.ListingOrder
import CacheUpkeep.Proofs.Doctor.Version
import CacheUpkeep.Proofs.Json.Readable
import CacheUpkeep.Proofs.Doctor.Login
import CacheUpkeep.Proofs.Json.Containers
import CacheUpkeep.Proofs.Lock.Wait
import CacheUpkeep.Proofs.Command.Script
