import LocaleForge.Build.Interleaving
import LocaleForge.Main
import LocaleForge.Proofs.Agreement
import LocaleForge.Proofs.Ancestors
import LocaleForge.Proofs.Answers
import LocaleForge.Proofs.Arrangement
import LocaleForge.Proofs.Asking
import LocaleForge.Proofs.Attempts
import LocaleForge.Proofs.Barrier
import LocaleForge.Proofs.Blind
import LocaleForge.Proofs.BuiltTests
import LocaleForge.Proofs.Calls
import LocaleForge.Proofs.Canonical
import LocaleForge.Proofs.Cleaning
import LocaleForge.Proofs.Composition
import LocaleForge.Proofs.Concord
import LocaleForge.Proofs.Correspondence
import LocaleForge.Proofs.CustomRun
import LocaleForge.Proofs.Deposits
import LocaleForge.Proofs.Directories
import LocaleForge.Proofs.Discovery
import LocaleForge.Proofs.Dropping
import LocaleForge.Proofs.EntryLines
import LocaleForge.Proofs.Finding
import LocaleForge.Proofs.FormatRun
import LocaleForge.Proofs.Framing
import LocaleForge.Proofs.Growth
import LocaleForge.Proofs.HeaderCache
import LocaleForge.Proofs.Headerless
import LocaleForge.Proofs.Heading
import LocaleForge.Proofs.Hoisting
import LocaleForge.Proofs.Identifiers
import LocaleForge.Proofs.Inputs
import LocaleForge.Proofs.Interleaved
import LocaleForge.Proofs.Interrupted
import LocaleForge.Proofs.JobEnds
import LocaleForge.Proofs.JoinedTests
import LocaleForge.Proofs.Joining
import LocaleForge.Proofs.Layout
import LocaleForge.Proofs.Leftovers
import LocaleForge.Proofs.Limits
import LocaleForge.Proofs.LinkFree
import LocaleForge.Proofs.Listing
import LocaleForge.Proofs.Loading
import LocaleForge.Proofs.Locations
import LocaleForge.Proofs.Matching
import LocaleForge.Proofs.Mirror
import LocaleForge.Proofs.Moves
import LocaleForge.Proofs.NameLists
import LocaleForge.Proofs.NamedFiles
import LocaleForge.Proofs.Outputs
import LocaleForge.Proofs.OwnSessions
import LocaleForge.Proofs.Parallels
import LocaleForge.Proofs.Patterns
import LocaleForge.Proofs.Payloads
import LocaleForge.Proofs.Placing
import LocaleForge.Proofs.ProjectRoots
import LocaleForge.Proofs.Reading
import LocaleForge.Proofs.Realm
import LocaleForge.Proofs.Registering
import LocaleForge.Proofs.Relative
import LocaleForge.Proofs.ReleaseLeftovers
import LocaleForge.Proofs.ReleaseReports
import LocaleForge.Proofs.ReleaseRun
import LocaleForge.Proofs.Removal
import LocaleForge.Proofs.RenderedJson
import LocaleForge.Proofs.Requests
import LocaleForge.Proofs.Resolution
import LocaleForge.Proofs.Safety
import LocaleForge.Proofs.Schedules
import LocaleForge.Proofs.Sections
import LocaleForge.Proofs.Sequence
import LocaleForge.Proofs.Sessions
import LocaleForge.Proofs.Setting
import LocaleForge.Proofs.Settled
import LocaleForge.Proofs.Sharing
import LocaleForge.Proofs.Sources
import LocaleForge.Proofs.StageRuns
import LocaleForge.Proofs.StagingArea
import LocaleForge.Proofs.Steering
import LocaleForge.Proofs.Success
import LocaleForge.Proofs.Telling
import LocaleForge.Proofs.Traces
import LocaleForge.Proofs.Turns
import LocaleForge.Proofs.Walk
import LocaleForge.Proofs.Waves
import LocaleForge.Proofs.Writing
import LocaleForge.Proofs.WrittenLines
