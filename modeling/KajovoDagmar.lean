import KajovoDagmar.Library.Runs
import KajovoDagmar.Library.Table
import KajovoDagmar.Library.Transaction
import KajovoDagmar.Library.TwoRuns
import KajovoDagmar.Library.PythonText
import KajovoDagmar.Library.Json
import KajovoDagmar.Library.Sha256
import KajovoDagmar.Library.JsonText
import KajovoDagmar.Library.HashChain
import KajovoDagmar.Library.AppendLog
import KajovoDagmar.Errors
import KajovoDagmar.Types
import KajovoDagmar.Db.Models
import KajovoDagmar.Providers.Contracts
import KajovoDagmar.Db.Session
import KajovoDagmar.Audit.Service
import KajovoDagmar.Memory.Schemas
import KajovoDagmar.Memory.Service
import KajovoDagmar.History.Service
import KajovoDagmar.Conversations.Service
import KajovoDagmar.Orchestration.Contracts
import KajovoDagmar.Orchestration.Prompts
import KajovoDagmar.Orchestration.Context
import KajovoDagmar.Orchestration.Actions
import KajovoDagmar.Memory.Effects
import KajovoDagmar.History.Effects
import KajovoDagmar.Orchestration.Effects
import KajovoDagmar.Orchestration.Atomicity
import KajovoDagmar.Db.Sample
import KajovoDagmar.Audit.Chain
import KajovoDagmar.Audit.Transactions
import KajovoDagmar.Orchestration.Service
import KajovoDagmar.Orchestration.Proposals
import KajovoDagmar.Conversations.Numbering
import KajovoDagmar.Conversations.Outbox
import KajovoDagmar.Library.ReadCommitted
import KajovoDagmar.Library.SkipLocked
import KajovoDagmar.Library.LockedRows
import KajovoDagmar.Library.Connection
import KajovoDagmar.Identity.Service
import KajovoDagmar.Identity.Passwords
import KajovoDagmar.Identity.Sessions
import KajovoDagmar.Identity.Lifetimes
import KajovoDagmar.Orchestration.Requests
import KajovoDagmar.Orchestration.Outcomes
import KajovoDagmar.Jobs.Service
import KajovoDagmar.Worker
import KajovoDagmar.Worker.Finalization
import KajovoDagmar.Orchestration.Calls
import KajovoDagmar.Orchestration.Agreement
import KajovoDagmar.Orchestration.Answers
import KajovoDagmar.Orchestration.Anchors
import KajovoDagmar.Orchestration.Retries
import KajovoDagmar.Orchestration.Previews
import KajovoDagmar.Orchestration.Confirmations
import KajovoDagmar.Orchestration.Locks
import KajovoDagmar.Orchestration.Targets
import KajovoDagmar.Orchestration.Cancellations
import KajovoDagmar.Orchestration.Overlaps
import KajovoDagmar.Library.VersionLedger
import KajovoDagmar.Memory.Locked
import KajovoDagmar.Memory.Revisions
import KajovoDagmar.Memory.Ledger
import KajovoDagmar.Memory.Edits
import KajovoDagmar.Memory.Live
import KajovoDagmar.Conversations.Closing
import KajovoDagmar.Conversations.Counting
import KajovoDagmar.Files.Service
import KajovoDagmar.Worker.Retention
import KajovoDagmar.Worker.Deadlines
import KajovoDagmar.Worker.Exports
import KajovoDagmar.Worker.Dispatch
import KajovoDagmar.Deployment.BackupAgent
import KajovoDagmar.Deployment.BackupJobs
import KajovoDagmar.Library.JsonParser
import KajovoDagmar.Library.JsonIndent
import KajovoDagmar.Library.TextLines
import KajovoDagmar.Library.JsonReads
import KajovoDagmar.Library.Markdown
import KajovoDagmar.Library.Base64
import KajovoDagmar.Security.Crypto
import KajovoDagmar.Providers.ModelRoles
import KajovoDagmar.Providers.Service
import KajovoDagmar.Notifications.Service
import KajovoDagmar.Providers.Secrets
import KajovoDagmar.Providers.Catalogue
import KajovoDagmar.Providers.Recommendations
import KajovoDagmar.Providers.Binding
import KajovoDagmar.Settings.Catalog
import KajovoDagmar.Settings.Service
import KajovoDagmar.Settings.Selection
import KajovoDagmar.Settings.Ledger
import KajovoDagmar.Worker.Indexing
import KajovoDagmar.Settings.Invalidation
import KajovoDagmar.Security.VoiceService
import KajovoDagmar.Conversations.UserTurns
import KajovoDagmar.Library.PythonFormat
import KajovoDagmar.Library.JsonLines
import KajovoDagmar.Orchestration.Bundles
import KajovoDagmar.Orchestration.Sections
import KajovoDagmar.Orchestration.Manifests
import KajovoDagmar.Orchestration.Provenance
import KajovoDagmar.Identity.Throttling
import KajovoDagmar.Identity.Tokens
import KajovoDagmar.Identity.TokenLocks
import KajovoDagmar.Library.Observed
import KajovoDagmar.Identity.SingleUse
import KajovoDagmar.Identity.Initialization
import KajovoDagmar.Identity.Addresses
import KajovoDagmar.Identity.LiveTokens
import KajovoDagmar.Library.TrailingRun
import KajovoDagmar.Realtime.Vad
import KajovoDagmar.Realtime.Protocol
import KajovoDagmar.Audio.Recorder
import KajovoDagmar.Memory.Restoring
import KajovoDagmar.Library.Asyncio
import KajovoDagmar.Library.RelyGuarantee
import KajovoDagmar.Library.Journal
import KajovoDagmar.Realtime.Connection
import KajovoDagmar.Realtime.WebSocket
import KajovoDagmar.Realtime.Turns
import KajovoDagmar.Realtime.Rounds
import KajovoDagmar.Realtime.Sample
import KajovoDagmar.Realtime.CaptureClock
import KajovoDagmar.Realtime.Buffer
import KajovoDagmar.Realtime.Assistant
import KajovoDagmar.Realtime.Numbering
import KajovoDagmar.Audio.VoiceClient
import KajovoDagmar.Realtime.Exchange
import KajovoDagmar.Realtime.Restart
import KajovoDagmar.Realtime.Growth
import KajovoDagmar.Realtime.Resumption
import KajovoDagmar.Library.Custody
import KajovoDagmar.Realtime.Registry
import KajovoDagmar.Realtime.Suspensions
import KajovoDagmar.Providers.Preferences
import KajovoDagmar.Library.PythonWords
import KajovoDagmar.Memory.Spellings
import KajovoDagmar.Memory.Searching
import KajovoDagmar.Memory.Secrets
import KajovoDagmar.Library.TopRows
import KajovoDagmar.Library.SqlText
import KajovoDagmar.Library.RankFusion
import KajovoDagmar.Search.Service
import KajovoDagmar.Api.Operations
import KajovoDagmar.Settings.Restoring
import KajovoDagmar.Library.Scan
import KajovoDagmar.Providers.OpenAICompatible
import KajovoDagmar.Worker.JobCycle
import KajovoDagmar.Library.Budget
import KajovoDagmar.Library.PairSplit
import KajovoDagmar.Library.TextDecoder
import KajovoDagmar.Orchestration.Window
import KajovoDagmar.Audit.Sanitizing
import KajovoDagmar.Web.EventStream
import KajovoDagmar.Library.Keyset
import KajovoDagmar.Api.AuditList
import KajovoDagmar.Identity.Recovery
import KajovoDagmar.Library.EditChain
import KajovoDagmar.Conversations.Corrections
import KajovoDagmar.Worker.Reindexing
import KajovoDagmar.Files.Markdown
