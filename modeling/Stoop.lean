import Stoop.Lib.Machine
import Stoop.Lib.Json
import Stoop.Lib.Keyed
import Stoop.Lib.Indexed
import Stoop.Lib.Replica
import Stoop.Lib.Base64
import Stoop.Lib.Recency
import Stoop.Lib.Sorted
import Stoop.Jobs.Table
import Stoop.Jobs.Dispatch
import Stoop.Jobs.Leases
import Stoop.Jobs.Attempts
import Stoop.Jobs.Lanes
import Stoop.Jobs.Caps
import Stoop.Jobs.Serial
import Stoop.Jobs.Accounting
import Stoop.Jobs.Inflight
import Stoop.Jobs.Handoff
import Stoop.Accounts.Admins
import Stoop.Accounts.Identities
import Stoop.Activity.Feed
import Stoop.Channel.Views
import Stoop.Channel.Log
import Stoop.Channel.Events
import Stoop.Channel.Server
import Stoop.Channel.Timeline
import Stoop.Channel.World
import Stoop.Channel.Convergence
import Stoop.Channel.Reconnect
import Stoop.Channel.Dropped
import Stoop.Channel.Deletions
import Stoop.Instance.SignIn
import Stoop.Lib.Bucket
import Stoop.Kv.Memory
import Stoop.Kv.Promises
import Stoop.Kv.Limiter
import Stoop.Kv.Allowed
import Stoop.Messages.Tables
import Stoop.Messages.World
import Stoop.Messages.Threads
import Stoop.Messages.Changes
import Stoop.Messages.Cutoff
import Stoop.Messages.Sweep
import Stoop.Realtime.Voice
import Stoop.Realtime.Presence
import Stoop.Realtime.Subscription
import Stoop.Markdown.Chars
import Stoop.Markdown.Tokens
import Stoop.Markdown.Server
import Stoop.Markdown.Client
import Stoop.Markdown.Tree
import Stoop.Markdown.Scans
import Stoop.Markdown.Laws
import Stoop.Markdown.Agreement
import Stoop.Markdown.Blocks
import Stoop.Markdown.Parsers
import Stoop.Markdown.Links
import Stoop.Spaces.Invites
import Stoop.Spaces.Members
import Stoop.Spaces.Owners
import Stoop.Spaces.Bans
import Stoop.Relay.Payloads
import Stoop.Relay.Assembler
import Stoop.Lib.Commits
import Stoop.Alerts.Tables
import Stoop.Alerts.Writes
import Stoop.Alerts.Reads
import Stoop.Lib.Settle
import Stoop.Mentions.Check
import Stoop.Mentions.Standing
import Stoop.Mentions.Places
import Stoop.Mentions.Lookups
import Stoop.Mentions.Stored
import Stoop.Mentions.Written
import Stoop.Mentions.Typed
import Stoop.Spaces.Channels
import Stoop.Files.Sweep
import Stoop.Accounts.Lockout
import Stoop.Accounts.DesktopAuth
import Stoop.Accounts.DesktopAttempts
import Stoop.Accounts.EmailTables
import Stoop.Accounts.EmailLinks
import Stoop.Channel.Floors
import Stoop.Channel.Shown
import Stoop.Channel.Capped
import Stoop.Channel.ThreadUnread
import Stoop.Channel.ThreadCounts
import Stoop.Channel.Markers
import Stoop.Channel.Quotes
import Stoop.Events.Bus
import Stoop.Events.Mirror
import Stoop.Events.Delivered
import Stoop.Files.Normalise
import Stoop.Upgrade.Compose
import Stoop.Upgrade.Switch
import Stoop.Search.Query
import Stoop.Search.Agreement
import Stoop.Tailnet.Forward
import Stoop.Tailnet.Flows
import Stoop.Accounts.LoginGuard
import Stoop.Lib.Bytes
import Stoop.Files.ImageSize
import Stoop.Files.Orientation
import Stoop.Lib.Slots
import Stoop.Spaces.Reorder
import Stoop.Spaces.StoredOrder
import Stoop.Lib.Outline
import Stoop.Editor.Lines
import Stoop.Editor.Levels
import Stoop.Webhooks.Tables
import Stoop.Webhooks.FanOut
import Stoop.Lib.Url
import Stoop.Accounts.Redirects
import Stoop.Lib.NetIP
import Stoop.Lib.NetIPText
import Stoop.Lib.HostPort
import Stoop.Instance.TrustedProxy
import Stoop.Instance.Rows
import Stoop.Instance.Seeding
import Stoop.Instance.Saves
import Stoop.Instance.Calls
import Stoop.Instance.Accepted
import Stoop.Instance.Seeded
import Stoop.Instance.Restarts
import Stoop.Instance.Pages
import Stoop.Instance.Secrets
import Stoop.Instance.SecretsKept
import Stoop.Instance.Environment
import Stoop.Instance.Valid
import Stoop.Alerts.Counts
import Stoop.Alerts.Noted
import Stoop.Lib.Cells
import Stoop.Files.Thumbnail
import Stoop.Lib.Blocks
import Stoop.Files.Shrinking
import Stoop.Files.Turning
import Stoop.Channel.Edges
import Stoop.Channel.EdgesKept
import Stoop.Kv.ClientIP
import Stoop.Jobs.ScheduleLaw
import Stoop.Accounts.SignedOutLaw
import Stoop.Direct.Conversations
import Stoop.Spaces.Escalation
import Stoop.Files.UploadsLaw
import Stoop.Voice.RoomsLaw
import Stoop.Files.Quota
import Stoop.Files.Serving
import Stoop.Netguard.Policy
