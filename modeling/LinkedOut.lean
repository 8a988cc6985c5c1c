import LinkedOut.Machine
import LinkedOut.Interleave
import LinkedOut.Guessing
import LinkedOut.Paired
import LinkedOut.Table
import LinkedOut.Table.History
import LinkedOut.Paging
import LinkedOut.SlidingWindow
import LinkedOut.SlidingWindow.Concurrent
import LinkedOut.CodeBox
import LinkedOut.Regex
import LinkedOut.Regex.Scan
import LinkedOut.Models
import LinkedOut.Core
import LinkedOut.Lookups
import LinkedOut.Cache
import LinkedOut.Security
import LinkedOut.Tokens
import LinkedOut.Apportionment
import LinkedOut.Percentages
import LinkedOut.Percentages.Rounding
import LinkedOut.Stats
import LinkedOut.Codes
import LinkedOut.Routers.Auth
import LinkedOut.Routers.Reviews
import LinkedOut.Routers.Admin
import LinkedOut.Routers.Companies
import LinkedOut.Api
import LinkedOut.Lists
import LinkedOut.Effects
import LinkedOut.History
import LinkedOut.Gates.Authority
import LinkedOut.Gates.TokenKinds
import LinkedOut.Gates.PasswordHashes
import LinkedOut.Moderation.Gate
import LinkedOut.Moderation.AuditTrail
import LinkedOut.Moderation.Race
import LinkedOut.Moderation.Queue
import LinkedOut.Documents.Ephemeral
import LinkedOut.Refusals
import LinkedOut.MultipleResults
import LinkedOut.Reviews.Race
import LinkedOut.Reviews.Conflict
import LinkedOut.Reviews.References
import LinkedOut.Stats.Snapshot
import LinkedOut.Stats.Timeline
import LinkedOut.Stats.Cached
import LinkedOut.Stats.Workers
import LinkedOut.Stats.Reference
import LinkedOut.Stats.ModalBucket
import LinkedOut.Privacy.PublicReads
import LinkedOut.Privacy.Unpublished
import LinkedOut.Moderation.NameFilter
import LinkedOut.Moderation.NameRuns
import LinkedOut.Moderation.ProbableNames
import LinkedOut.Moderation.Publication
import LinkedOut.Moderation.Allowlist
import LinkedOut.Moderation.FlaggedReasons
import LinkedOut.Privacy.Anonymity
import LinkedOut.Privacy.HashAndDiscard
import LinkedOut.Privacy.PhoneIdentity
import LinkedOut.Codes.Flow
import LinkedOut.Codes.Agreement
import LinkedOut.Codes.Superseded
import LinkedOut.Codes.Race
import LinkedOut.Codes.Compared
import LinkedOut.Codes.Guessing
import LinkedOut.Codes.Boxes
import LinkedOut.Columns
import LinkedOut.Logging
import LinkedOut.Logging.Redaction
import LinkedOut.Logging.PhoneNumbers
import LinkedOut.Logging.Formatting
import LinkedOut.Logging.Templates
import LinkedOut.Logging.Messages
import LinkedOut.RateLimit
import LinkedOut.RateLimit.Race
import LinkedOut.Codes.Endpoints
import LinkedOut.Ladder
import LinkedOut.Tiers.Race
import LinkedOut.Tiers.OwnCompany
import LinkedOut.Tiers.Climb
import LinkedOut.Ddl
import LinkedOut.Migrations
import LinkedOut.Migrations.Versions
import LinkedOut.Mapping
import LinkedOut.Mapping.Head
import LinkedOut.Mapping.Stored
import LinkedOut.Migrations.Commands
