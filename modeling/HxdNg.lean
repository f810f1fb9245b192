import HxdNg.Identity.Vectors
import HxdNg.Lib.Results
import HxdNg.Identity.Canonical
import HxdNg.Identity.Maps
import HxdNg.Identity.Forms
import HxdNg.Identity.Objects
import HxdNg.Lib.Runs
import HxdNg.Identity.Sealed
import HxdNg.Identity.SealedRoundTrip
import HxdNg.Identity.Friendship
import HxdNg.Identity.Handover
import HxdNg.Identity.HandoverClient
import HxdNg.Lib.Keyed
import HxdNg.Lib.Numbered
import HxdNg.Relationships.Pairs
import HxdNg.Relationships.Rekey
import HxdNg.Roster.Outbox
import HxdNg.Roster.Resume
import HxdNg.Roster.Uids
import HxdNg.Accounts.Access
import HxdNg.Accounts.Account
import HxdNg.Accounts.Admin
import HxdNg.Accounts.Links
import HxdNg.Accounts.OneAccount
import HxdNg.Chat.Commit
import HxdNg.Inbox.Cursors
import HxdNg.Inbox.Paging
import HxdNg.Limits.ConnGate
import HxdNg.Limits.Counts
import HxdNg.Moderation.Agreement
import HxdNg.Reaction.Batches
import HxdNg.Reaction.Cleared
import HxdNg.Reaction.Desk
import HxdNg.Session.Registry
import HxdNg.Session.Tokens
import HxdNg.Media.Held
import HxdNg.Media.Pins
import HxdNg.Transfers.Honest
import HxdNg.Transfers.Waiting
import HxdNg.Link.Groups
import HxdNg.Link.Hub
import HxdNg.Link.Moves
import HxdNg.Link.Naming
import HxdNg.Link.Slots
import HxdNg.Link.Tags
import HxdNg.Link.Crossing
import HxdNg.Link.Passed
import HxdNg.Accounts.Keys
import HxdNg.Admission.Admit
import HxdNg.Admission.Backend
import HxdNg.Admission.Changes
import HxdNg.Admission.Commitments
import HxdNg.Admission.Tokens
import HxdNg.Files.Listings
import HxdNg.Files.Sealed
import HxdNg.Files.SealedReads
import HxdNg.Files.SealedStream
import HxdNg.History.Indexes
import HxdNg.History.Pages
import HxdNg.Http.ClientAddr
import HxdNg.Http.DeviceKey
import HxdNg.Inbox.Reactions
import HxdNg.Inbox.Told
import HxdNg.Lib.Checked
import HxdNg.Lib.Grouped
import HxdNg.Lib.Latest
import HxdNg.Lib.Links
import HxdNg.Lib.Ranked
import HxdNg.Lib.Segments
import HxdNg.Lib.Sweep
import HxdNg.Lib.Utf8
import HxdNg.Limits.Budget
import HxdNg.Link.CertBooks
import HxdNg.Link.Parts
import HxdNg.Link.Snapshot
import HxdNg.News.Blobs
import HxdNg.News.Pictures
import HxdNg.News.Query
import HxdNg.Reaction.Waiting
import HxdNg.Reaction.Waits
import HxdNg.Registrars.Changes
import HxdNg.Registrars.Covers
import HxdNg.Relationships.Cleanup
import HxdNg.Roster.Losing
import HxdNg.Admission.Signers
import HxdNg.Chat.Reply
import HxdNg.Fetch.Addresses
import HxdNg.Fetch.Hops
import HxdNg.Identity.Chains
import HxdNg.Identity.FingerprintLoops
import HxdNg.Session.Hope
import HxdNg.Session.HopeStreams
import HxdNg.Voice.Answer
import HxdNg.Voice.AnswerSections
import HxdNg.Voice.Offer
import HxdNg.Voice.OfferBudget
import HxdNg.Media.Books
import HxdNg.Push.Breaker
import HxdNg.Push.Gateway
import HxdNg.Push.Places
import HxdNg.Push.Rules
