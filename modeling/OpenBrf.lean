import OpenBrf.Async.Process
import OpenBrf.Async.Rights
import OpenBrf.BoardMailbox.Mailer
import OpenBrf.BoardMailbox.ReplyDelivery
import OpenBrf.Bookings.Discipline
import OpenBrf.Bookings.Interleaving
import OpenBrf.Bookings.Service
import OpenBrf.Bookings.SlotEngine
import OpenBrf.Bookings.SlotPeriods
import OpenBrf.Bookings.SlotTiling
import OpenBrf.Crypto.SealedFile
import OpenBrf.Crypto.SecretStream
import OpenBrf.Crypto.StoredFileCipher
import OpenBrf.Decimals.Positional
import OpenBrf.Events.Discipline
import OpenBrf.Events.Interleaving
import OpenBrf.Events.OccurrencePlan
import OpenBrf.Events.PlanSplit
import OpenBrf.Events.RuleDays
import OpenBrf.Events.SeriesDays
import OpenBrf.Events.SeriesEffects
import OpenBrf.Events.SeriesRuns
import OpenBrf.Events.Service
import OpenBrf.Feed.AnswerInterleaving
import OpenBrf.Feed.Moderation
import OpenBrf.Feed.ModerationActs
import OpenBrf.Feed.ModerationDiscipline
import OpenBrf.Feed.ModerationInterleaving
import OpenBrf.Feed.ModerationRuns
import OpenBrf.Fees.Billing
import OpenBrf.Fees.FeePeriod
import OpenBrf.Fees.History
import OpenBrf.Fees.Interleaving
import OpenBrf.Fees.PaymentReference
import OpenBrf.Fees.Service
import OpenBrf.Grouping.Components
import OpenBrf.Grouping.Forest
import OpenBrf.Import.Csv
import OpenBrf.Import.CsvReaders
import OpenBrf.Import.CsvRoundTrip
import OpenBrf.Lang
import OpenBrf.Lang.Buffers
import OpenBrf.Lang.CodeUnits
import OpenBrf.Lang.Sorting
import OpenBrf.Listing.Reads
import OpenBrf.MailThreads.ThreadActs
import OpenBrf.MailThreads.ThreadInterleaving
import OpenBrf.MailThreads.ThreadRuns
import OpenBrf.MailThreads.ThreadWrite
import OpenBrf.Meetings.AgendaActs
import OpenBrf.Meetings.AgendaInterleaving
import OpenBrf.Meetings.AgendaWrite
import OpenBrf.Meetings.DoorActs
import OpenBrf.Meetings.DoorInterleaving
import OpenBrf.Meetings.DoorWrite
import OpenBrf.Meetings.JointHoldings
import OpenBrf.Meetings.MeetingDiscipline
import OpenBrf.Meetings.MeetingRuns
import OpenBrf.Meetings.MeetingStore
import OpenBrf.Meetings.MembersOnTheDay
import OpenBrf.Meetings.ProxyAuthority
import OpenBrf.Meetings.ProxyInterleaving
import OpenBrf.Meetings.RegisterOfMeeting
import OpenBrf.Meetings.VotingLines
import OpenBrf.Meetings.VotingOrder
import OpenBrf.Meetings.VotingRegister
import OpenBrf.Mime.EncodedTexts
import OpenBrf.Mime.Encodings
import OpenBrf.Mime.FromHeader
import OpenBrf.Mime.Multipart
import OpenBrf.Mime.NumberedSegments
import OpenBrf.Mime.Parameters
import OpenBrf.Mime.SenderAddress
import OpenBrf.Motions.Queue
import OpenBrf.Motions.QueueCursor
import OpenBrf.Motions.QueueReading
import OpenBrf.Moves.Effects
import OpenBrf.Moves.HoldingRows
import OpenBrf.Moves.HoldingRuns
import OpenBrf.Moves.MembershipReading
import OpenBrf.Moves.Service
import OpenBrf.Octets.Base64
import OpenBrf.Octets.Hex
import OpenBrf.PageBlocks.LinkRule
import OpenBrf.Pages.PageActs
import OpenBrf.Pages.PageInterleaving
import OpenBrf.Pages.PageRuns
import OpenBrf.Pages.PageWrite
import OpenBrf.Pages.Slugs
import OpenBrf.PendingChanges.Queue
import OpenBrf.PendingChanges.QueueInterleaving
import OpenBrf.PendingChanges.QueueRuns
import OpenBrf.PendingChanges.QueueSafety
import OpenBrf.Plugins.ExtensionGroups
import OpenBrf.Plugins.ExtensionRefusals
import OpenBrf.Plugins.ExtensionSafety
import OpenBrf.Plugins.HostCallRuns
import OpenBrf.Plugins.HostCalls
import OpenBrf.Plugins.ResidentRoute
import OpenBrf.Pop3.MultilineCommand
import OpenBrf.Pop3.Responses
import OpenBrf.Regex.Pattern
import OpenBrf.Registers.ApartmentFigures
import OpenBrf.Registers.ApartmentSaveRuns
import OpenBrf.Registers.ApartmentSaves
import OpenBrf.Registers.ApartmentValues
import OpenBrf.Registers.CorrectionChains
import OpenBrf.Registers.MembershipPeriods
import OpenBrf.Registers.MembershipTransitions
import OpenBrf.Registers.OwedRows
import OpenBrf.Registers.OwedTransitions
import OpenBrf.Registers.PeriodPairing
import OpenBrf.Registers.Reading
import OpenBrf.Registers.Reconciliation
import OpenBrf.Registers.Store
import OpenBrf.Registers.StoreEffects
import OpenBrf.Registers.Transmission
import OpenBrf.Registers.TransmissionRuns
import OpenBrf.Retention.DataSubjectReport
import OpenBrf.Retention.FinancialYear
import OpenBrf.Retention.HoldingPeriods
import OpenBrf.Retention.PurgeAgreement
import OpenBrf.Retention.PurgeDate
import OpenBrf.Rfc5322.Quoting
import OpenBrf.Roles.BoardInterleaving
import OpenBrf.Roles.BoardPositions
import OpenBrf.Roles.BoardRuns
import OpenBrf.Roles.BoardTerms
import OpenBrf.Search.Words
import OpenBrf.Shared.CalendarDates
import OpenBrf.Shared.CenturyReading
import OpenBrf.Shared.IdentityNumberScan
import OpenBrf.Shared.IsoStrings
import OpenBrf.Shared.LocalInstants
import OpenBrf.Shared.PersonalIdentityNumber
import OpenBrf.Shared.ScanCandidates
import OpenBrf.Shared.ScanReports
import OpenBrf.Shared.StockholmCalendar
import OpenBrf.Site.MenuEffects
import OpenBrf.Site.MenuRows
import OpenBrf.Site.MenuRuns
import OpenBrf.Site.MenuWrite
import OpenBrf.Site.Page
import OpenBrf.Site.SiteMenu
import OpenBrf.Timeline.Order
import OpenBrf.Timeline.Pairing
import OpenBrf.Timeline.Sweep
import OpenBrf.Txn.Config
import OpenBrf.Txn.Program
import OpenBrf.Txn.Rows
import OpenBrf.Txn.Safe
import OpenBrf.Txn.Tables
import OpenBrf.Txn.TwoPhase
import OpenBrf.Url.Scheme
