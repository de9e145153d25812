import AtlasTeam.Api.Sync
import AtlasTeam.Store.BalanceCheck
import AtlasTeam.Store.BinCheck
import AtlasTeam.Store.BooksLock
import AtlasTeam.Store.Deposits
import AtlasTeam.Store.LostNumbers
import AtlasTeam.Store.NumberCheck
import AtlasTeam.Store.Outstanding
import AtlasTeam.Store.Retries
import AtlasTeam.Store.Reversals
import AtlasTeam.Store.SyncLog
import AtlasTeam.Api.Delivery
import AtlasTeam.Store.Pull
import AtlasTeam.Api.Portal
import AtlasTeam.Store.PgChain
import AtlasTeam.Store.TakeOn
import AtlasTeam.Store.Inventory
import AtlasTeam.Store.SideBySide
import AtlasTeam.Api.ReadModel
import AtlasTeam.Posting.Fifo
import AtlasTeam.Api.Members
import AtlasTeam.Api.Patches
import AtlasTeam.Store.Counters
import AtlasTeam.Store.Tills
import AtlasTeam.Api.PortalView
import AtlasTeam.Store.Isolation
import AtlasTeam.F64.Finite
import AtlasTeam.Posting.IssueRates
import AtlasTeam.Posting.InvoiceTotals
import AtlasTeam.Store.StockValues
import AtlasTeam.Store.Returns
import AtlasTeam.Store.Intake
import AtlasTeam.Store.PaymentCancels
import AtlasTeam.Store.TaxLedger
import AtlasTeam.Store.BaseLedger
import AtlasTeam.Store.Clearing
import AtlasTeam.Store.OpeningPosition
import AtlasTeam.Api.CompanyRows
import AtlasTeam.Api.QuoteRuns
import AtlasTeam.Api.Signatures
import AtlasTeam.Store.GroupAccounts
import AtlasTeam.Api.GlExport
import AtlasTeam.Limit
import AtlasTeam.Api.CredentialRuns
import AtlasTeam.Api.MemberOrigins
import AtlasTeam.ServerRuns
import AtlasTeam.Receipts
import AtlasTeam.Api.DeviceLedgers
import AtlasTeam.Store.LiveBooks
import AtlasTeam.Store.RestoreChecks
import AtlasTeam.Store.PartyLedger
