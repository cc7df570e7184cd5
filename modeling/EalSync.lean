import EalSync.Lib.Lease
import EalSync.Lib.Table
import EalSync.Runtime.Exclusion
import EalSync.Runtime.Immutability
import EalSync.Runtime.Budget
import EalSync.Runtime.RowLocks
import EalSync.Runtime.Coverage
import EalSync.Runtime.Provenance
import EalSync.Runtime.Recording
import EalSync.Runtime.Routable
import EalSync.Runtime.LocalHost
import EalSync.Runtime.Counting
import EalSync.Runtime.Reseed
import EalSync.Ingestion.Conditional
import EalSync.Ingestion.Escape
import EalSync.Ingestion.Limiter
import EalSync.Ingestion.Handoff
import EalSync.Ingestion.Blocks
import EalSync.Ingestion.ScriptViews
import EalSync.Ingestion.Feed
import EalSync.Ingestion.PageWords
import EalSync.Ingestion.History
import EalSync.Ingestion.SelfScope
import EalSync.Ingestion.Removal
import EalSync.Ingestion.JsonText
import EalSync.Ingestion.PlainText
import EalSync.Ingestion.Links
import EalSync.Ingestion.Combined
import EalSync.Ingestion.Sentences
import EalSync.Ingestion.EntityPhrases
import EalSync.Ingestion.HrefScan
import EalSync.Ingestion.TagScan
import EalSync.Runtime.Readers
import EalSync.Runtime.Tenants
import EalSync.Runtime.Schedule
import EalSync.Runtime.Overtaking
import EalSync.Runtime.Reports
import EalSync.Runtime.Courses
import EalSync.Runtime.LastError
import EalSync.Runtime.Registrations
import EalSync.Runtime.Postings
import EalSync.Runtime.Codes
import EalSync.Ingestion.Completion
import EalSync.Ingestion.Delivery
import EalSync.Ingestion.CrawlOnce
import EalSync.Runtime.Custody
import EalSync.Runtime.Pacing
import EalSync.Runtime.Endurance
