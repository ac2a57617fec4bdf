import LangHost.Plain.Service
import LangHost.Cache.Call
import LangHost.Debounce.Script
import LangHost.Json.Reader
import LangHost.Server.Session
import LangHost.Proofs.Server.Run
import LangHost.Proofs.Cache.Entries
import LangHost.Proofs.Server.Frame
import LangHost.Proofs.Server.Transparency
import LangHost.Proofs.Server.Twin
import LangHost.Proofs.Server.Outdated
import LangHost.Proofs.Server.Notices
import LangHost.Proofs.Plain.Host
import LangHost.Proofs.Server.Convergence
import LangHost.Proofs.Debounce.Law
import LangHost.Proofs.Server.Closing
import LangHost.Proofs.Cache.Order
import LangHost.Proofs.Debounce.Late
import LangHost.Proofs.Cache.Recency
import LangHost.Proofs.Cache.Overlap
import LangHost.Proofs.Cache.Inclusion
import LangHost.Proofs.Cache.Timeline
import LangHost.Proofs.Server.Provenance
import LangHost.Proofs.Server.Settling
import LangHost.Proofs.Server.Share
import LangHost.Proofs.Server.Isolation
import LangHost.Proofs.Registry.Routing
import LangHost.Proofs.Cache.Accounts
import LangHost.Proofs.Server.Settings
import LangHost.Proofs.Text.Client
import LangHost.Proofs.Text.Cut
import LangHost.Proofs.Plain.Formatting
import LangHost.Proofs.Plain.QuickFixes
import LangHost.Proofs.Plain.LoneReturns
import LangHost.Proofs.Plain.Words
import LangHost.Proofs.Plain.Parsing
import LangHost.Proofs.Plain.Highlights
import LangHost.Proofs.Plain.LineLength
import LangHost.Proofs.Plain.Completion
import LangHost.Proofs.Plain.TypedPart
import LangHost.Proofs.Config.Encodings
import LangHost.Proofs.Server.Requests
