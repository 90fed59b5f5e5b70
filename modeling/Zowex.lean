import Zowex.Proofs.Base64Stream
import Zowex.Proofs.JsonString
import Zowex.Lib.Runs
import Zowex.Lib.Maps
import Zowex.Lib.Sums
import Zowex.Proofs.PoisonPill
import Zowex.Proofs.NoLoss
import Zowex.Proofs.Validation
import Zowex.Proofs.NullParams
import Zowex.Proofs.TransformFailures
import Zowex.Proofs.ReadyCount
import Zowex.Proofs.QuotePath
import Zowex.Proofs.Promises
import Zowex.Proofs.NegatedFlags
import Zowex.Proofs.PreHooks
import Zowex.Proofs.SshRs
import Zowex.Proofs.ReadyQueue
import Zowex.Proofs.Zam
import Zowex.Proofs.CopyDsn
import Zowex.Proofs.MemberLines
import Zowex.Proofs.Conversions
import Zowex.Proofs.Releases
import Zowex.Proofs.FailedWrites
import Zowex.Proofs.Streams
import Zowex.Proofs.Chunks
import Zowex.Proofs.AsaPage
import Zowex.Proofs.Selections
import Zowex.Proofs.Listings
import Zowex.Proofs.Tools
import Zowex.Proofs.DsCommands
import Zowex.Proofs.ToolResults
import Zowex.Proofs.UssClients
import Zowex.Proofs.Zjsonm
import Zowex.Proofs.SessionContext
import Zowex.Proofs.KeyRings
import Zowex.Proofs.ServerPath
import Zowex.Proofs.InstallServer
import Zowex.Proofs.ConfigManager
import Zowex.Spec.Plugins
import Zowex.Proofs.Plugins
import Zowex.Proofs.PaddedBase64
import Zowex.Proofs.IntLiterals
import Zowex.Proofs.JsonNumbers
import Zowex.Proofs.FlattenObj
import Zowex.Proofs.UnicodeEscapes
import Zowex.Proofs.AbandonedIds
import Zowex.Proofs.StructRoundTrip
import Zowex.Proofs.Indentation
import Zowex.Proofs.LargeData
import Zowex.Proofs.Wildcards
import Zowex.Proofs.Adler32
import Zowex.Proofs.Expansion
import Zowex.Proofs.Spawn
import Zowex.Proofs.StreamRegistrations
import Zowex.Proofs.FlagSpellings
import Zowex.Spec.Spans
import Zowex.Proofs.Spans
import Zowex.Spec.Envelope
import Zowex.Proofs.Envelope
import Zowex.Spec.SearchParser
import Zowex.Proofs.SearchParser
import Zowex.Spec.DynamicArguments
import Zowex.Proofs.DynamicArguments
import Zowex.Lib.Segments
import Zowex.Lib.Gregorian
import Zowex.Spec.Dscb
import Zowex.Proofs.DscbDates
import Zowex.Proofs.DscbSpace
import Zowex.Lib.Csv
import Zowex.Spec.ResultTable
import Zowex.Proofs.ResultTable
import Zowex.Spec.MemberList
import Zowex.Proofs.MemberList
import Zowex.Proofs.MemberStatistics
import Zowex.Spec.DsView
import Zowex.Proofs.DsView
import Zowex.Spec.FileModes
import Zowex.Proofs.Words
import Zowex.Proofs.FileModes
import Zowex.Lib.Inodes
import Zowex.Lib.PathTexts
import Zowex.Spec.UssFiles
import Zowex.Proofs.CreateDirs
import Zowex.Lib.TreeLists
import Zowex.Spec.UssListing
import Zowex.Proofs.UssListing
import Zowex.Lib.Delimited
import Zowex.Proofs.SearchStatement
import Zowex.Spec.Syslog
import Zowex.Proofs.LogPages
import Zowex.Proofs.LogTimes
import Zowex.Spec.RingList
import Zowex.Proofs.RingList
import Zowex.Proofs.CertList
import Zowex.Proofs.JobFilters
import Zowex.Proofs.SubmitJcl
import Zowex.Proofs.ValidatedCredentials
import Zowex.Lib.Ranges
import Zowex.Proofs.TruncatedLines
import Zowex.Spec.JobOutcomes
import Zowex.Proofs.JobOutcomes
import Zowex.Spec.Proclib
import Zowex.Proofs.Proclib
import Zowex.Spec.SpoolReads
import Zowex.Proofs.SpoolReads
import Zowex.Lib.Cursors
import Zowex.Spec.CatalogList
import Zowex.Proofs.CatalogList
import Zowex.Lib.Unlinks
import Zowex.Spec.UssRemoval
import Zowex.Proofs.UssRemoval
import Zowex.Proofs.EtagLocks
import Zowex.Proofs.SshCommands
