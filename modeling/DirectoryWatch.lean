import DirectoryWatch.FileSystem.Disk
import DirectoryWatch.FileSystem.Listing
import DirectoryWatch.FileSystem.Scripted
import DirectoryWatch.Main
import DirectoryWatch.Session.History
import DirectoryWatch.Session.Recording
import DirectoryWatch.Proofs.Registry.Invariant
import DirectoryWatch.Proofs.Registry.Order
import DirectoryWatch.Proofs.Session.Bookkeeping
import DirectoryWatch.Proofs.Session.Coverage
import DirectoryWatch.Proofs.Session.Record
import DirectoryWatch.Proofs.Session.Reports
import DirectoryWatch.Proofs.Session.Retry
import DirectoryWatch.Proofs.Registry.Roots
import DirectoryWatch.Proofs.Session.Handing
import DirectoryWatch.Proofs.Session.Meanwhile
import DirectoryWatch.Proofs.FileSystem.Growth
import DirectoryWatch.Proofs.Session.Created
import DirectoryWatch.Proofs.Session.Unfiltered
import DirectoryWatch.Proofs.Registry.Coherent
import DirectoryWatch.Proofs.Registry.Delta
import DirectoryWatch.Proofs.FileSystem.Steady
import DirectoryWatch.Proofs.Registry.Repeated
import DirectoryWatch.Proofs.Glob.Literal
import DirectoryWatch.Proofs.Path.Trimmed
import DirectoryWatch.Proofs.Registry.Answers
import DirectoryWatch.Proofs.Session.Repeated
import DirectoryWatch.Proofs.Registry.Search
import DirectoryWatch.Proofs.Registry.Scope
import DirectoryWatch.Proofs.Session.Ascent
import DirectoryWatch.Proofs.Session.Loop
import DirectoryWatch.Proofs.Session.First
import DirectoryWatch.Proofs.Session.Vanishing
import DirectoryWatch.Proofs.Session.Handling
import DirectoryWatch.Proofs.Request.Region
import DirectoryWatch.Proofs.Request.Members
import DirectoryWatch.Proofs.Config.Appending
import DirectoryWatch.Proofs.Config.Conversion
import DirectoryWatch.Proofs.FileSystem.Changed
