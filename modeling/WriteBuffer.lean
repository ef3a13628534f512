import WriteBuffer.Bytes.Lemmas
import WriteBuffer.Config.Create
import WriteBuffer.Config.Text
import WriteBuffer.Proofs.Cursor.Following
import WriteBuffer.Proofs.Storage
import WriteBuffer.Proofs.VersionedOrder
import WriteBuffer.Session.Arenas
import WriteBuffer.Session.Chunks
import WriteBuffer.Session.SkipLists
import WriteBuffer.Session.Tables
import WriteBuffer.Proofs.Cursor.Halving
import WriteBuffer.Proofs.Links
import WriteBuffer.Proofs.SkipList.Search
import WriteBuffer.Proofs.SkipList.Insert
import WriteBuffer.Proofs.SkipList.Cursor
import WriteBuffer.Proofs.MergeImages
import WriteBuffer.Proofs.MergeLoop
import WriteBuffer.Proofs.Arranging
import WriteBuffer.Proofs.Chain
import WriteBuffer.Proofs.Table.Basic
import WriteBuffer.Proofs.Table.Skip
import WriteBuffer.Proofs.Table.Vector
import WriteBuffer.Proofs.Table.Buckets
import WriteBuffer.Proofs.Table.HashedSkip
import WriteBuffer.Proofs.Table.HashedChain
import WriteBuffer.Proofs.Runs
import WriteBuffer.Proofs.WellFormed
import WriteBuffer.Proofs.Scans
import WriteBuffer.Proofs.VersionedReads
import WriteBuffer.Proofs.Cursor.Prefix
import WriteBuffer.Proofs.GroupScans
import WriteBuffer.Proofs.Table.Displacement
import WriteBuffer.Proofs.Table.Housing
import WriteBuffer.Proofs.Table.Cuckoo
import WriteBuffer.Proofs.LatestVersions
import WriteBuffer.Proofs.Room
import WriteBuffer.Proofs.SkipList.Splice
import WriteBuffer.Proofs.Table.EmptyLists
import WriteBuffer.Proofs.Table.Cursor
import WriteBuffer.Proofs.Rows
import WriteBuffer.Proofs.EntryOrder
import WriteBuffer.Proofs.Groups
import WriteBuffer.Proofs.Lists
import WriteBuffer.Proofs.Cursor.Answers
import WriteBuffer.Proofs.OpenCursors
import WriteBuffer.Proofs.Membership
import WriteBuffer.Proofs.WholeInserts
import WriteBuffer.Proofs.FailedInserts
import WriteBuffer.Proofs.Extending
import WriteBuffer.Proofs.Adding
import WriteBuffer.Proofs.Agreement
import WriteBuffer.Proofs.KeyEncoding
import WriteBuffer.Proofs.EntryCodec
import WriteBuffer.Proofs.Flushing
import WriteBuffer.Proofs.Cursor.Indexing
import WriteBuffer.Proofs.CursorAgreement
import WriteBuffer.Proofs.ConfigText
import WriteBuffer.Proofs.Freezing
import WriteBuffer.Proofs.WriteOnce
import WriteBuffer.Proofs.Publishing
import WriteBuffer.Proofs.Table.ShortestChains
import WriteBuffer.Proofs.Displacing
import WriteBuffer.Proofs.SafeMoves
import WriteBuffer.Proofs.SpilledReads
import WriteBuffer.Proofs.Merging
import WriteBuffer.Proofs.Cursor.Bisimulation
import WriteBuffer.Proofs.SkipList.Sessions
import WriteBuffer.Proofs.SkipList.Linear
import WriteBuffer.Proofs.SkipList.Renaming
import WriteBuffer.Proofs.SkipList.Paths
import WriteBuffer.Proofs.SkipList.Sharing
import WriteBuffer.Proofs.SkipList.Independence
import WriteBuffer.Proofs.Renumbering.Lists
import WriteBuffer.Proofs.Renumbering.Runs
import WriteBuffer.Proofs.Renumbering.Sessions
import WriteBuffer.Proofs.SparedInserts
import WriteBuffer.Proofs.BucketPlacement
import WriteBuffer.Proofs.SlotCounts
import WriteBuffer.Proofs.CheckedConfigs
import WriteBuffer.Proofs.ConfigGrammar
import WriteBuffer.Proofs.ShortestConfig
import WriteBuffer.Proofs.EntryReaders
import WriteBuffer.Proofs.Lookups
import WriteBuffer.Proofs.FailedWrites
