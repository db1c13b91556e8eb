import Oxcdf.Foundation.Outcome
import Oxcdf.Foundation.Machine
import Oxcdf.Foundation.RowMajor
import Oxcdf.Foundation.Buffer
import Oxcdf.Foundation.SortedSet
import Oxcdf.Foundation.Dialogue
import Oxcdf.Foundation.EvictingMap
import Oxcdf.Foundation.Paging
import Oxcdf.Foundation.Session
import Oxcdf.Foundation.Format
import Oxcdf.Foundation.Utf8
import Oxcdf.Error
import Oxcdf.Source
import Oxcdf.Cache
import Oxcdf.Replay
import Oxcdf.Replay.Faithful
import Oxcdf.Cursor
import Oxcdf.Datatype
import Oxcdf.Hyperslab
import Oxcdf.Classic.Header
import Oxcdf.Classic.RoundTrip
import Oxcdf.Classic.Read
import Oxcdf.Classic.SourceAlone
import Oxcdf.Replay.Rounds
import Oxcdf.Foundation.Overwrite
import Oxcdf.Foundation.Addressing
import Oxcdf.Io
import Oxcdf.Filters
import Oxcdf.Dataset
import Oxcdf.Context
import Oxcdf.Read
import Oxcdf.Read.Runs
import Oxcdf.Read.Rows
import Oxcdf.Read.Grid
import Oxcdf.Foundation.Repetition
import Oxcdf.Foundation.Loop
import Oxcdf.Dataset.Fill
import Oxcdf.Read.Covered
import Oxcdf.Checksum
import Oxcdf.Superblock
import Oxcdf.Superblock.RoundTrip
import Oxcdf.Cursor.Steady
import Oxcdf.Classic.Wide
import Oxcdf.Message.Datatype
import Oxcdf.Message.Nesting
import Oxcdf.Message.DatatypeRoundTrip
import Oxcdf.Message.Dataspace
import Oxcdf.Message.Storage
import Oxcdf.Message.Link
import Oxcdf.Message.Attribute
import Oxcdf.Message.Panic
import Oxcdf.Foundation.Unfolding
import Oxcdf.Index
import Oxcdf.Index.Shared
import Oxcdf.View
import Oxcdf.ChunkIndex
import Oxcdf.ChunkIndex.Numbering
import Oxcdf.ChunkIndex.Stored
import Oxcdf.ChunkIndex.Positions
import Oxcdf.ChunkIndex.Slowest
import Oxcdf.Foundation.Numeration
import Oxcdf.ChunkIndex.Ordered
import Oxcdf.Foundation.Worklist
import Oxcdf.ObjectHeader
import Oxcdf.ObjectHeader.Stored
import Oxcdf.ObjectHeader.Following
import Oxcdf.ObjectHeader.RoundTrip
import Oxcdf.Classic.Values
import Oxcdf.Foundation.Doubling
import Oxcdf.Foundation.Extents
import Oxcdf.FractalHeap
import Oxcdf.FractalHeap.Stored
import Oxcdf.FractalHeap.Loaded
import Oxcdf.FractalHeap.Complete
import Oxcdf.Cache.Transparent
import Oxcdf.Io.Merged
import Oxcdf.Read.Partition
import Oxcdf.Foundation.Transpose
import Oxcdf.Filters.Shuffle
import Oxcdf.Filters.Fletcher
import Oxcdf.Filters.RoundTrip
import Oxcdf.Filters.Blosc
import Oxcdf.Filters.Checked
import Oxcdf.Filters.Panic
import Oxcdf.Filters.Blosclz
import Oxcdf.Filters.Loops
import Oxcdf.Btree2
import Oxcdf.Btree2.Layout
import Oxcdf.Foundation.SearchTree
import Oxcdf.Btree2.Stored
import Oxcdf.Btree2.Collected
import Oxcdf.View.Steady
import Oxcdf.FractalHeap.Panic
import Oxcdf.Btree2.Panic
import Oxcdf.ChunkIndex.Btree
import Oxcdf.ChunkIndex.Panic
import Oxcdf.Foundation.Consistent
import Oxcdf.Foundation.Window
import Oxcdf.Classic.Opening
import Oxcdf.Classic.Overflow
import Oxcdf.Read.Reported
import Oxcdf.Read.Wrapped
import Oxcdf.Read.Cached
import Oxcdf.Read.Denoted
import Oxcdf.Foundation.Explore
import Oxcdf.Btree1
import Oxcdf.Btree1.Stored
import Oxcdf.Btree1.Walked
import Oxcdf.LocalHeap
import Oxcdf.Btree1.Group
import Oxcdf.ChunkIndex.Records
import Oxcdf.Read.Native
import Oxcdf.Text
import Oxcdf.Netcdf
import Oxcdf.Netcdf.Text
import Oxcdf.Classic.Strings
import Oxcdf.Extent
import Oxcdf.Classic.Whole
import Oxcdf.GlobalHeap
import Oxcdf.GlobalHeap.Vlen
import Oxcdf.Read.Chunks
import Oxcdf.Message.AttributeRoundTrip
import Oxcdf.Netcdf.Integers
import Oxcdf.Message
import Oxcdf.Index.Dataset
import Oxcdf.Read.Async
import Oxcdf.Read.Inside
import Oxcdf.Netcdf.Dimensions
import Oxcdf.Netcdf.PhonyAxes
import Oxcdf.Netcdf.ScaleIds
import Oxcdf.Netcdf.PhonyNumbers
import Oxcdf.Read.Fetched
import Oxcdf.Read.Gathered
import Oxcdf.Read.Agreed
import Oxcdf.Foundation.Local
import Oxcdf.Message.Local
import Oxcdf.Foundation.Foremost
import Oxcdf.Dense
import Oxcdf.Dense.Walked
import Oxcdf.Dense.Enumerated
import Oxcdf.Dense.Agreed
import Oxcdf.Foundation.Interleaving
import Oxcdf.Foundation.Playing
import Oxcdf.Index.Chunks
import Oxcdf.ChunkIndex.Sizes
import Oxcdf.Read.Plain
import Oxcdf.Concurrent
import Oxcdf.Concurrent.Pages
import Oxcdf.Concurrent.Chunks
import Oxcdf.Concurrent.Hyperslab
import Oxcdf.Concurrent.Readers
import Oxcdf.Concurrent.Bounded
import Oxcdf.Concurrent.Alone
import Oxcdf.Foundation.Layout
import Oxcdf.Read.Arrays
import Oxcdf.Concurrent.Arrays
import Oxcdf.Superblock.Probing
import Oxcdf.Index.Opening
import Oxcdf.Foundation.Folders
import Oxcdf.Index.Paths
import Oxcdf.Foundation.Resorting
import Oxcdf.Netcdf.Views
import Oxcdf.Elements
import Oxcdf.Elements.Numbers
import Oxcdf.GlobalHeap.Strings
import Oxcdf.Netcdf.Values
import Oxcdf.Concurrent.Strings
import Oxcdf.Concurrent.Values
