import DingoFs.Client.S3CacheManager
import DingoFs.Client.GenerateS3Request
import DingoFs.Lib.PageWalk
import DingoFs.Client.DataCachePages
import DingoFs.Client.CacheAccounting
import DingoFs.Client.S3ClientAdaptor
import DingoFs.Common.S3Object
import DingoFs.Lib.Word
import DingoFs.Lib.BigEndian
import DingoFs.Lib.LittleEndian
import DingoFs.Lib.Decimal
import DingoFs.Lib.Blocks
import DingoFs.Lib.OrderedSet
import DingoFs.Lib.Overlay
import DingoFs.Mds.ChunkIdAllocator
import DingoFs.Mds.Topology
import DingoFs.Metaserver.Copyset.RaftLogCodec
import DingoFs.Metaserver.Messages
import DingoFs.Metaserver.InodeStorage
import DingoFs.Metaserver.Trash
import DingoFs.Metaserver.DentryStorage
import DingoFs.Metaserver.S3CompactInode
import DingoFs.Metaserver.Storage.Converter
import DingoFs.Metaserver.Storage.DumpFile
import DingoFs.ObjectLayout
import DingoFs.Client.WriteCache
import DingoFs.Mds.Heartbeat
import DingoFs.Mds.OperatorController
import DingoFs.Metaserver.Storage.KeyCodec
import DingoFs.Metaserver.Transaction
import DingoFs.Client.Blockcache
import DingoFs.Lib.SortedRanges
import DingoFs.Client.FlatFile
import DingoFs.Client.InodeObjects
import DingoFs.Lib.Interleave
import DingoFs.Mds.CopysetPlacement
import DingoFs.Mds.CopysetBatch
import DingoFs.Mds.CopysetRegistry
import DingoFs.Client.DataCacheInvariant
import DingoFs.Mds.TopologyTreeInvariant
import DingoFs.Client.ReadChunk
import DingoFs.Client.MemCacheRead
import DingoFs.Client.FileCacheManager
import DingoFs.Lib.FoldRun
import DingoFs.Mds.FsManager
