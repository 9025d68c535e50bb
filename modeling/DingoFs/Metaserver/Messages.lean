import Mathlib.Data.List.AList

/-!
# Messages of the metaserver

The protobuf definitions of the metaserver live in a submodule that is not part of the
sources, so the messages here are read off their uses: a message keeps the fields the
modelled functions get or set, under the accessor names the C++ code calls.
-/

namespace DingoFs.Metaserver

/-- `MetaStatusCode`: the status every metaserver storage and manager call returns. -/
inductive MetaStatusCode
  | OK
  | UNKNOWN_ERROR
  | PARAM_ERROR
  | NOT_FOUND
  | INODE_EXIST
  | DENTRY_EXIST
  | SYM_LINK_EMPTY
  | RPC_ERROR
  | COPYSET_NOTEXIST
  | REDIRECTED
  | OVERLOAD
  | PARTITION_NOT_FOUND
  | PARTITION_EXIST
  | PARTITION_ID_MISSMATCH
  | PARTITION_DELETING
  | PARTITION_ALLOC_ID_FAIL
  | SAVE_META_FAIL
  | S3_DELETE_ERR
  | PARSE_FROM_STRING_FAILED
  | STORAGE_INTERNAL_ERROR
  | STORAGE_CLOSED
  | RPC_STREAM_ERROR
  | INODE_S3_META_TOO_LARGE
  | IDEMPOTENCE_OK
  | HANDLE_TX_FAILED
  | HANDLE_PENDING_TX_FAILED
deriving DecidableEq, Repr

/-- `S3ChunkInfo`: `len` bytes of the file at file offset `offset`, stored in the objects of
chunk `chunkid` at compaction level `compaction`; a `zero` info reads as zero bytes and has
no objects. -/
structure S3ChunkInfo where
  chunkid : Nat
  compaction : Nat
  offset : Nat
  len : Nat
  size : Nat
  zero : Bool
deriving DecidableEq, Repr

/-- The chunk info covers byte `p` of the file. -/
def S3ChunkInfo.Covers (info : S3ChunkInfo) (p : Nat) : Prop :=
  info.offset ≤ p ∧ p < info.offset + info.len

instance (info : S3ChunkInfo) (p : Nat) : Decidable (info.Covers p) :=
  inferInstanceAs (Decidable (_ ∧ _))

/-- `S3ChunkInfoList`: the repeated field `s3chunks`, oldest info first. -/
abbrev S3ChunkInfoList := List S3ChunkInfo

/-- `S3ChunkInfoMap`: chunk index to list, a protobuf map; its entries are in the order the
map is iterated. -/
abbrev S3ChunkInfoMap := AList (fun _ : Nat => S3ChunkInfoList)

/-- `FsFileType`. -/
inductive FsFileType
  | TYPE_DIRECTORY
  | TYPE_FILE
  | TYPE_SYM_LINK
  | TYPE_S3
deriving DecidableEq, Repr

/-- `Inode`, with the fields the trash and the inode manager's link count path read: the
record's own `s3chunkinfomap` (the chunk-info lists proper live in their own table). -/
structure Inode where
  fsid : Nat
  inodeid : Nat
  type : FsFileType
  nlink : Nat
  dtime : Nat
  s3chunkinfomap : S3ChunkInfoMap

end DingoFs.Metaserver
