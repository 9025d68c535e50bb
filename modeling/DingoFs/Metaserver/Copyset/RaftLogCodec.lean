import DingoFs.Lib.BigEndian

/-!
# The raft log codec of a metaserver copyset

`RaftLogCodec::Encode` (`src/metaserver/copyset/raft_log_codec.cpp`) frames a request as
its operator type, its size and its protobuf bytes; `RaftLogCodec::Decode` reads the
frame back and, in a switch with one case per `OperatorType`, picks the operator class to
build and the request class to parse the bytes as. Every operator later casts its
`request_` to the request class named after it (`OPERATOR_HASH_CODE`,
`CanBypassPropose`, `OnApply`), so the switch must name that class in every case.

The message classes are generated from the `proto` submodule, which the repository does
not contain: `Protobuf` takes them, their encoding and their parser as a parameter, and
the round trip assumes only what protobuf documents, that parsing a message's own
encoding as its own class gives it back.

* `decode_encode`: for every type whose case names the class its operator reads, decoding
  what was encoded gives the operator of that type holding the same request.
* `decode_encode_batchGetXAttr`: the `BatchGetXAttr` case names
  `BatchGetInodeAttrRequest`, so the operator it builds never holds the
  `BatchGetXAttrRequest` that was encoded; `BatchGetXAttrOperator` then casts a
  `BatchGetInodeAttrRequest` to `BatchGetXAttrRequest`.
-/

namespace DingoFs.Metaserver.Copyset

open DingoFs.Lib

/-- `OperatorType`, in the order of `operator_type.h`, which fixes each value. -/
inductive OperatorType where
  | GetDentry
  | ListDentry
  | CreateDentry
  | DeleteDentry
  | GetInode
  | BatchGetInodeAttr
  | BatchGetXAttr
  | CreateInode
  | UpdateInode
  | DeleteInode
  | CreateRootInode
  | CreatePartition
  | DeletePartition
  | PrepareRenameTx
  | GetOrModifyS3ChunkInfo
  | GetVolumeExtent
  | UpdateVolumeExtent
  | CreateManageInode
  | SetFsQuota
  | GetFsQuota
  | FlushFsUsage
  | SetDirQuota
  | GetDirQuota
  | DeleteDirQuota
  | LoadDirQuotas
  | FlushDirUsages
  | OperatorTypeMax
  deriving DecidableEq, Repr

/-- The request message classes of the metaserver's operators. -/
inductive RequestType where
  | GetDentryRequest
  | ListDentryRequest
  | CreateDentryRequest
  | DeleteDentryRequest
  | GetInodeRequest
  | BatchGetInodeAttrRequest
  | BatchGetXAttrRequest
  | CreateInodeRequest
  | UpdateInodeRequest
  | DeleteInodeRequest
  | CreateRootInodeRequest
  | CreatePartitionRequest
  | DeletePartitionRequest
  | PrepareRenameTxRequest
  | GetOrModifyS3ChunkInfoRequest
  | GetVolumeExtentRequest
  | UpdateVolumeExtentRequest
  | CreateManageInodeRequest
  | SetFsQuotaRequest
  | GetFsQuotaRequest
  | FlushFsUsageRequest
  | SetDirQuotaRequest
  | GetDirQuotaRequest
  | DeleteDirQuotaRequest
  | LoadDirQuotasRequest
  | FlushDirUsagesRequest
  deriving DecidableEq, Repr

namespace OperatorType

/-- The `uint32_t` value of each enumerator. -/
def toUInt32 : OperatorType → Nat
  | GetDentry => 0
  | ListDentry => 1
  | CreateDentry => 2
  | DeleteDentry => 3
  | GetInode => 4
  | BatchGetInodeAttr => 5
  | BatchGetXAttr => 6
  | CreateInode => 7
  | UpdateInode => 8
  | DeleteInode => 9
  | CreateRootInode => 10
  | CreatePartition => 11
  | DeletePartition => 12
  | PrepareRenameTx => 13
  | GetOrModifyS3ChunkInfo => 14
  | GetVolumeExtent => 15
  | UpdateVolumeExtent => 16
  | CreateManageInode => 17
  | SetFsQuota => 18
  | GetFsQuota => 19
  | FlushFsUsage => 20
  | SetDirQuota => 21
  | GetDirQuota => 22
  | DeleteDirQuota => 23
  | LoadDirQuotas => 24
  | FlushDirUsages => 25
  | OperatorTypeMax => 26

/-- `static_cast<OperatorType>` of a decoded value, `none` when no enumerator has it (the
switch then matches no case). -/
def ofUInt32 : Nat → Option OperatorType
  | 0 => some GetDentry
  | 1 => some ListDentry
  | 2 => some CreateDentry
  | 3 => some DeleteDentry
  | 4 => some GetInode
  | 5 => some BatchGetInodeAttr
  | 6 => some BatchGetXAttr
  | 7 => some CreateInode
  | 8 => some UpdateInode
  | 9 => some DeleteInode
  | 10 => some CreateRootInode
  | 11 => some CreatePartition
  | 12 => some DeletePartition
  | 13 => some PrepareRenameTx
  | 14 => some GetOrModifyS3ChunkInfo
  | 15 => some GetVolumeExtent
  | 16 => some UpdateVolumeExtent
  | 17 => some CreateManageInode
  | 18 => some SetFsQuota
  | 19 => some GetFsQuota
  | 20 => some FlushFsUsage
  | 21 => some SetDirQuota
  | 22 => some GetDirQuota
  | 23 => some DeleteDirQuota
  | 24 => some LoadDirQuotas
  | 25 => some FlushDirUsages
  | 26 => some OperatorTypeMax
  | _ => none

/-- The request class that `TYPE##Operator` casts its `request_` to: `TYPE##Request`. -/
def requestType : OperatorType → Option RequestType
  | GetDentry => some .GetDentryRequest
  | ListDentry => some .ListDentryRequest
  | CreateDentry => some .CreateDentryRequest
  | DeleteDentry => some .DeleteDentryRequest
  | GetInode => some .GetInodeRequest
  | BatchGetInodeAttr => some .BatchGetInodeAttrRequest
  | BatchGetXAttr => some .BatchGetXAttrRequest
  | CreateInode => some .CreateInodeRequest
  | UpdateInode => some .UpdateInodeRequest
  | DeleteInode => some .DeleteInodeRequest
  | CreateRootInode => some .CreateRootInodeRequest
  | CreatePartition => some .CreatePartitionRequest
  | DeletePartition => some .DeletePartitionRequest
  | PrepareRenameTx => some .PrepareRenameTxRequest
  | GetOrModifyS3ChunkInfo => some .GetOrModifyS3ChunkInfoRequest
  | GetVolumeExtent => some .GetVolumeExtentRequest
  | UpdateVolumeExtent => some .UpdateVolumeExtentRequest
  | CreateManageInode => some .CreateManageInodeRequest
  | SetFsQuota => some .SetFsQuotaRequest
  | GetFsQuota => some .GetFsQuotaRequest
  | FlushFsUsage => some .FlushFsUsageRequest
  | SetDirQuota => some .SetDirQuotaRequest
  | GetDirQuota => some .GetDirQuotaRequest
  | DeleteDirQuota => some .DeleteDirQuotaRequest
  | LoadDirQuotas => some .LoadDirQuotasRequest
  | FlushDirUsages => some .FlushDirUsagesRequest
  | OperatorTypeMax => none

theorem ofUInt32_toUInt32 (t : OperatorType) : ofUInt32 t.toUInt32 = some t := by
  cases t <;> rfl

theorem toUInt32_lt (t : OperatorType) : t.toUInt32 < 2 ^ 32 := by
  cases t <;> decide

end OperatorType

/-- The protobuf message classes, their wire encoding (`SerializeToZeroCopyStream`, whose
length is `ByteSizeLong`) and their parser (`ParseFromZeroCopyStream`). -/
structure Protobuf where
  Msg : RequestType → Type
  serialize : {t : RequestType} → Msg t → List UInt8
  parse : (t : RequestType) → List UInt8 → Option (Msg t)

variable (P : Protobuf)

/-- What the codec builds: an operator, named by the type its `GetOperatorType()`
returns (`OPERATOR_TYPE(X)` makes `XOperator` return `X`), holding `request_` together
with the class it was parsed as. -/
structure MetaOperator where
  operatorType : OperatorType
  request : Σ t, P.Msg t

/-- `INT_MAX`, the largest request `Encode` frames. -/
def INT_MAX : Nat := 2 ^ 31 - 1

/-- `RaftLogCodec::Encode`: the type, the request size, then the request, the two numbers
as `HostToNet32` leaves them. A request larger than `INT_MAX` is refused. -/
def encode (type : OperatorType) {t : RequestType} (request : P.Msg t) :
    Option (List UInt8) :=
  let requestSize := (P.serialize request).length
  if requestSize > INT_MAX then none
  else some (toBytesBE32 type.toUInt32 ++ toBytesBE32 requestSize ++ P.serialize request)

/-- `ParseFromRaftLog<MetaOperatorT, RequestT>`: parse the bytes as `RequestT`; build the
operator or return `nullptr`. -/
def parseFromRaftLog (op : OperatorType) (t : RequestType) (metaBytes : List UInt8) :
    Option (MetaOperator P) :=
  (P.parse t metaBytes).map fun m => ⟨op, ⟨t, m⟩⟩

/-- The switch of `RaftLogCodec::Decode`, case by case as the source writes it: the
operator class (by the type it reports) and the request class each case instantiates
`ParseFromRaftLog` with. `OperatorTypeMax` breaks out to `nullptr`. -/
def decodeCase : OperatorType → Option (OperatorType × RequestType)
  | .SetFsQuota => some (.SetFsQuota, .SetFsQuotaRequest)
  | .GetFsQuota => some (.GetFsQuota, .GetFsQuotaRequest)
  | .FlushFsUsage => some (.FlushFsUsage, .FlushFsUsageRequest)
  | .SetDirQuota => some (.SetDirQuota, .SetDirQuotaRequest)
  | .GetDirQuota => some (.GetDirQuota, .GetDirQuotaRequest)
  | .DeleteDirQuota => some (.DeleteDirQuota, .DeleteDirQuotaRequest)
  | .LoadDirQuotas => some (.LoadDirQuotas, .LoadDirQuotasRequest)
  | .FlushDirUsages => some (.FlushDirUsages, .FlushDirUsagesRequest)
  | .GetDentry => some (.GetDentry, .GetDentryRequest)
  | .ListDentry => some (.ListDentry, .ListDentryRequest)
  | .CreateDentry => some (.CreateDentry, .CreateDentryRequest)
  | .DeleteDentry => some (.DeleteDentry, .DeleteDentryRequest)
  | .GetInode => some (.GetInode, .GetInodeRequest)
  | .BatchGetInodeAttr => some (.BatchGetInodeAttr, .BatchGetInodeAttrRequest)
  | .BatchGetXAttr => some (.BatchGetXAttr, .BatchGetInodeAttrRequest)
  | .CreateInode => some (.CreateInode, .CreateInodeRequest)
  | .UpdateInode => some (.UpdateInode, .UpdateInodeRequest)
  | .DeleteInode => some (.DeleteInode, .DeleteInodeRequest)
  | .CreateRootInode => some (.CreateRootInode, .CreateRootInodeRequest)
  | .CreateManageInode => some (.CreateManageInode, .CreateManageInodeRequest)
  | .CreatePartition => some (.CreatePartition, .CreatePartitionRequest)
  | .DeletePartition => some (.DeletePartition, .DeletePartitionRequest)
  | .PrepareRenameTx => some (.PrepareRenameTx, .PrepareRenameTxRequest)
  | .GetOrModifyS3ChunkInfo => some (.GetOrModifyS3ChunkInfo, .GetOrModifyS3ChunkInfoRequest)
  | .GetVolumeExtent => some (.GetVolumeExtent, .GetVolumeExtentRequest)
  | .UpdateVolumeExtent => some (.UpdateVolumeExtent, .UpdateVolumeExtentRequest)
  | .OperatorTypeMax => none

/-- `RaftLogCodec::Decode`: cut the type and the size (`NetToHost32`), cut the request
bytes, and dispatch. `IOBuf::cutn` into a buffer takes what is left when the log is short;
for the two fixed-size fields the source would then read uninitialised bytes, and the model
builds no operator. -/
def decode (log : List UInt8) : Option (MetaOperator P) := do
  let (logtype, log) ← readBE32 log
  let (metaSize, log) ← readBE32 log
  let metaBytes := log.take metaSize
  let type ← OperatorType.ofUInt32 logtype
  let (op, t) ← decodeCase type
  parseFromRaftLog P op t metaBytes

/-! ## Round trip -/

/-- Every case but `BatchGetXAttr` pairs a type with its own operator and with the request
class that operator reads. -/
theorem decodeCase_of_ne_batchGetXAttr {type : OperatorType} {t : RequestType}
    (ht : type.requestType = some t) (hx : type ≠ .BatchGetXAttr) :
    decodeCase type = some (type, t) := by
  cases type <;> simp_all [OperatorType.requestType, decodeCase]

/-- The `BatchGetXAttr` case builds a `BatchGetXAttrOperator` but parses the bytes as a
`BatchGetInodeAttrRequest`. -/
theorem decodeCase_batchGetXAttr :
    decodeCase .BatchGetXAttr = some (.BatchGetXAttr, .BatchGetInodeAttrRequest) := rfl

/-- An encoded log is the two fields and the request bytes, and `Decode` cuts exactly the
request back out. -/
theorem decode_of_encode {type : OperatorType} {t : RequestType} {r : P.Msg t}
    {log : List UInt8} (h : encode P type r = some log) :
    decode P log = (do
      let type ← OperatorType.ofUInt32 type.toUInt32
      let (op, t) ← decodeCase type
      parseFromRaftLog P op t (P.serialize r)) := by
  unfold encode at h
  dsimp only at h
  split at h
  · cases h
  · rename_i hsize
    have hlt : (P.serialize r).length < 2 ^ 32 := by
      simp only [INT_MAX] at hsize
      omega
    cases h
    simp [decode, readBE32_toBytesBE32 (OperatorType.toUInt32_lt type),
      readBE32_toBytesBE32 hlt]

variable {P}

/-- Decoding what was encoded gives back an operator of the same type holding the same
request, for every type whose case names the class its operator reads. -/
theorem decode_encode (hparse : ∀ (t : RequestType) (m : P.Msg t), P.parse t (P.serialize m) = some m)
    {type : OperatorType} {t : RequestType} (ht : type.requestType = some t)
    (hx : type ≠ .BatchGetXAttr) (r : P.Msg t) {log : List UInt8}
    (henc : encode P type r = some log) :
    decode P log = some ⟨type, ⟨t, r⟩⟩ := by
  simp [decode_of_encode P henc, OperatorType.ofUInt32_toUInt32,
    decodeCase_of_ne_batchGetXAttr ht hx, parseFromRaftLog, hparse]

/-- The operator decoded from an encoded `BatchGetXAttr` request, whatever protobuf does,
holds a `BatchGetInodeAttrRequest` (or is `nullptr` when the bytes do not parse as one),
never the `BatchGetXAttrRequest` that was encoded. -/
theorem decode_encode_batchGetXAttr (r : P.Msg .BatchGetXAttrRequest) :
    ∀ log ∈ encode P .BatchGetXAttr r, ∀ op ∈ decode P log,
      op.operatorType = .BatchGetXAttr ∧ op.request.1 = .BatchGetInodeAttrRequest := by
  intro log henc op hop
  rw [decode_of_encode P henc] at hop
  simp only [OperatorType.ofUInt32_toUInt32, Option.bind_eq_bind, Option.bind_some,
    decodeCase_batchGetXAttr, parseFromRaftLog, Option.mem_def] at hop
  cases hm : P.parse .BatchGetInodeAttrRequest (P.serialize r) with
  | none => simp [hm] at hop
  | some m =>
    simp only [hm, Option.map_some, Option.some.injEq] at hop
    subst hop
    exact ⟨rfl, rfl⟩

/-- Messages read as their own wire bytes: every class parses every encoding, as protobuf
does for two classes with the same fields. -/
def rawProtobuf : Protobuf where
  Msg _ := List UInt8
  serialize m := m
  parse _ bs := some bs

/-- The empty `BatchGetXAttrRequest`, encoded and decoded, comes back inside a
`BatchGetXAttrOperator` as an empty `BatchGetInodeAttrRequest`. -/
theorem decode_encode_batchGetXAttr_raw :
    let r : rawProtobuf.Msg .BatchGetXAttrRequest := []
    let op : MetaOperator rawProtobuf := ⟨.BatchGetXAttr, ⟨.BatchGetInodeAttrRequest, []⟩⟩
    (encode rawProtobuf .BatchGetXAttr r).bind (decode rawProtobuf) = some op ∧
      op.operatorType = .BatchGetXAttr ∧ op.request.1 = .BatchGetInodeAttrRequest := by
  intro r op
  have henc : encode rawProtobuf .BatchGetXAttr r = some (toBytesBE32 6 ++ toBytesBE32 0) := by
    simp [encode, r, rawProtobuf, INT_MAX]
    rfl
  have hdec : decode rawProtobuf (toBytesBE32 6 ++ toBytesBE32 0) = some op := by
    simp [decode, readBE32, cutn, toBytesBE32, OperatorType.ofUInt32, decodeCase,
      parseFromRaftLog, rawProtobuf, op]
  rw [henc, Option.bind_some]
  exact ⟨hdec, decode_encode_batchGetXAttr r _ (by rw [henc]; rfl) op (by rw [hdec]; rfl)⟩

end DingoFs.Metaserver.Copyset
