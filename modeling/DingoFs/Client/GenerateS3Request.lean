import DingoFs.Client.S3CacheManager
import DingoFs.Lib.OrderedSet
import DingoFs.Lib.Overlay

/-!
# Reading a chunk from its infos: `FileCacheManager::GenerateS3Request`

A read request of a chunk starts as the one entry of a map keyed by chunk position. The infos
of the chunk are applied newest first: `HandleReadRequest` matches every pending request
against the info, and a request the info meets is erased and replaced by the parts the info
does not cover, while the part it covers becomes an S3 read (or a zero fill for a zero info).
The loop stops when nothing is pending; whatever is still pending after the last info is
zero-filled.

`HandleSpec` says what one call of `HandleReadRequest` does, and `ReadPlanInv` what the map and
the outputs mean after the infos applied so far: every byte of the request's buffer is written
by exactly one pending request, S3 read or zero fill, a pending byte is covered by none of
those infos, and a written byte by the newest of them that covers it. `HandleReadRequest` either misses a request
or cuts it at the overlap with the info (`handleReadRequest_cases`), and each case meets
`HandleSpec` (`handleSpec_miss`, `cutRequest_spec`). Each round keeps the invariant
(`ReadPlanInv.round`), so it holds when the loop ends (`ReadPlanInv.loop`), and
`generateS3Request_reads_newest` states that the S3 reads and zero fills it returns write every
byte of the buffer exactly once: from the newest info that covers the byte (with a zero when that
info is a zero info), and with a zero where no info covers it.
-/

namespace DingoFs.Client

open DingoFs.Lib DingoFs.Metaserver

/-! ## The model -/

/-- `std::map<uint64_t, ReadRequest>`: the pending requests by chunk position. -/
abbrev ReadRequestMap := List (Nat × ReadRequest)

/-- The loop of `GenerateS3Request` over the pending requests for one chunk info:
`HandleReadRequest` on each in key order, their outputs collected in that order. -/
def handleReadRequests (chunkSize blockSize fsId inodeId : Nat) (s3ChunkInfo : S3ChunkInfo) :
    ReadRequestMap → HandledRead
  | [] => ⟨[], [], [], []⟩
  | (_, readRequest) :: rest =>
    let h := handleReadRequest chunkSize blockSize fsId inodeId readRequest s3ChunkInfo
    let t := handleReadRequests chunkSize blockSize fsId inodeId s3ChunkInfo rest
    ⟨h.addReadRequests ++ t.addReadRequests, h.deletingReq ++ t.deletingReq,
      h.requests ++ t.requests, h.zeroFills ++ t.zeroFills⟩

/-- The pending map after a round: the requests to delete erased, then the parts emplaced. -/
def readRequestsAfter (h : HandledRead) (readRequests : ReadRequestMap) : ReadRequestMap :=
  h.addReadRequests.foldl (fun m r => orderedMapEmplace r.chunkPos r m)
    (h.deletingReq.foldl (fun m k => orderedMapErase k m) readRequests)

/-- The loop of `GenerateS3Request` over the chunk infos, newest first: the requests an info
meets are erased before their parts are emplaced, and the loop stops once nothing is pending.
It returns the pending requests, the S3 reads and the zero fills. -/
def generateS3RequestLoop (chunkSize blockSize fsId inodeId : Nat) :
    List S3ChunkInfo → ReadRequestMap → List S3ReadRequest → List (Nat × Nat) →
      ReadRequestMap × List S3ReadRequest × List (Nat × Nat)
  | [], readRequests, requests, zeroFills => (readRequests, requests, zeroFills)
  | s3ChunkInfo :: infos, readRequests, requests, zeroFills =>
    let h := handleReadRequests chunkSize blockSize fsId inodeId s3ChunkInfo readRequests
    let added := readRequestsAfter h readRequests
    if added.isEmpty then (added, requests ++ h.requests, zeroFills ++ h.zeroFills)
    else
      generateS3RequestLoop chunkSize blockSize fsId inodeId infos added
        (requests ++ h.requests) (zeroFills ++ h.zeroFills)

/-- `FileCacheManager::GenerateS3Request`: the S3 reads for `request` from the infos of its
chunk, and the buffer ranges `(offset, len)` it zero-fills. -/
def generateS3Request (chunkSize blockSize fsId inodeId : Nat) (request : ReadRequest)
    (s3ChunkInfoList : S3ChunkInfoList) : List S3ReadRequest × List (Nat × Nat) :=
  let r := generateS3RequestLoop chunkSize blockSize fsId inodeId s3ChunkInfoList.reverse
    [(request.chunkPos, request)] [] []
  (r.2.1, r.2.2 ++ r.1.map fun e => (e.2.bufOffset, e.2.len))

/-! ## What the buffer receives -/

/-- The file offset of the request's first byte. -/
def ReadRequest.fileOffset (chunkSize : Nat) (r : ReadRequest) : Nat :=
  r.index * chunkSize + r.chunkPos

/-- The request covers byte `q` of the buffer. -/
def ReadRequest.Fills (r : ReadRequest) (q : Nat) : Prop :=
  r.bufOffset ≤ q ∧ q < r.bufOffset + r.len

/-- The S3 read writes byte `q` of the buffer. -/
def S3ReadRequest.Fills (s : S3ReadRequest) (q : Nat) : Prop :=
  s.readOffset ≤ q ∧ q < s.readOffset + s.len

/-- The zero fill `(offset, len)` writes byte `q` of the buffer. -/
def FillsZero (z : Nat × Nat) (q : Nat) : Prop :=
  z.1 ≤ q ∧ q < z.1 + z.2

instance (r : ReadRequest) (q : Nat) : Decidable (r.Fills q) :=
  inferInstanceAs (Decidable (_ ∧ _))

instance (s : S3ReadRequest) (q : Nat) : Decidable (s.Fills q) :=
  inferInstanceAs (Decidable (_ ∧ _))

instance (z : Nat × Nat) (q : Nat) : Decidable (FillsZero z q) :=
  inferInstanceAs (Decidable (_ ∧ _))

/-- The S3 read writes buffer byte `q` with byte `p` of the info's data: it reads the info's
chunk at the info's compaction, inside the info's range, and byte `q` lies as far into the read
as `p` does. -/
def S3ReadRequest.Reads (s : S3ReadRequest) (info : S3ChunkInfo) (q p : Nat) : Prop :=
  s.chunkId = info.chunkid ∧ s.compaction = info.compaction ∧ info.offset ≤ s.offset ∧
    s.offset + s.len ≤ info.offset + info.len ∧ s.offset + q = s.readOffset + p

/-- A part `a` of the request `r`: inside it, as far into the buffer as into the chunk, and not
empty. -/
structure ReadRequest.Within (r a : ReadRequest) : Prop where
  index : a.index = r.index
  start : r.chunkPos ≤ a.chunkPos
  stop : a.chunkPos + a.len ≤ r.chunkPos + r.len
  buf : a.bufOffset + r.chunkPos = r.bufOffset + a.chunkPos
  len_pos : 0 < a.len

theorem ReadRequest.within_iff {r a : ReadRequest} :
    r.Within a ↔ a.index = r.index ∧ r.chunkPos ≤ a.chunkPos ∧
      a.chunkPos + a.len ≤ r.chunkPos + r.len ∧ a.bufOffset + r.chunkPos = r.bufOffset + a.chunkPos ∧
      0 < a.len :=
  ⟨fun h => ⟨h.index, h.start, h.stop, h.buf, h.len_pos⟩, fun h => ⟨h.1, h.2.1, h.2.2.1, h.2.2.2.1, h.2.2.2.2⟩⟩

theorem ReadRequest.Within.refl {r : ReadRequest} (hr : 0 < r.len) : r.Within r :=
  ⟨rfl, le_refl _, le_refl _, rfl, hr⟩

theorem ReadRequest.Within.trans {r a b : ReadRequest} (hra : r.Within a) (hab : a.Within b) :
    r.Within b :=
  ⟨hab.index.trans hra.index, hra.start.trans hab.start, by have := hra.stop; have := hab.stop; omega,
    by have := hra.buf; have := hab.buf; have := hra.start; have := hab.start; omega, hab.len_pos⟩

/-- A byte the part `x` writes lies as far into its buffer range as its file position lies
into its file range. -/
theorem ReadRequest.Within.fills {chunkSize : Nat} {R x : ReadRequest} (h : R.Within x) {k : Nat}
    (hx : x.Fills (R.bufOffset + k)) :
    ∃ k' < x.len, R.bufOffset + k = x.bufOffset + k' ∧
      R.fileOffset chunkSize + k = x.fileOffset chunkSize + k' := by
  have hbuf := h.buf
  have hstart := h.start
  refine ⟨R.bufOffset + k - x.bufOffset, by unfold ReadRequest.Fills at hx; omega, by
    unfold ReadRequest.Fills at hx; omega, ?_⟩
  unfold ReadRequest.fileOffset ReadRequest.Fills at *
  rw [h.index]
  omega

theorem ReadRequest.Within.fills_of_fills {r a : ReadRequest} (h : r.Within a) {q : Nat}
    (ha : a.Fills q) : r.Fills q := by
  have := h.buf
  have := h.start
  have := h.stop
  unfold ReadRequest.Fills at *
  omega

/-! ## One request against one info -/

/-- What `HandleReadRequest` does with the request `r` and the info `info`. It drops only `r`,
and keeps it, with nothing else done, when the info covers none of it. Once it drops `r`, its
parts, reads and zero fills write each byte of `r`'s buffer once. The parts are what the info
does not cover, the reads and zero fills what it does. -/
structure HandleSpec (chunkSize : Nat) (r : ReadRequest) (info : S3ChunkInfo) (h : HandledRead) :
    Prop where
  deleting : ∀ k ∈ h.deletingReq, k = r.chunkPos
  kept : r.chunkPos ∉ h.deletingReq → h.addReadRequests = [] ∧ h.requests = [] ∧
    h.zeroFills = [] ∧ ∀ k < r.len, ¬ info.Covers (r.fileOffset chunkSize + k)
  count : r.chunkPos ∈ h.deletingReq → ∀ q,
    h.addReadRequests.countP (fun a => decide (a.Fills q)) +
      h.requests.countP (fun s => decide (s.Fills q)) +
      h.zeroFills.countP (fun z => decide (FillsZero z q)) = if r.Fills q then 1 else 0
  parts : ∀ a ∈ h.addReadRequests,
    r.Within a ∧ ∀ k < a.len, ¬ info.Covers (a.fileOffset chunkSize + k)
  reads : ∀ s ∈ h.requests, ∀ k, s.Fills (r.bufOffset + k) →
    info.Covers (r.fileOffset chunkSize + k) ∧ info.zero = false ∧
      s.Reads info (r.bufOffset + k) (r.fileOffset chunkSize + k)
  zeros : ∀ z ∈ h.zeroFills, ∀ k, FillsZero z (r.bufOffset + k) →
    info.Covers (r.fileOffset chunkSize + k) ∧ info.zero = true

section Spec

variable {chunkSize : Nat} {r : ReadRequest} {info : S3ChunkInfo} {h : HandledRead}

/-- Whatever the call writes lies in the buffer range of the request it dropped. -/
theorem HandleSpec.dropped_of_count (hs : HandleSpec chunkSize r info h) {q : Nat}
    (hq : 0 < h.addReadRequests.countP (fun a => decide (a.Fills q)) +
      h.requests.countP (fun s => decide (s.Fills q)) +
      h.zeroFills.countP (fun z => decide (FillsZero z q))) :
    r.chunkPos ∈ h.deletingReq ∧ r.Fills q := by
  by_cases hdel : r.chunkPos ∈ h.deletingReq
  · have hcount := hs.count hdel q
    refine ⟨hdel, ?_⟩
    by_contra hnot
    rw [if_neg hnot] at hcount
    omega
  · obtain ⟨hadd, hreq, hzero, -⟩ := hs.kept hdel
    simp [hadd, hreq, hzero] at hq

theorem HandleSpec.dropped_of_read (hs : HandleSpec chunkSize r info h) {s : S3ReadRequest}
    (hmem : s ∈ h.requests) {q : Nat} (hq : s.Fills q) :
    r.chunkPos ∈ h.deletingReq ∧ r.Fills q := by
  have : 0 < h.requests.countP (fun s => decide (s.Fills q)) :=
    List.countP_pos_iff.mpr ⟨s, hmem, decide_eq_true hq⟩
  exact hs.dropped_of_count (by omega)

theorem HandleSpec.dropped_of_zero (hs : HandleSpec chunkSize r info h) {z : Nat × Nat}
    (hmem : z ∈ h.zeroFills) {q : Nat} (hq : FillsZero z q) :
    r.chunkPos ∈ h.deletingReq ∧ r.Fills q := by
  have : 0 < h.zeroFills.countP (fun z => decide (FillsZero z q)) :=
    List.countP_pos_iff.mpr ⟨z, hmem, decide_eq_true hq⟩
  exact hs.dropped_of_count (by omega)

/-- A byte of the request that a data info covers is read from that info by one of the call's
S3 reads: the parts miss the info and a data info has no zero fills, so the one writer the count
leaves for the byte is a read. -/
theorem HandleSpec.covered_read (hs : HandleSpec chunkSize r info h) (hz : info.zero = false)
    {k : Nat} (hk : k < r.len) (hcov : info.Covers (r.fileOffset chunkSize + k)) :
    ∃ s ∈ h.requests, s.Fills (r.bufOffset + k) ∧
      s.Reads info (r.bufOffset + k) (r.fileOffset chunkSize + k) := by
  have hdel : r.chunkPos ∈ h.deletingReq := by
    by_contra hkeep
    exact (hs.kept hkeep).2.2.2 k hk hcov
  have hcount := hs.count hdel (r.bufOffset + k)
  rw [if_pos (show r.Fills (r.bufOffset + k) from ⟨by omega, by omega⟩)] at hcount
  have hparts : h.addReadRequests.countP (fun a => decide (a.Fills (r.bufOffset + k))) = 0 := by
    rw [List.countP_eq_zero]
    intro a ha hfill
    obtain ⟨hwithin, hmiss⟩ := hs.parts a ha
    obtain ⟨k', hk', -, hpos⟩ : ∃ k' < a.len, r.bufOffset + k = a.bufOffset + k' ∧
        r.fileOffset chunkSize + k = a.fileOffset chunkSize + k' :=
      hwithin.fills (of_decide_eq_true hfill)
    exact hmiss k' hk' (hpos ▸ hcov)
  have hzeros : h.zeroFills.countP (fun z => decide (FillsZero z (r.bufOffset + k))) = 0 := by
    rw [List.countP_eq_zero]
    intro z hmem hfill
    have hzero := (hs.zeros z hmem k (of_decide_eq_true hfill)).2
    rw [hz] at hzero
    exact Bool.false_ne_true hzero
  obtain ⟨s, hmem, hfill⟩ := List.countP_pos_iff.mp (show 0 < h.requests.countP
    (fun s => decide (s.Fills (r.bufOffset + k))) by omega)
  exact ⟨s, hmem, of_decide_eq_true hfill, (hs.reads s hmem k (of_decide_eq_true hfill)).2.2⟩

end Spec

section Handle

variable {chunkSize blockSize fsId inodeId : Nat} {r : ReadRequest} {info : S3ChunkInfo}

/-- An info that misses the request: the call keeps it and does nothing else. -/
theorem handleSpec_miss (hmiss : r.fileOffset chunkSize + r.len ≤ info.offset ∨
      info.offset + info.len ≤ r.fileOffset chunkSize) :
    HandleSpec chunkSize r info ⟨[], [], [], []⟩ where
  deleting _ hk := absurd hk List.not_mem_nil
  kept _ := ⟨rfl, rfl, rfl, fun k _ hcov => by unfold S3ChunkInfo.Covers at hcov; omega⟩
  count hdel := absurd hdel List.not_mem_nil
  parts _ ha := absurd ha List.not_mem_nil
  reads _ hs := absurd hs List.not_mem_nil
  zeros _ hz := absurd hz List.not_mem_nil

theorem ReadRequest.mem_partBefore {lo : Nat} {a : ReadRequest}
    (ha : a ∈ r.partBefore chunkSize lo) :
    r.fileOffset chunkSize < lo ∧ a = ⟨r.index, r.chunkPos, lo - r.fileOffset chunkSize, r.bufOffset⟩ := by
  unfold ReadRequest.partBefore at ha
  dsimp only at ha
  split_ifs at ha with hlt
  · exact ⟨hlt, List.mem_singleton.mp ha⟩
  · exact absurd ha List.not_mem_nil

theorem ReadRequest.mem_partFrom {hi : Nat} {a : ReadRequest} (ha : a ∈ r.partFrom chunkSize hi) :
    hi < r.fileOffset chunkSize + r.len ∧
      a = ⟨r.index, r.chunkPos + (hi - r.fileOffset chunkSize),
        r.fileOffset chunkSize + r.len - hi, r.bufOffset + (hi - r.fileOffset chunkSize)⟩ := by
  unfold ReadRequest.partFrom at ha
  dsimp only at ha
  split_ifs at ha with hlt
  · exact ⟨hlt, List.mem_singleton.mp ha⟩
  · exact absurd ha List.not_mem_nil

theorem ReadRequest.countP_fills_singleton (a : ReadRequest) (q : Nat) :
    [a].countP (fun a => decide (a.Fills q)) =
      if a.bufOffset ≤ q ∧ q < a.bufOffset + a.len then 1 else 0 := by
  rw [List.countP_singleton]
  exact if_congr decide_eq_true_iff rfl rfl

theorem S3ReadRequest.countP_fills_singleton (s : S3ReadRequest) (q : Nat) :
    [s].countP (fun s => decide (s.Fills q)) =
      if s.readOffset ≤ q ∧ q < s.readOffset + s.len then 1 else 0 := by
  rw [List.countP_singleton]
  exact if_congr decide_eq_true_iff rfl rfl

theorem countP_fillsZero_singleton (z : Nat × Nat) (q : Nat) :
    [z].countP (fun z => decide (FillsZero z q)) = if z.1 ≤ q ∧ q < z.1 + z.2 then 1 else 0 := by
  rw [List.countP_singleton]
  exact if_congr decide_eq_true_iff rfl rfl

theorem ReadRequest.fileOffset_shift (r : ReadRequest) (d len bufOffset : Nat) :
    ReadRequest.fileOffset chunkSize ⟨r.index, r.chunkPos + d, len, bufOffset⟩ =
      r.fileOffset chunkSize + d := by
  unfold ReadRequest.fileOffset
  dsimp only
  omega

/-- The part before `lo` writes the buffer from the request's start up to `lo`. -/
theorem ReadRequest.countP_partBefore (lo q : Nat) :
    (r.partBefore chunkSize lo).countP (fun a => decide (a.Fills q)) =
      if r.bufOffset ≤ q ∧ q < r.bufOffset + (lo - r.fileOffset chunkSize) then 1 else 0 := by
  unfold ReadRequest.partBefore ReadRequest.fileOffset
  dsimp only
  by_cases hlt : r.index * chunkSize + r.chunkPos < lo
  · rw [if_pos hlt, ReadRequest.countP_fills_singleton]
  · rw [if_neg hlt, List.countP_nil, if_neg (by omega)]

/-- The part from `hi` on writes the buffer from `hi` to the request's end. -/
theorem ReadRequest.countP_partFrom {hi : Nat} (hF : r.fileOffset chunkSize ≤ hi) (q : Nat) :
    (r.partFrom chunkSize hi).countP (fun a => decide (a.Fills q)) =
      if r.bufOffset + (hi - r.fileOffset chunkSize) ≤ q ∧ q < r.bufOffset + r.len then 1 else 0 := by
  unfold ReadRequest.partFrom
  unfold ReadRequest.fileOffset at hF ⊢
  dsimp only
  by_cases hlt : hi < r.index * chunkSize + r.chunkPos + r.len
  · rw [if_pos hlt, ReadRequest.countP_fills_singleton]
    -- omega takes a subtraction from a product for an atom: name the file offset first
    generalize r.index * chunkSize + r.chunkPos = F at hF hlt ⊢
    have hend : r.bufOffset + (hi - F) + (F + r.len - hi) = r.bufOffset + r.len := by omega
    rw [hend]
  · rw [if_neg hlt, List.countP_nil, if_neg (by omega)]

@[simp]
theorem cutRequest_deletingReq {lo hi objectOffset : Nat} :
    (cutRequest chunkSize fsId inodeId r info lo hi objectOffset).deletingReq = [r.chunkPos] := by
  unfold cutRequest
  split <;> rfl

@[simp]
theorem cutRequest_addReadRequests {lo hi objectOffset : Nat} :
    (cutRequest chunkSize fsId inodeId r info lo hi objectOffset).addReadRequests =
      r.partBefore chunkSize lo ++ r.partFrom chunkSize hi := by
  unfold cutRequest
  split <;> rfl

@[simp]
theorem cutRequest_requests {lo hi objectOffset : Nat} :
    (cutRequest chunkSize fsId inodeId r info lo hi objectOffset).requests =
      if info.zero then [] else [⟨info.chunkid, lo, hi - lo, objectOffset,
        r.bufOffset + (lo - r.fileOffset chunkSize), info.compaction, fsId, inodeId⟩] := by
  unfold cutRequest
  split <;> rfl

@[simp]
theorem cutRequest_zeroFills {lo hi objectOffset : Nat} :
    (cutRequest chunkSize fsId inodeId r info lo hi objectOffset).zeroFills =
      if info.zero then [(r.bufOffset + (lo - r.fileOffset chunkSize), hi - lo)] else [] := by
  unfold cutRequest
  split <;> rfl

/-- A cut at the overlap of the request and an info that meets it does what `HandleSpec` says:
the parts before and after the overlap and its read or zero fill tile the request's buffer. -/
theorem cutRequest_spec {lo hi : Nat} (hstart : info.offset < r.fileOffset chunkSize + r.len)
    (hend : r.fileOffset chunkSize < info.offset + info.len)
    (hlo : lo = max (r.fileOffset chunkSize) info.offset)
    (hhi : hi = min (r.fileOffset chunkSize + r.len) (info.offset + info.len)) (objectOffset : Nat) :
    HandleSpec chunkSize r info (cutRequest chunkSize fsId inodeId r info lo hi objectOffset) where
  deleting k hk := by simpa using hk
  kept hkeep := absurd (by simp) hkeep
  count _ q := by
    have hF : r.fileOffset chunkSize ≤ hi := by omega
    rw [cutRequest_addReadRequests, cutRequest_requests, cutRequest_zeroFills, List.countP_append,
      ReadRequest.countP_partBefore, ReadRequest.countP_partFrom hF,
      show (if r.Fills q then 1 else 0) =
        if r.bufOffset ≤ q ∧ q < r.bufOffset + r.len then 1 else 0 from if_congr Iff.rfl rfl rfl]
    -- the part before, the part after and the read or zero fill of the overlap tile the buffer
    cases info.zero
    · rw [if_neg Bool.false_ne_true, if_neg Bool.false_ne_true, S3ReadRequest.countP_fills_singleton,
        List.countP_nil]
      dsimp only
      split_ifs <;> omega
    · rw [if_pos rfl, if_pos rfl, countP_fillsZero_singleton, List.countP_nil]
      dsimp only
      split_ifs <;> omega
  parts a ha := by
    rw [cutRequest_addReadRequests, List.mem_append] at ha
    rcases ha with ha | ha
    · -- before the overlap: the request starts before the info
      obtain ⟨hlt, rfl⟩ := ReadRequest.mem_partBefore ha
      refine ⟨⟨rfl, le_refl _, by dsimp only; omega, rfl, by dsimp only; omega⟩,
        fun k hk hcov => ?_⟩
      change info.Covers (r.fileOffset chunkSize + k) at hcov
      unfold S3ChunkInfo.Covers at hcov
      dsimp only at hk
      omega
    · -- after the overlap: the request ends after the info
      obtain ⟨hlt, rfl⟩ := ReadRequest.mem_partFrom ha
      refine ⟨⟨rfl, by dsimp only; omega, by dsimp only; omega, by dsimp only; omega,
        by dsimp only; omega⟩, fun k hk hcov => ?_⟩
      rw [ReadRequest.fileOffset_shift] at hcov
      unfold S3ChunkInfo.Covers at hcov
      dsimp only at hk
      omega
  reads s hs k hk := by
    rw [cutRequest_requests] at hs
    cases hz : info.zero
    · rw [hz, if_neg Bool.false_ne_true, List.mem_singleton] at hs
      subst hs
      unfold S3ReadRequest.Fills at hk
      dsimp only at hk
      refine ⟨?_, rfl, rfl, rfl, by dsimp only; omega, by dsimp only; omega, by dsimp only; omega⟩
      unfold S3ChunkInfo.Covers
      omega
    · rw [hz, if_pos rfl] at hs
      exact absurd hs List.not_mem_nil
  zeros z hz k hk := by
    rw [cutRequest_zeroFills] at hz
    cases hzero : info.zero
    · rw [hzero, if_neg Bool.false_ne_true] at hz
      exact absurd hz List.not_mem_nil
    · rw [hzero, if_pos rfl, List.mem_singleton] at hz
      subst hz
      unfold FillsZero at hk
      dsimp only at hk
      refine ⟨?_, rfl⟩
      unfold S3ChunkInfo.Covers
      omega

/-- `HandleReadRequest` does what `HandleSpec` says, in each of its two cases. -/
theorem handleReadRequest_spec :
    HandleSpec chunkSize r info (handleReadRequest chunkSize blockSize fsId inodeId r info) := by
  rcases handleReadRequest_cases chunkSize blockSize fsId inodeId r info with
    ⟨hmiss, heq⟩ | ⟨hstart, hend, heq⟩
  · rw [heq]
    exact handleSpec_miss hmiss
  · rw [heq]
    exact cutRequest_spec hstart hend rfl rfl _

end Handle


/-! ## One round: every pending request against one info -/

section Round

variable {chunkSize blockSize fsId inodeId : Nat} {info : S3ChunkInfo}

/-- Entries that each write a byte their key names cannot share a key when no byte is written
twice. -/
theorem nodup_keys_of_countP_le_one {α : Type*} (key pt : α → Nat) (F : α → Nat → Bool) :
    ∀ {l : List α}, (∀ x ∈ l, F x (pt x) = true) →
      (∀ x ∈ l, ∀ y ∈ l, key x = key y → pt x = pt y) →
      (∀ q, l.countP (fun x => F x q) ≤ 1) → (l.map key).Nodup
  | [], _, _, _ => List.nodup_nil
  | x :: l, hpt, hkey, hcount => by
    rw [List.map_cons, List.nodup_cons]
    refine ⟨fun hmem => ?_, nodup_keys_of_countP_le_one key pt F
      (fun y hy => hpt y (List.mem_cons_of_mem x hy))
      (fun y hy z hz => hkey y (List.mem_cons_of_mem x hy) z (List.mem_cons_of_mem x hz))
      fun q => ?_⟩
    · -- another entry with `x`'s key writes the byte `x` writes
      obtain ⟨y, hy, hyx⟩ := List.mem_map.mp hmem
      have hxy : pt y = pt x := hkey y (List.mem_cons_of_mem x hy) x List.mem_cons_self hyx
      have hpos : 0 < l.countP (fun z => F z (pt x)) :=
        List.countP_pos_iff.mpr ⟨y, hy, hxy ▸ hpt y (List.mem_cons_of_mem x hy)⟩
      have := hcount (pt x)
      rw [List.countP_cons, if_pos (hpt x List.mem_cons_self)] at this
      omega
    · have := hcount q
      rw [List.countP_cons] at this
      split_ifs at this <;> omega

/-- The round's outputs are those of the pending requests, one after another. -/
theorem handleReadRequests_eq (M : ReadRequestMap) :
    handleReadRequests chunkSize blockSize fsId inodeId info M =
      ⟨M.flatMap fun e =>
          (handleReadRequest chunkSize blockSize fsId inodeId e.2 info).addReadRequests,
        M.flatMap fun e => (handleReadRequest chunkSize blockSize fsId inodeId e.2 info).deletingReq,
        M.flatMap fun e => (handleReadRequest chunkSize blockSize fsId inodeId e.2 info).requests,
        M.flatMap fun e => (handleReadRequest chunkSize blockSize fsId inodeId e.2 info).zeroFills⟩ := by
  induction M with
  | nil => rfl
  | cons e M ih =>
    obtain ⟨k, r⟩ := e
    rw [handleReadRequests, ih]
    simp only [List.flatMap_cons]

/-- The requests a round keeps, with the parts, reads and zero fills of those it drops, write
each byte as often as the pending requests did. The induction is on the map, one request's
`HandleSpec` at a time. -/
theorem countP_round (M : ReadRequestMap) (q : Nat) :
    (M.filter fun e => e.2.chunkPos ∉
        (handleReadRequest chunkSize blockSize fsId inodeId e.2 info).deletingReq).countP
        (fun e => decide (e.2.Fills q)) +
      (M.flatMap fun e =>
        (handleReadRequest chunkSize blockSize fsId inodeId e.2 info).addReadRequests).countP
        (fun a => decide (a.Fills q)) +
      (M.flatMap fun e => (handleReadRequest chunkSize blockSize fsId inodeId e.2 info).requests).countP
        (fun s => decide (s.Fills q)) +
      (M.flatMap fun e => (handleReadRequest chunkSize blockSize fsId inodeId e.2 info).zeroFills).countP
        (fun z => decide (FillsZero z q)) =
    M.countP (fun e => decide (e.2.Fills q)) := by
  induction M with
  | nil => rfl
  | cons e M ih =>
    have hs := @handleReadRequest_spec chunkSize blockSize fsId inodeId e.2 info
    simp only [List.flatMap_cons, List.countP_append, List.filter_cons]
    by_cases hdel : e.2.chunkPos ∈
        (handleReadRequest chunkSize blockSize fsId inodeId e.2 info).deletingReq
    · -- `e` is dropped, and its outputs write what it wrote
      have hcount := hs.count hdel q
      rw [if_neg (by simpa using hdel), List.countP_cons]
      by_cases hq : e.2.Fills q
      · rw [if_pos hq] at hcount
        simp only [hq, decide_true, if_true]
        omega
      · rw [if_neg hq] at hcount
        simp only [hq, decide_false, Bool.false_eq_true, if_false]
        omega
    · obtain ⟨hadd, hreq, hzero, -⟩ := hs.kept hdel
      rw [if_pos (by simpa using hdel), List.countP_cons, List.countP_cons, hadd, hreq, hzero]
      simp only [List.countP_nil]
      omega

end Round

/-! ## The loop invariant -/

/-- What the pending map and the outputs mean once the infos `done`, newest first, have been
applied to the request `R`. Every byte of `R`'s buffer is written by exactly one pending
request, S3 read or zero fill. A pending byte is covered by none of `done`. A written byte has
the data of the first info of `done` covering its file position. -/
structure ReadPlanInv (chunkSize : Nat) (R : ReadRequest) (done : List S3ChunkInfo)
    (M : ReadRequestMap) (requests : List S3ReadRequest) (zeroFills : List (Nat × Nat)) :
    Prop where
  keys : ∀ e ∈ M, e.1 = e.2.chunkPos ∧ R.Within e.2
  sorted : M.Pairwise fun a b => a.1 < b.1
  count : ∀ q, M.countP (fun e => decide (e.2.Fills q)) +
      requests.countP (fun s => decide (s.Fills q)) +
      zeroFills.countP (fun z => decide (FillsZero z q)) = if R.Fills q then 1 else 0
  pending : ∀ e ∈ M, ∀ k, e.2.Fills (R.bufOffset + k) →
    ∀ info ∈ done, ¬ info.Covers (R.fileOffset chunkSize + k)
  reads : ∀ s ∈ requests, ∀ k, s.Fills (R.bufOffset + k) →
    ∃ info, done.find? (fun info => decide (info.Covers (R.fileOffset chunkSize + k))) =
      some info ∧ info.zero = false ∧ s.Reads info (R.bufOffset + k) (R.fileOffset chunkSize + k)
  zeros : ∀ z ∈ zeroFills, ∀ k, FillsZero z (R.bufOffset + k) →
    ∃ info, done.find? (fun info => decide (info.Covers (R.fileOffset chunkSize + k))) =
      some info ∧ info.zero = true

section Inv

variable {chunkSize blockSize fsId inodeId : Nat} {R : ReadRequest}

/-- Before any info, the request itself is all that is pending. -/
theorem ReadPlanInv.init (hR : 0 < R.len) :
    ReadPlanInv chunkSize R [] [(R.chunkPos, R)] [] [] where
  keys := fun e he => by
    rw [List.mem_singleton.mp he]
    exact ⟨rfl, ReadRequest.Within.refl hR⟩
  sorted := List.pairwise_singleton _ _
  count := fun q => by by_cases hq : R.Fills q <;> simp [hq]
  pending := fun _ _ _ _ _ h => absurd h List.not_mem_nil
  reads := fun _ h => absurd h List.not_mem_nil
  zeros := fun _ h => absurd h List.not_mem_nil

/-- A pending key is erased exactly when its own request is dropped: keys are distinct and each
request drops only its own. -/
theorem ReadPlanInv.mem_deleting_iff {done : List S3ChunkInfo} {M : ReadRequestMap}
    {requests : List S3ReadRequest} {zeroFills : List (Nat × Nat)}
    (hinv : ReadPlanInv chunkSize R done M requests zeroFills) (info : S3ChunkInfo)
    {e : Nat × ReadRequest} (he : e ∈ M) :
    e.1 ∈ M.flatMap (fun e => (handleReadRequest chunkSize blockSize fsId inodeId e.2 info).deletingReq) ↔
      e.2.chunkPos ∈ (handleReadRequest chunkSize blockSize fsId inodeId e.2 info).deletingReq := by
  have hnodup : (M.map Prod.fst).Nodup :=
    List.pairwise_map.mpr (hinv.sorted.imp fun h => ne_of_lt h)
  rw [List.mem_flatMap]
  constructor
  · rintro ⟨e', he', hk⟩
    -- the key `e'`'s request drops is `e'`'s own, so `e'` is `e`
    have hkey : e.1 = e'.1 :=
      (handleReadRequest_spec.deleting _ hk).trans (hinv.keys e' he').1.symm
    obtain rfl := List.inj_on_of_nodup_map hnodup he he' hkey
    rwa [← (hinv.keys e he).1]
  · intro hk
    exact ⟨e, he, (hinv.keys e he).1 ▸ hk⟩

/-- One round keeps the invariant, with the info it applied appended to `done`. The map after
the round is, up to order, the requests kept followed by the parts of those dropped; their keys
are distinct because no byte is written twice. -/
theorem ReadPlanInv.round {done : List S3ChunkInfo} {M : ReadRequestMap}
    {requests : List S3ReadRequest} {zeroFills : List (Nat × Nat)}
    (hinv : ReadPlanInv chunkSize R done M requests zeroFills) (info : S3ChunkInfo) :
    ReadPlanInv chunkSize R (done ++ [info])
      (readRequestsAfter (handleReadRequests chunkSize blockSize fsId inodeId info M) M)
      (requests ++ (handleReadRequests chunkSize blockSize fsId inodeId info M).requests)
      (zeroFills ++ (handleReadRequests chunkSize blockSize fsId inodeId info M).zeroFills) := by
  rw [handleReadRequests_eq]
  -- the kept requests are those whose own call did not drop them
  have hkept : (M.filter fun e => decide (e.1 ∉ M.flatMap fun e =>
        (handleReadRequest chunkSize blockSize fsId inodeId e.2 info).deletingReq)) =
      M.filter fun e => decide (e.2.chunkPos ∉
        (handleReadRequest chunkSize blockSize fsId inodeId e.2 info).deletingReq) :=
    List.filter_congr fun e he => decide_eq_decide.mpr
      (not_congr (@ReadPlanInv.mem_deleting_iff _ blockSize fsId inodeId _ _ _ _ _ hinv info e he))
  have hmemN : ∀ x ∈ (M.filter fun e => decide (e.2.chunkPos ∉
        (handleReadRequest chunkSize blockSize fsId inodeId e.2 info).deletingReq)) ++
      (M.flatMap fun e =>
        (handleReadRequest chunkSize blockSize fsId inodeId e.2 info).addReadRequests).map
        (fun a => (a.chunkPos, a)), x.1 = x.2.chunkPos ∧ R.Within x.2 := by
    intro x hx
    rcases List.mem_append.mp hx with hx | hx
    · exact hinv.keys x (List.mem_of_mem_filter hx)
    · obtain ⟨a, ha, rfl⟩ := List.mem_map.mp hx
      obtain ⟨e, he, ha⟩ := List.mem_flatMap.mp ha
      exact ⟨rfl, (hinv.keys e he).2.trans (handleReadRequest_spec.parts a ha).1⟩
  have hcount : ∀ q, ((M.filter fun e => decide (e.2.chunkPos ∉
        (handleReadRequest chunkSize blockSize fsId inodeId e.2 info).deletingReq)) ++
      (M.flatMap fun e =>
        (handleReadRequest chunkSize blockSize fsId inodeId e.2 info).addReadRequests).map
        (fun a => (a.chunkPos, a))).countP (fun e => decide (e.2.Fills q)) +
      (requests ++ M.flatMap fun e =>
        (handleReadRequest chunkSize blockSize fsId inodeId e.2 info).requests).countP
        (fun s => decide (s.Fills q)) +
      (zeroFills ++ M.flatMap fun e =>
        (handleReadRequest chunkSize blockSize fsId inodeId e.2 info).zeroFills).countP
        (fun z => decide (FillsZero z q)) = if R.Fills q then 1 else 0 := by
    intro q
    have hround := @countP_round chunkSize blockSize fsId inodeId info M q
    have hold := hinv.count q
    have hparts : ((M.flatMap fun e =>
        (handleReadRequest chunkSize blockSize fsId inodeId e.2 info).addReadRequests).map
        (fun a => (a.chunkPos, a))).countP (fun e => decide (e.2.Fills q)) =
        (M.flatMap fun e =>
          (handleReadRequest chunkSize blockSize fsId inodeId e.2 info).addReadRequests).countP
          (fun a => decide (a.Fills q)) := by
      rw [List.countP_map]
      rfl
    rw [List.countP_append, List.countP_append, List.countP_append, hparts]
    omega
  -- no byte is written twice, so the keys of the new map are distinct
  have hnodup := nodup_keys_of_countP_le_one Prod.fst
    (fun e : Nat × ReadRequest => e.2.bufOffset)
    (fun (e : Nat × ReadRequest) q => decide (e.2.Fills q))
    (fun x hx => decide_eq_true (show x.2.bufOffset ≤ x.2.bufOffset ∧
      x.2.bufOffset < x.2.bufOffset + x.2.len by have := (hmemN x hx).2.len_pos; omega))
    (fun x hx y hy hxy => by
      have hx' := hmemN x hx
      have hy' := hmemN y hy
      have := hx'.2.buf
      have := hy'.2.buf
      omega)
    (fun q => by have := hcount q; split_ifs at this <;> omega)
  obtain ⟨hperm, hsorted⟩ := foldl_orderedMapEmplace _ _ hnodup
    (hinv.sorted.sublist List.filter_sublist)
  have hfold : ∀ (l : List ReadRequest) (t : ReadRequestMap),
      l.foldl (fun m r => orderedMapEmplace r.chunkPos r m) t =
        (l.map fun a => (a.chunkPos, a)).foldl (fun m u => orderedMapEmplace u.1 u.2 m) t :=
    fun l t => by rw [List.foldl_map]
  unfold readRequestsAfter
  dsimp only
  rw [foldl_orderedMapErase, hkept, hfold]
  refine ⟨fun e he => hmemN e (hperm.subset he), hsorted,
    fun q => by rw [hperm.countP_eq]; exact hcount q, ?_, ?_, ?_⟩
  · -- a pending byte: a kept request the info missed, or a part the info does not cover
    intro e he k hk info' hinfo'
    rcases List.mem_append.mp (hperm.subset he) with hkeep | hpart
    · obtain ⟨heM, hnot⟩ := List.mem_filter.mp hkeep
      rcases List.mem_append.mp hinfo' with hold | hnew
      · exact hinv.pending e heM k hk info' hold
      · rw [List.mem_singleton.mp hnew]
        obtain ⟨k', hk', -, hpos⟩ := (hinv.keys e heM).2.fills hk
        rw [hpos]
        exact (handleReadRequest_spec.kept (of_decide_eq_true hnot)).2.2.2 k' hk'
    · obtain ⟨a, ha, rfl⟩ := List.mem_map.mp hpart
      obtain ⟨e', he', ha⟩ := List.mem_flatMap.mp ha
      obtain ⟨hwithin, hnotcov⟩ := handleReadRequest_spec.parts a ha
      rcases List.mem_append.mp hinfo' with hold | hnew
      · exact hinv.pending e' he' k (hwithin.fills_of_fills hk) info' hold
      · rw [List.mem_singleton.mp hnew]
        obtain ⟨k', hk', -, hpos⟩ := ((hinv.keys e' he').2.trans hwithin).fills hk
        rw [hpos]
        exact hnotcov k' hk'
  · -- an S3 read: an old one keeps its info, a new one has the info just applied
    intro s hs k hk
    rcases List.mem_append.mp hs with hold | hnew
    · obtain ⟨info', hfind, hz, hr⟩ := hinv.reads s hold k hk
      exact ⟨info', by rw [List.find?_append, hfind]; rfl, hz, hr⟩
    · obtain ⟨e, he, hs⟩ := List.mem_flatMap.mp hnew
      have hspec := @handleReadRequest_spec chunkSize blockSize fsId inodeId e.2 info
      have he2 := (hspec.dropped_of_read hs hk).2
      obtain ⟨k', -, hq, hp⟩ := (hinv.keys e he).2.fills he2
      have hread := hspec.reads s hs k' (hq ▸ hk)
      rw [← hq, ← hp] at hread
      refine ⟨info, ?_, hread.2.1, hread.2.2⟩
      rw [List.find?_append, List.find?_eq_none.mpr fun x hx => by
        simpa using hinv.pending e he k he2 x hx]
      simp [hread.1]
  · -- a zero fill, the same way
    intro z hz k hk
    rcases List.mem_append.mp hz with hold | hnew
    · obtain ⟨info', hfind, hzero⟩ := hinv.zeros z hold k hk
      exact ⟨info', by rw [List.find?_append, hfind]; rfl, hzero⟩
    · obtain ⟨e, he, hz⟩ := List.mem_flatMap.mp hnew
      have hspec := @handleReadRequest_spec chunkSize blockSize fsId inodeId e.2 info
      have he2 := (hspec.dropped_of_zero hz hk).2
      obtain ⟨k', -, hq, hp⟩ := (hinv.keys e he).2.fills he2
      have hzero := hspec.zeros z hz k' (hq ▸ hk)
      rw [← hp] at hzero
      refine ⟨info, ?_, hzero.2⟩
      rw [List.find?_append, List.find?_eq_none.mpr fun x hx => by
        simpa using hinv.pending e he k he2 x hx]
      simp [hzero.1]

/-- The loop keeps the invariant to its end, where either every info has been applied or nothing
is left pending. The induction is on the infos still to apply. -/
theorem ReadPlanInv.loop :
    ∀ (infos done : List S3ChunkInfo) (M : ReadRequestMap) (requests : List S3ReadRequest)
      (zeroFills : List (Nat × Nat)), ReadPlanInv chunkSize R done M requests zeroFills →
      ∃ done', done' <+: done ++ infos ∧
        ReadPlanInv chunkSize R done'
          (generateS3RequestLoop chunkSize blockSize fsId inodeId infos M requests zeroFills).1
          (generateS3RequestLoop chunkSize blockSize fsId inodeId infos M requests zeroFills).2.1
          (generateS3RequestLoop chunkSize blockSize fsId inodeId infos M requests zeroFills).2.2 ∧
        (done' = done ++ infos ∨
          (generateS3RequestLoop chunkSize blockSize fsId inodeId infos M requests zeroFills).1 = [])
  | [], done, M, requests, zeroFills, hinv => ⟨done, by simp, hinv, Or.inl (by simp)⟩
  | info :: infos, done, M, requests, zeroFills, hinv => by
    have hround := @ReadPlanInv.round chunkSize blockSize fsId inodeId R _ _ _ _ hinv info
    rw [generateS3RequestLoop]
    split
    · -- nothing is pending: the loop breaks after this info
      next hempty =>
      exact ⟨done ++ [info], by simp, hround, Or.inr (List.isEmpty_iff.mp hempty)⟩
    · obtain ⟨done', hpre, hinv', hend⟩ := ReadPlanInv.loop infos (done ++ [info]) _ _ _ hround
      exact ⟨done', by simpa using hpre, hinv', by simpa using hend⟩

end Inv

/-! ## What `GenerateS3Request` returns -/

/-- What `GenerateS3Request` promises for the read request `request` and the infos `L` of its
chunk. Its S3 reads and zero fills write every byte of the request's buffer exactly once, and
nothing else. A byte whose file position some info covers gets the data of the newest such
info, or a zero when that info is a zero info. A byte no info covers is zero-filled. -/
structure ReadsNewest (chunkSize : Nat) (request : ReadRequest) (L : S3ChunkInfoList)
    (requests : List S3ReadRequest) (zeroFills : List (Nat × Nat)) : Prop where
  tiles : ∀ q, requests.countP (fun s => decide (s.Fills q)) +
      zeroFills.countP (fun z => decide (FillsZero z q)) = if request.Fills q then 1 else 0
  newest : ∀ k < request.len, ∀ (j : Nat) (hj : j < L.length),
    L[j].Covers (request.fileOffset chunkSize + k) →
    (∀ i (hi : i < L.length), j < i → ¬ L[i].Covers (request.fileOffset chunkSize + k)) →
    if L[j].zero then ∃ z ∈ zeroFills, FillsZero z (request.bufOffset + k)
    else ∃ s ∈ requests, s.Fills (request.bufOffset + k) ∧
      s.Reads L[j] (request.bufOffset + k) (request.fileOffset chunkSize + k)
  uncovered : ∀ k < request.len,
    (∀ info ∈ L, ¬ info.Covers (request.fileOffset chunkSize + k)) →
    ∃ z ∈ zeroFills, FillsZero z (request.bufOffset + k)

theorem generateS3Request_reads_newest (chunkSize blockSize fsId inodeId : Nat)
    (request : ReadRequest) (L : S3ChunkInfoList) (hlen : 0 < request.len) :
    ReadsNewest chunkSize request L
      (generateS3Request chunkSize blockSize fsId inodeId request L).1
      (generateS3Request chunkSize blockSize fsId inodeId request L).2 := by
  obtain ⟨done, hpre, hinv, hend⟩ := @ReadPlanInv.loop chunkSize blockSize fsId inodeId request
    L.reverse [] _ _ _ (ReadPlanInv.init hlen)
  unfold generateS3Request
  dsimp only
  generalize generateS3RequestLoop chunkSize blockSize fsId inodeId L.reverse
    [(request.chunkPos, request)] [] [] = out at hinv hend ⊢
  obtain ⟨M, requests, zeroFills⟩ := out
  dsimp only at hinv hend ⊢
  rw [List.nil_append] at hpre hend
  obtain ⟨rest, hrest⟩ := hpre
  -- an info the invariant names was found walking `L` from its end
  have hfind : ∀ p info, done.find? (fun info => decide (info.Covers p)) = some info →
      L.reverse.find? (fun info => decide (info.Covers p)) = some info ∧ info ∈ L ∧
        info.Covers p := fun p info h => by
    have hL : L.reverse.find? (fun info => decide (info.Covers p)) = some info := by
      rw [← hrest, List.find?_append, h]
      rfl
    exact ⟨hL, List.mem_reverse.mp (List.mem_of_find?_eq_some hL),
      by simpa using List.find?_some hL⟩
  -- a byte still pending is covered by no info of `L`
  have hpend : ∀ e ∈ M, ∀ k, e.2.Fills (request.bufOffset + k) →
      ∀ info ∈ L, ¬ info.Covers (request.fileOffset chunkSize + k) := by
    intro e he k hk info hinfo
    rcases hend with hdone | hnil
    · exact hinv.pending e he k hk info (hdone ▸ List.mem_reverse.mpr hinfo)
    · exact absurd (hnil ▸ he) List.not_mem_nil
  -- the final zero fills cover exactly the pending requests
  have hzeroM : ∀ q, (M.map fun e => (e.2.bufOffset, e.2.len)).countP
      (fun z => decide (FillsZero z q)) = M.countP (fun e => decide (e.2.Fills q)) := by
    intro q
    rw [List.countP_map]
    rfl
  refine ⟨fun q => ?_, fun k hk j hj hcov hnewer => ?_, fun k hk hnone => ?_⟩
  · have := hinv.count q
    rw [List.countP_append, hzeroM]
    omega
  · -- the newest info covering the byte is the first one met walking `L` from its end
    have hLfind : L.reverse.find? (fun info => decide (info.Covers
        (request.fileOffset chunkSize + k))) = some L[j] :=
      (find?_reverse_of_newestIdx (newestIdx_eq_some.mpr ⟨hj, decide_eq_true hcov,
        fun i hi hji => decide_eq_false (hnewer i hi hji)⟩)).2
    have hcount := hinv.count (request.bufOffset + k)
    rw [if_pos (by unfold ReadRequest.Fills; omega)] at hcount
    -- no pending request writes the byte, and what does carries `L[j]`
    have hM : M.countP (fun e => decide (e.2.Fills (request.bufOffset + k))) = 0 :=
      List.countP_eq_zero.mpr fun e he hfill =>
        hpend e he k (of_decide_eq_true hfill) L[j] (List.getElem_mem hj) hcov
    have hread : ∀ s ∈ requests, s.Fills (request.bufOffset + k) → L[j].zero = false ∧
        s.Reads L[j] (request.bufOffset + k) (request.fileOffset chunkSize + k) := by
      intro s hs hfill
      obtain ⟨info, hdone, hz, hr⟩ := hinv.reads s hs k hfill
      obtain rfl : L[j] = info := Option.some.inj (hLfind.symm.trans (hfind _ info hdone).1)
      exact ⟨hz, hr⟩
    have hzero : ∀ z ∈ zeroFills, FillsZero z (request.bufOffset + k) → L[j].zero = true := by
      intro z hz hfill
      obtain ⟨info, hdone, hz⟩ := hinv.zeros z hz k hfill
      obtain rfl : L[j] = info := Option.some.inj (hLfind.symm.trans (hfind _ info hdone).1)
      exact hz
    split
    · -- a zero info: an S3 read would carry data
      next hz =>
      have hreq : requests.countP (fun s => decide (s.Fills (request.bufOffset + k))) = 0 :=
        List.countP_eq_zero.mpr fun s hs hfill => by
          simp [(hread s hs (of_decide_eq_true hfill)).1] at hz
      obtain ⟨z, hz', hfill⟩ := List.countP_pos_iff.mp
        (by omega : 0 < zeroFills.countP (fun z => decide (FillsZero z (request.bufOffset + k))))
      exact ⟨z, List.mem_append_left _ hz', of_decide_eq_true hfill⟩
    · -- a data info: a zero fill would carry a zero info
      next hz =>
      have hzs : zeroFills.countP (fun z => decide (FillsZero z (request.bufOffset + k))) = 0 :=
        List.countP_eq_zero.mpr fun z hz' hfill => hz (hzero z hz' (of_decide_eq_true hfill))
      obtain ⟨s, hs, hfill⟩ := List.countP_pos_iff.mp
        (by omega : 0 < requests.countP (fun s => decide (s.Fills (request.bufOffset + k))))
      exact ⟨s, hs, of_decide_eq_true hfill, (hread s hs (of_decide_eq_true hfill)).2⟩
  · -- no info covers the byte, so no read or zero fill writes it and it is still pending
    have hcount := hinv.count (request.bufOffset + k)
    rw [if_pos (by unfold ReadRequest.Fills; omega)] at hcount
    have hreq : requests.countP (fun s => decide (s.Fills (request.bufOffset + k))) = 0 :=
      List.countP_eq_zero.mpr fun s hs hfill => by
        obtain ⟨info, hdone, -, -⟩ := hinv.reads s hs k (of_decide_eq_true hfill)
        obtain ⟨-, hmem, hcov⟩ := hfind _ info hdone
        exact hnone info hmem hcov
    have hzs : zeroFills.countP (fun z => decide (FillsZero z (request.bufOffset + k))) = 0 :=
      List.countP_eq_zero.mpr fun z hz hfill => by
        obtain ⟨info, hdone, -⟩ := hinv.zeros z hz k (of_decide_eq_true hfill)
        obtain ⟨-, hmem, hcov⟩ := hfind _ info hdone
        exact hnone info hmem hcov
    obtain ⟨e, he, hfill⟩ := List.countP_pos_iff.mp
      (by omega : 0 < M.countP (fun e => decide (e.2.Fills (request.bufOffset + k))))
    exact ⟨(e.2.bufOffset, e.2.len), List.mem_append_right _ (List.mem_map.mpr ⟨e, he, rfl⟩),
      of_decide_eq_true hfill⟩

/-- A read of bytes 0 to 7 over an old info of the whole range and a newer one of bytes 2 to 5. -/
theorem generateS3Request_reads_newest_overlap :
    0 < (⟨0, 0, 8, 0⟩ : ReadRequest).len ∧
      ReadsNewest 64 ⟨0, 0, 8, 0⟩ [⟨1, 0, 0, 8, 8, false⟩, ⟨2, 0, 2, 4, 4, false⟩]
        (generateS3Request 64 16 1 1 ⟨0, 0, 8, 0⟩
          [⟨1, 0, 0, 8, 8, false⟩, ⟨2, 0, 2, 4, 4, false⟩]).1
        (generateS3Request 64 16 1 1 ⟨0, 0, 8, 0⟩
          [⟨1, 0, 0, 8, 8, false⟩, ⟨2, 0, 2, 4, 4, false⟩]).2 :=
  ⟨by decide, generateS3Request_reads_newest 64 16 1 1 _ _ (by decide)⟩

-- The newer info's bytes come from chunk 2, the rest from chunk 1, and nothing is zero-filled.
example : generateS3Request 64 16 1 1 ⟨0, 0, 8, 0⟩
      [⟨1, 0, 0, 8, 8, false⟩, ⟨2, 0, 2, 4, 4, false⟩] =
    ([⟨2, 2, 4, 2, 2, 0, 1, 1⟩, ⟨1, 0, 2, 0, 0, 0, 1, 1⟩, ⟨1, 6, 2, 0, 6, 0, 1, 1⟩], []) := by
  decide

end DingoFs.Client
