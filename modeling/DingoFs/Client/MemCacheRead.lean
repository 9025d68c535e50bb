import DingoFs.Client.ReadChunk
import DingoFs.Client.GenerateS3Request
import Mathlib

/-!
# Reading a file range from the chunk caches

`FileCacheManager::ReadFromMemCache` reads `length` bytes at a file offset chunk by chunk: it
places the offset with `GetChunkLoc`, and each round takes what is left of the current chunk,
finds the chunk's `ChunkCacheManager` (creating an empty one if there is none,
`FindOrCreateChunkCacheManager`) and reads through it with `ReadChunk`. The cache-miss requests
of all rounds, in order, are what `FileCacheManager::Read` then asks S3 for.

`FileReadSpec` is `ReadSpec` over file offsets: each byte the managers hold is copied to its
place in the buffer, each other byte is in one request, and the requests are the maximal runs
of missing bytes inside one chunk. A round's `ReadSpec` is a `FileReadSpec` of its chunk
(`FileReadSpec.of_readSpec`), and two reads that meet at a chunk boundary join
(`FileReadSpec.append`); the loop is proved by induction on its fuel. Reading only adds empty
managers (`Grows`), so what the file's managers hold is not changed by it.
-/

namespace DingoFs.Client

open DingoFs.Lib

/-! ## The chunk managers of a file -/

/-- The state of a chunk's `ChunkCacheManager` that a read looks at: the chunk's `index_` and its
three caches. -/
structure ChunkCacheManager where
  index : Nat
  dataWCacheMap : WriteCacheMap
  flushingDataCache : Option DataCache
  dataRCacheMap : WriteCacheMap

namespace ChunkCacheManager

/-- A new manager of chunk `index`, as `FindOrCreateChunkCacheManager` makes it: no caches. -/
def new (index : Nat) : ChunkCacheManager := ⟨index, [], none, []⟩

/-- `ChunkCacheManager::ReadChunk` on the manager's caches. The source ignores its `index`
argument; the requests carry the manager's `index_`. -/
def readChunk (m : ChunkCacheManager) (chunkPos readLen dataBufOffset : Nat) :
    List (Nat × List UInt8) × List ReadRequest :=
  DingoFs.Client.readChunk m.index chunkPos readLen dataBufOffset m.dataWCacheMap
    m.flushingDataCache m.dataRCacheMap

/-- What the manager's caches hold at chunk position `q`. -/
def contents (m : ChunkCacheManager) (q : Nat) : Option UInt8 :=
  chunkContents m.dataWCacheMap m.flushingDataCache m.dataRCacheMap q

/-- What a read of the manager relies on: its write caches apart, its read caches in order
without overlap, and the cache being flushed not empty. -/
structure Inv (m : ChunkCacheManager) : Prop where
  write : WriteCacheInv m.dataWCacheMap
  flushing : ∀ dc, m.flushingDataCache = some dc → 0 < dc.len
  read : ReadCacheInv m.dataRCacheMap

theorem inv_new (index : Nat) : (new index).Inv :=
  ⟨writeCacheInv_nil, fun _ h => (nomatch h), readCacheInv_nil⟩

@[simp]
theorem contents_new (index q : Nat) : (new index).contents q = none := rfl

/-- `ReadChunk` of `n ≥ 1` bytes through a manager that keeps the invariant meets `ReadSpec`
for what the manager holds. -/
theorem readChunk_readSpec {m : ChunkCacheManager} (h : m.Inv) (pos n off : Nat) (hn : 0 < n) :
    ReadSpec m.contents m.index pos n off (m.readChunk pos n off).1 (m.readChunk pos n off).2 :=
  readChunk_spec h.write h.flushing h.read m.index pos n off hn

end ChunkCacheManager

/-- `FileCacheManager::chunkCacheMap_`: the managers of a file's chunks, by chunk index. -/
abbrev ChunkCacheMap := AList fun _ : Nat => ChunkCacheManager

/-- `FileCacheManager::FindOrCreateChunkCacheManager`: the manager of chunk `index`, or a new
one, added under `index`. -/
def findOrCreateChunkCacheManager (index : Nat) (chunkCacheMap : ChunkCacheMap) :
    ChunkCacheManager × ChunkCacheMap :=
  match chunkCacheMap.lookup index with
  | some chunkCacheManager => (chunkCacheManager, chunkCacheMap)
  | none => (.new index, chunkCacheMap.insert index (.new index))

/-- The invariant of `chunkCacheMap_`: each manager is held under its chunk's index and keeps
its own invariant. -/
structure ChunkCacheMapInv (chunkCacheMap : ChunkCacheMap) : Prop where
  index_eq : ∀ {i m}, chunkCacheMap.lookup i = some m → m.index = i
  managers : ∀ {i m}, chunkCacheMap.lookup i = some m → m.Inv

/-- `chunkCacheMap'` holds the managers of `chunkCacheMap`, and perhaps new empty ones. -/
def Grows (chunkCacheMap chunkCacheMap' : ChunkCacheMap) : Prop :=
  ∀ i, chunkCacheMap'.lookup i = chunkCacheMap.lookup i ∨
    (chunkCacheMap.lookup i = none ∧ chunkCacheMap'.lookup i = some (.new i))

/-- What the file's managers hold at file offset `o`: its chunk's manager, at its position in
the chunk. -/
def fileContents (chunkSize : Nat) (chunkCacheMap : ChunkCacheMap) (o : Nat) : Option UInt8 :=
  (chunkCacheMap.lookup (o / chunkSize)).bind fun m => m.contents (o % chunkSize)

section Managers

variable {chunkCacheMap chunkCacheMap' chunkCacheMap'' : ChunkCacheMap}

theorem Grows.refl (chunkCacheMap : ChunkCacheMap) : Grows chunkCacheMap chunkCacheMap :=
  fun _ => .inl rfl

theorem Grows.trans (h : Grows chunkCacheMap chunkCacheMap')
    (h' : Grows chunkCacheMap' chunkCacheMap'') : Grows chunkCacheMap chunkCacheMap'' := by
  intro i
  rcases h i with hi | ⟨hnone, hnew⟩
  · rw [← hi]
    exact h' i
  · rcases h' i with hi' | ⟨hnone', -⟩
    · exact .inr ⟨hnone, hi'.trans hnew⟩
    · exact absurd (hnew.symm.trans hnone') (Option.some_ne_none _)

/-- A grown map holds what the old one held: a new manager holds nothing. -/
theorem Grows.fileContents_eq (h : Grows chunkCacheMap chunkCacheMap') (chunkSize : Nat) :
    fileContents chunkSize chunkCacheMap' = fileContents chunkSize chunkCacheMap := by
  funext o
  unfold fileContents
  rcases h (o / chunkSize) with hi | ⟨hnone, hnew⟩
  · rw [hi]
  · rw [hnone, hnew, Option.bind_some, ChunkCacheManager.contents_new, Option.bind_none]

/-- New managers keep the map's invariant. -/
theorem Grows.inv (h : Grows chunkCacheMap chunkCacheMap') (hinv : ChunkCacheMapInv chunkCacheMap) :
    ChunkCacheMapInv chunkCacheMap' := by
  have hcases : ∀ {i m}, chunkCacheMap'.lookup i = some m →
      chunkCacheMap.lookup i = some m ∨ m = .new i := by
    intro i m hm
    rcases h i with hi | ⟨-, hnew⟩
    · exact .inl (hi ▸ hm)
    · exact .inr (Option.some.inj (hm.symm.trans hnew))
  constructor
  · intro i m hm
    rcases hcases hm with hold | rfl
    · exact hinv.index_eq hold
    · rfl
  · intro i m hm
    rcases hcases hm with hold | rfl
    · exact hinv.managers hold
    · exact ChunkCacheManager.inv_new i

/-- `FindOrCreateChunkCacheManager` only adds an empty manager, and returns the manager the
map then holds under `index`. -/
theorem findOrCreateChunkCacheManager_spec (index : Nat) (chunkCacheMap : ChunkCacheMap) :
    Grows chunkCacheMap (findOrCreateChunkCacheManager index chunkCacheMap).2 ∧
      (findOrCreateChunkCacheManager index chunkCacheMap).2.lookup index =
        some (findOrCreateChunkCacheManager index chunkCacheMap).1 := by
  unfold findOrCreateChunkCacheManager
  cases hm : chunkCacheMap.lookup index with
  | some m => exact ⟨Grows.refl _, hm⟩
  | none =>
    refine ⟨fun i => ?_, AList.lookup_insert _⟩
    by_cases hi : i = index
    · subst hi
      exact .inr ⟨hm, AList.lookup_insert _⟩
    · exact .inl (AList.lookup_insert_ne hi)

/-- Inside a chunk, the file's contents are what its manager holds. -/
theorem fileContents_of_lookup {chunkSize index p : Nat} {m : ChunkCacheManager}
    (hm : chunkCacheMap.lookup index = some m) (hp : p < chunkSize) :
    fileContents chunkSize chunkCacheMap (index * chunkSize + p) = m.contents p := by
  have hcs : 0 < chunkSize := by omega
  have hdiv : (index * chunkSize + p) / chunkSize = index := by
    rw [Nat.add_comm, Nat.add_mul_div_right _ _ hcs, Nat.div_eq_of_lt hp, Nat.zero_add]
  have hmod : (index * chunkSize + p) % chunkSize = p := by
    rw [Nat.add_comm, Nat.add_mul_mod_self_right, Nat.mod_eq_of_lt hp]
  rw [fileContents, hdiv, hmod, hm, Option.bind_some]

/-- A map of one manager, held under its index, keeps the invariant. -/
theorem chunkCacheMapInv_singleton {m : ChunkCacheManager} (hm : m.Inv) :
    ChunkCacheMapInv ((∅ : ChunkCacheMap).insert m.index m) := by
  have hlookup : ∀ {i m'}, ((∅ : ChunkCacheMap).insert m.index m).lookup i = some m' →
      i = m.index ∧ m' = m := by
    intro i m' h
    by_cases hi : i = m.index
    · subst hi
      rw [AList.lookup_insert] at h
      exact ⟨rfl, (Option.some.inj h).symm⟩
    · rw [AList.lookup_insert_ne hi, AList.lookup_empty] at h
      exact absurd h (Option.some_ne_none _).symm
  constructor
  · intro i m' h
    obtain ⟨rfl, rfl⟩ := hlookup h
    rfl
  · intro i m' h
    obtain ⟨-, rfl⟩ := hlookup h
    exact hm

end Managers

/-! ## Reads over file offsets -/

/-- A request that starts on a chunk boundary starts its chunk. -/
theorem ReadRequest.chunkPos_eq_zero_of_fileOffset (r : ReadRequest) {chunkSize k : Nat}
    (hlt : r.chunkPos < chunkSize) (h : r.fileOffset chunkSize = k * chunkSize) :
    r.chunkPos = 0 := by
  have hmod := congrArg (· % chunkSize) h
  simp only [ReadRequest.fileOffset, Nat.mul_mod_left] at hmod
  rwa [Nat.add_comm, Nat.add_mul_mod_self_right, Nat.mod_eq_of_lt hlt] at hmod

/-- The spec of a read of `length` bytes at file offset `start` into the buffer from `dbo`, with
chunks of `chunkSize` bytes, for contents `c` over file offsets: each byte `c` holds is copied to
its place, nothing else is copied, each byte `c` lacks is in a request, and the requests lie in
the range and in one chunk, lack every byte, are maximal inside their chunk, and are in order. -/
structure FileReadSpec (c : Nat → Option UInt8) (chunkSize start length dbo : Nat)
    (copies : List (Nat × List UInt8)) (requests : List ReadRequest) : Prop where
  copied : ∀ o, start ≤ o → o < start + length → extentAt copies (dbo + (o - start)) = c o
  copied_within : ∀ i, extentAt copies i ≠ none → dbo ≤ i ∧ i < dbo + length
  requested : ∀ o, start ≤ o → o < start + length → c o = none →
    ∃ r ∈ requests, r.fileOffset chunkSize ≤ o ∧ o < r.fileOffset chunkSize + r.len
  request_in : ∀ r ∈ requests, 0 < r.len ∧ r.chunkPos + r.len ≤ chunkSize ∧
    start ≤ r.fileOffset chunkSize ∧ r.fileOffset chunkSize + r.len ≤ start + length ∧
    r.bufOffset = dbo + (r.fileOffset chunkSize - start)
  request_missing : ∀ r ∈ requests, ∀ o, r.fileOffset chunkSize ≤ o →
    o < r.fileOffset chunkSize + r.len → c o = none
  request_maximal : ∀ r ∈ requests,
    (r.fileOffset chunkSize = start ∨ r.chunkPos = 0 ∨ c (r.fileOffset chunkSize - 1) ≠ none) ∧
    (r.fileOffset chunkSize + r.len = start + length ∨ r.chunkPos + r.len = chunkSize ∨
      c (r.fileOffset chunkSize + r.len) ≠ none)
  sorted : requests.Pairwise fun r r' => r.fileOffset chunkSize + r.len ≤ r'.fileOffset chunkSize

namespace FileReadSpec

variable {c : Nat → Option UInt8} {chunkSize start length dbo : Nat}
  {copies : List (Nat × List UInt8)} {requests : List ReadRequest}

theorem empty (c : Nat → Option UInt8) (chunkSize start dbo : Nat) :
    FileReadSpec c chunkSize start 0 dbo [] [] where
  copied o h₁ h₂ := absurd h₂ (by omega)
  copied_within i h := absurd rfl h
  requested o h₁ h₂ := absurd h₂ (by omega)
  request_in r hr := absurd hr List.not_mem_nil
  request_missing r hr := absurd hr List.not_mem_nil
  request_maximal r hr := absurd hr List.not_mem_nil
  sorted := List.Pairwise.nil

/-- A read inside chunk `index`, from position `chunkPos`, that meets `ReadSpec` for what the
file holds in that chunk, meets `FileReadSpec` at the chunk's file offsets. -/
theorem of_readSpec {index chunkPos : Nat} (hcs : chunkPos + length ≤ chunkSize)
    (h : ReadSpec (fun p => c (index * chunkSize + p)) index chunkPos length dbo copies requests) :
    FileReadSpec c chunkSize (index * chunkSize + chunkPos) length dbo copies requests := by
  -- a request of the chunk starts at its position from the chunk's first file offset
  have hoff : ∀ r ∈ requests, r.fileOffset chunkSize = index * chunkSize + r.chunkPos := by
    intro r hr
    rw [ReadRequest.fileOffset, (h.request_in r hr).1]
  constructor
  · intro o ho₁ ho₂
    have hcopy := h.copied (o - index * chunkSize) (by omega) (by omega)
    rwa [show index * chunkSize + (o - index * chunkSize) = o by omega,
      show dbo + (o - index * chunkSize - chunkPos) = dbo + (o - (index * chunkSize + chunkPos))
        by omega] at hcopy
  · exact h.copied_within
  · intro o ho₁ ho₂ hnone
    obtain ⟨r, hr, hlo, hhi⟩ := h.requested (o - index * chunkSize) (by omega) (by omega)
      (by rwa [show index * chunkSize + (o - index * chunkSize) = o by omega])
    exact ⟨r, hr, by rw [hoff r hr]; omega, by rw [hoff r hr]; omega⟩
  · intro r hr
    obtain ⟨-, hlen, hpos, hend, hbuf⟩ := h.request_in r hr
    rw [hoff r hr]
    exact ⟨hlen, by omega, by omega, by omega, by omega⟩
  · intro r hr o ho₁ ho₂
    rw [hoff r hr] at ho₁ ho₂
    have hmissing := h.request_missing r hr (o - index * chunkSize) (by omega) (by omega)
    rwa [show index * chunkSize + (o - index * chunkSize) = o by omega] at hmissing
  · intro r hr
    obtain ⟨-, hlen, hpos, -, -⟩ := h.request_in r hr
    obtain ⟨hlo, hhi⟩ := h.request_maximal r hr
    rw [hoff r hr]
    constructor
    · -- a request that does not start the read starts after a byte the chunk holds
      rcases hlo with hs | hs
      · exact .inl (by rw [hs])
      · by_cases h0 : r.chunkPos = 0
        · exact .inr (.inl h0)
        · exact .inr (.inr (by
            rwa [show index * chunkSize + r.chunkPos - 1 = index * chunkSize + (r.chunkPos - 1)
              by omega]))
    · rcases hhi with he | he
      · exact .inl (by omega)
      · exact .inr (.inr (by rwa [Nat.add_assoc]))
  · refine h.sorted.imp_of_mem fun {r r'} hr hr' hlt => ?_
    rw [hoff r hr, hoff r' hr']
    omega

/-- Two reads that meet at a chunk boundary, the second at the first's end in the file and in
the buffer, are one read of both ranges. -/
theorem append {length₂ : Nat} {copies₂ : List (Nat × List UInt8)} {requests₂ : List ReadRequest}
    (h₁ : FileReadSpec c chunkSize start length dbo copies requests)
    (h₂ : FileReadSpec c chunkSize (start + length) length₂ (dbo + length) copies₂ requests₂)
    (hend : ∀ r ∈ requests, r.fileOffset chunkSize + r.len = start + length →
      r.chunkPos + r.len = chunkSize)
    (hstart : ∀ r ∈ requests₂, r.fileOffset chunkSize = start + length → r.chunkPos = 0) :
    FileReadSpec c chunkSize start (length + length₂) dbo (copies ++ copies₂)
      (requests ++ requests₂) := by
  -- the first read copies nothing past its end, the second nothing before its start
  have hnone₁ : ∀ i, dbo + length ≤ i → extentAt copies i = none := by
    intro i hi
    by_contra hsome
    have := h₁.copied_within i hsome
    omega
  have hnone₂ : ∀ i, i < dbo + length → extentAt copies₂ i = none := by
    intro i hi
    by_contra hsome
    have := h₂.copied_within i hsome
    omega
  constructor
  · intro o ho₁ ho₂
    rw [extentAt_append]
    by_cases ho : o < start + length
    · rw [h₁.copied o ho₁ ho, hnone₂ _ (by omega), Option.or_none]
    · rw [hnone₁ _ (by omega), Option.none_or,
        show dbo + (o - start) = dbo + length + (o - (start + length)) by omega]
      exact h₂.copied o (by omega) (by omega)
  · intro i hi
    rw [extentAt_append] at hi
    by_cases hi₁ : extentAt copies i = none
    · rw [hi₁, Option.none_or] at hi
      have := h₂.copied_within i hi
      omega
    · have := h₁.copied_within i hi₁
      omega
  · intro o ho₁ ho₂ hno
    by_cases ho : o < start + length
    · obtain ⟨r, hr, hr'⟩ := h₁.requested o ho₁ ho hno
      exact ⟨r, List.mem_append_left _ hr, hr'⟩
    · obtain ⟨r, hr, hr'⟩ := h₂.requested o (by omega) (by omega) hno
      exact ⟨r, List.mem_append_right _ hr, hr'⟩
  · intro r hr
    rcases List.mem_append.mp hr with hr | hr
    · obtain ⟨hlen, hcs, hlo, hhi, hbuf⟩ := h₁.request_in r hr
      exact ⟨hlen, hcs, hlo, by omega, hbuf⟩
    · obtain ⟨hlen, hcs, hlo, hhi, hbuf⟩ := h₂.request_in r hr
      exact ⟨hlen, hcs, by omega, by omega, by omega⟩
  · intro r hr
    rcases List.mem_append.mp hr with hr | hr
    · exact h₁.request_missing r hr
    · exact h₂.request_missing r hr
  · intro r hr
    rcases List.mem_append.mp hr with hr | hr
    · -- a request that ends the first read ends its chunk
      obtain ⟨hlo, hhi⟩ := h₁.request_maximal r hr
      refine ⟨hlo, ?_⟩
      rcases hhi with he | he
      · exact .inr (.inl (hend r hr he))
      · exact .inr he
    · -- a request that starts the second read starts its chunk
      obtain ⟨hlo, hhi⟩ := h₂.request_maximal r hr
      refine ⟨?_, hhi.imp_left fun he => by omega⟩
      rcases hlo with hs | hs
      · exact .inr (.inl (hstart r hr hs))
      · exact .inr hs
  · refine List.pairwise_append.mpr ⟨h₁.sorted, h₂.sorted, fun r hr r' hr' => ?_⟩
    have := (h₁.request_in r hr).2.2.2.1
    have := (h₂.request_in r' hr').2.2.1
    omega

/-- No request is left exactly when the contents hold every byte of the range: the case where
`FileCacheManager::Read` returns without going to S3. -/
theorem requests_eq_nil_iff (h : FileReadSpec c chunkSize start length dbo copies requests) :
    requests = [] ↔ ∀ o, start ≤ o → o < start + length → c o ≠ none := by
  constructor
  · intro hnil o ho₁ ho₂ hnone
    obtain ⟨r, hr, -⟩ := h.requested o ho₁ ho₂ hnone
    exact absurd (hnil ▸ hr) List.not_mem_nil
  · intro hall
    apply List.eq_nil_iff_forall_not_mem.mpr
    intro r hr
    -- a request's first byte is in the range and missing
    obtain ⟨hlen, -, hlo, hhi, -⟩ := h.request_in r hr
    exact hall _ hlo (by omega) (h.request_missing r hr _ le_rfl (by omega))

end FileReadSpec

/-! ## The read loop -/

/-- What `ReadFromMemCache` leaves: the bytes copied from the managers at their buffer offsets,
the cache-miss requests, the length read, and the managers after it. -/
structure MemCacheRead where
  copies : List (Nat × List UInt8)
  memCacheMissRequest : List ReadRequest
  actualReadLen : Nat
  chunkCacheMap : ChunkCacheMap

/-- The loop of `FileCacheManager::ReadFromMemCache`, at chunk `index` and position `chunkPos`,
with `length` bytes left for the buffer from `dataBufferOffset`. -/
def readFromMemCacheLoop (chunkSize : Nat) :
    (fuel index chunkPos length dataBufferOffset : Nat) → ChunkCacheMap → MemCacheRead
  | 0, _, _, _, dataBufferOffset, chunkCacheMap => ⟨[], [], dataBufferOffset, chunkCacheMap⟩
  | fuel + 1, index, chunkPos, length, dataBufferOffset, chunkCacheMap =>
    if length > 0 then
      let currentReadLen :=
        if chunkPos + length > chunkSize then chunkSize - chunkPos else length
      let (chunkCacheManager, chunkCacheMap) :=
        findOrCreateChunkCacheManager index chunkCacheMap
      let (copies, tmpMissRequests) :=
        chunkCacheManager.readChunk chunkPos currentReadLen dataBufferOffset
      let rest := readFromMemCacheLoop chunkSize fuel (index + 1)
        ((chunkPos + currentReadLen) % chunkSize) (length - currentReadLen)
        (dataBufferOffset + currentReadLen) chunkCacheMap
      { rest with copies := copies ++ rest.copies,
                  memCacheMissRequest := tmpMissRequests ++ rest.memCacheMissRequest }
    else ⟨[], [], dataBufferOffset, chunkCacheMap⟩

/-- `FileCacheManager::ReadFromMemCache` of `length` bytes at file offset `offset`, from where
`GetChunkLoc` places it. Each round reads at least one byte, so `length` rounds are enough. -/
def readFromMemCache (chunkSize offset length : Nat) (chunkCacheMap : ChunkCacheMap) :
    MemCacheRead :=
  readFromMemCacheLoop chunkSize length (offset / chunkSize) (offset % chunkSize) length 0
    chunkCacheMap

theorem readFromMemCacheLoop_of_length_zero (chunkSize fuel index chunkPos dbo : Nat)
    (chunkCacheMap : ChunkCacheMap) :
    readFromMemCacheLoop chunkSize fuel index chunkPos 0 dbo chunkCacheMap =
      ⟨[], [], dbo, chunkCacheMap⟩ := by
  cases fuel with
  | zero => rfl
  | succ fuel => rw [readFromMemCacheLoop, if_neg (Nat.lt_irrefl 0)]

/-- One round of the loop: the chunk's read, then the rest of the loop on the map the round
leaves. -/
theorem readFromMemCacheLoop_succ {chunkSize fuel index chunkPos length dbo : Nat}
    {chunkCacheMap : ChunkCacheMap} (hlen : 0 < length) :
    let currentReadLen := if chunkPos + length > chunkSize then chunkSize - chunkPos else length
    let found := findOrCreateChunkCacheManager index chunkCacheMap
    let rest := readFromMemCacheLoop chunkSize fuel (index + 1)
      ((chunkPos + currentReadLen) % chunkSize) (length - currentReadLen) (dbo + currentReadLen)
      found.2
    readFromMemCacheLoop chunkSize (fuel + 1) index chunkPos length dbo chunkCacheMap =
      { rest with
        copies := (found.1.readChunk chunkPos currentReadLen dbo).1 ++ rest.copies,
        memCacheMissRequest :=
          (found.1.readChunk chunkPos currentReadLen dbo).2 ++ rest.memCacheMissRequest } := by
  intro currentReadLen found rest
  rw [readFromMemCacheLoop, if_pos hlen]

section Loop

variable {chunkSize : Nat}

/-- The loop from chunk `index` at `chunkPos < chunkSize`, with fuel for every byte: it reads the
range `FileReadSpec` describes, reports every byte as read, and only adds empty managers. The
induction is on the fuel; a round is the chunk's `ReadSpec`, joined to the rest at the chunk's
end. -/
theorem readFromMemCacheLoop_spec (hcs : 0 < chunkSize) :
    ∀ (fuel index chunkPos length dbo : Nat) (chunkCacheMap : ChunkCacheMap),
      ChunkCacheMapInv chunkCacheMap → chunkPos < chunkSize → length ≤ fuel →
      let r := readFromMemCacheLoop chunkSize fuel index chunkPos length dbo chunkCacheMap
      FileReadSpec (fileContents chunkSize chunkCacheMap) chunkSize (index * chunkSize + chunkPos)
          length dbo r.copies r.memCacheMissRequest ∧
        r.actualReadLen = dbo + length ∧ Grows chunkCacheMap r.chunkCacheMap := by
  intro fuel
  induction fuel with
  | zero =>
    intro index chunkPos length dbo chunkCacheMap _ _ hfuel
    obtain rfl : length = 0 := by omega
    rw [readFromMemCacheLoop_of_length_zero]
    exact ⟨FileReadSpec.empty _ _ _ _, rfl, Grows.refl _⟩
  | succ fuel ih =>
    intro index chunkPos length dbo chunkCacheMap hinv hpos hfuel
    by_cases hlen : length = 0
    · subst hlen
      rw [readFromMemCacheLoop_of_length_zero]
      exact ⟨FileReadSpec.empty _ _ _ _, rfl, Grows.refl _⟩
    rw [readFromMemCacheLoop_succ (by omega)]
    dsimp only
    -- the round reads what is left of the chunk, at least one byte
    set currentReadLen := if chunkPos + length > chunkSize then chunkSize - chunkPos else length
      with hcur
    have hcur_pos : 0 < currentReadLen := by rw [hcur]; split_ifs <;> omega
    have hcur_le : currentReadLen ≤ length := by rw [hcur]; split_ifs <;> omega
    have hcur_in : chunkPos + currentReadLen ≤ chunkSize := by rw [hcur]; split_ifs <;> omega
    obtain ⟨hgrow, hfound⟩ := findOrCreateChunkCacheManager_spec index chunkCacheMap
    set found := findOrCreateChunkCacheManager index chunkCacheMap
    have hinv₁ : ChunkCacheMapInv found.2 := hgrow.inv hinv
    have hcontents := hgrow.fileContents_eq chunkSize
    -- the round's read, as a read of the chunk and then of the file
    have hspec := ChunkCacheManager.readChunk_readSpec (hinv₁.managers hfound) chunkPos
      currentReadLen dbo hcur_pos
    rw [hinv₁.index_eq hfound] at hspec
    have hround : FileReadSpec (fileContents chunkSize found.2) chunkSize
        (index * chunkSize + chunkPos) currentReadLen dbo
        (found.1.readChunk chunkPos currentReadLen dbo).1
        (found.1.readChunk chunkPos currentReadLen dbo).2 := by
      refine FileReadSpec.of_readSpec hcur_in (hspec.congr fun q _ hq => ?_)
      rw [fileContents_of_lookup hfound (by omega)]
    obtain ⟨hrest, hlen_rest, hgrow_rest⟩ := ih (index + 1) ((chunkPos + currentReadLen) % chunkSize)
      (length - currentReadLen) (dbo + currentReadLen) found.2 hinv₁ (Nat.mod_lt _ hcs)
      (by omega)
    refine ⟨?_, by rw [hlen_rest]; omega, hgrow.trans hgrow_rest⟩
    rw [← hcontents]
    by_cases hlast : length - currentReadLen = 0
    · -- the last round: the rest of the loop reads nothing
      rw [hlast, readFromMemCacheLoop_of_length_zero]
      simp only [List.append_nil]
      rwa [show length = currentReadLen by omega]
    · -- another round follows: this one ends its chunk and the next starts at position 0
      have hend : chunkPos + currentReadLen = chunkSize := by
        rw [hcur] at hlast ⊢
        split_ifs at hlast ⊢ <;> omega
      rw [hend, Nat.mod_self] at hrest ⊢
      rw [Nat.add_zero, Nat.succ_mul,
        show index * chunkSize + chunkSize = index * chunkSize + chunkPos + currentReadLen by
          omega] at hrest
      have hend₁ : ∀ r ∈ (found.1.readChunk chunkPos currentReadLen dbo).2,
          r.fileOffset chunkSize + r.len = index * chunkSize + chunkPos + currentReadLen →
            r.chunkPos + r.len = chunkSize := by
        intro r hr he
        rw [ReadRequest.fileOffset, (hspec.request_in r hr).1] at he
        omega
      have hstart₂ : ∀ r ∈ (readFromMemCacheLoop chunkSize fuel (index + 1) 0
          (length - currentReadLen) (dbo + currentReadLen) found.2).memCacheMissRequest,
          r.fileOffset chunkSize = index * chunkSize + chunkPos + currentReadLen →
            r.chunkPos = 0 := by
        intro r hr hs
        obtain ⟨hlen, hin, -⟩ := hrest.request_in r hr
        exact r.chunkPos_eq_zero_of_fileOffset (by omega)
          (hs.trans (by rw [Nat.add_assoc, hend, ← Nat.succ_mul]))
      have hjoin := hround.append hrest hend₁ hstart₂
      rwa [show currentReadLen + (length - currentReadLen) = length by omega] at hjoin

end Loop

/-- `FileCacheManager::ReadFromMemCache` of `length` bytes at `offset`, over chunks of
`chunkSize ≥ 1` bytes and managers that keep their invariant: it copies each byte the managers
hold to its place in the buffer and nothing else, leaves the other bytes as cache-miss requests
that are the maximal missing runs inside each chunk, in file order, reports all `length` bytes
as read, and only adds empty managers. -/
theorem readFromMemCache_spec {chunkSize : Nat} (hcs : 0 < chunkSize)
    {chunkCacheMap : ChunkCacheMap} (hinv : ChunkCacheMapInv chunkCacheMap) (offset length : Nat) :
    FileReadSpec (fileContents chunkSize chunkCacheMap) chunkSize offset length 0
        (readFromMemCache chunkSize offset length chunkCacheMap).copies
        (readFromMemCache chunkSize offset length chunkCacheMap).memCacheMissRequest ∧
      (readFromMemCache chunkSize offset length chunkCacheMap).actualReadLen = length ∧
      Grows chunkCacheMap (readFromMemCache chunkSize offset length chunkCacheMap).chunkCacheMap := by
  have h := readFromMemCacheLoop_spec hcs length (offset / chunkSize) (offset % chunkSize) length 0
    chunkCacheMap hinv (Nat.mod_lt _ hcs) le_rfl
  dsimp only at h
  rwa [Nat.div_add_mod', Nat.zero_add] at h

/-- The managers of a file whose first chunk holds bytes 1 and 2 in its write cache and byte 3
in its read cache. -/
def sampleChunkCacheMap : ChunkCacheMap :=
  (∅ : ChunkCacheMap).insert 0 ⟨0, [(1, ⟨1, [7, 8]⟩)], none, [(3, ⟨3, [9]⟩)]⟩

theorem sampleChunkCacheMap_inv : ChunkCacheMapInv sampleChunkCacheMap := by
  have hm : ChunkCacheManager.Inv ⟨0, [(1, ⟨1, [7, 8]⟩)], none, [(3, ⟨3, [9]⟩)]⟩ :=
    ⟨@writeCacheInv_singleton ⟨1, [7, 8]⟩ (by decide), fun _ h => (nomatch h),
      (@writeCacheInv_singleton ⟨3, [9]⟩ (by decide)).readCacheInv⟩
  exact chunkCacheMapInv_singleton hm

/-- A read of bytes 2 to 7 over chunks of 4 bytes: two bytes from the first chunk's caches and
one request for the second chunk, which has no manager yet. -/
theorem readFromMemCache_spec_sample :
    0 < 4 ∧ ChunkCacheMapInv sampleChunkCacheMap ∧
      FileReadSpec (fileContents 4 sampleChunkCacheMap) 4 2 6 0
        (readFromMemCache 4 2 6 sampleChunkCacheMap).copies
        (readFromMemCache 4 2 6 sampleChunkCacheMap).memCacheMissRequest :=
  ⟨by decide, sampleChunkCacheMap_inv,
    (readFromMemCache_spec (by decide) sampleChunkCacheMap_inv 2 6).1⟩

example : (readFromMemCache 4 2 6 sampleChunkCacheMap).copies = [(0, [8]), (1, [9])] ∧
    (readFromMemCache 4 2 6 sampleChunkCacheMap).memCacheMissRequest = [⟨1, 0, 4, 2⟩] := by
  decide

end DingoFs.Client
