import DingoFs.Lib.FoldRun
import DingoFs.Lib.OrderedSet
import DingoFs.Lib.Word
import DingoFs.Metaserver.Storage.KeyCodec
import Mathlib

/-!
# Mounts of a file system: `FsManager`'s mount calls and the client timeout

The MDS keeps each file system's `FsInfo`, with the list of its mount points and their number
`mountnum`, in `fsStorage_`, and the last time each client was heard of in `mpTimeRecorder_`,
under the text `MountPoint2Str` makes of its mount point (`hostname:port:path`), with the name
of the file system it mounted.

* `MountFs` checks the file system's status, that the mount point carries `cto` and that
  `IsMountPointConflict` finds no mount point of the same path and hostname and no other
  `cto`, then adds it, writes the file system back and records the client.
* `UmountFs` deletes the mount point of the same path, hostname and port, drops the client's
  record and writes the file system back.
* `RefreshSession`, the client's heartbeat, records the client again; a client that has no
  record ("hang timeout and recover later") is added to the file system's mount points first,
  with none of the checks of `MountFs`.
* `CheckMountPoint`, run in the background, parses back the text of every client silent for
  longer than `clientTimeoutSec` with `Str2MountPoint` and unmounts it, or drops its record
  when the text does not parse.
* `RebuildTimeRecorder`, after a restart, records every mount point of every file system.

Each call is a function of the manager's state, with the result of each write to the KV store
(`persisted`) and the clock (`now`) as arguments; `LOG(FATAL)` is the model's `none`. A run
is any sequence of these calls (`FsStep`).

What holds over every run: each stored file system is stored under its own name, `mountnum`
counts its mount points and `enablesumindir` is on only while it has at most one
(`FsInfoInv`). Over every run without `RefreshSession` (`MountStep`), no file system holds two
mount points of one path and hostname, and all of its mount points carry one `cto`
(`MountsWellFormed`).

The text of a mount point parses back to it when its hostname and path are non-empty and hold
no `:` (`Mountpoint.TextOk`). `CheckMountPoint` unmounts a silent client of such a mount point;
it never unmounts one whose text does not parse back, and a `RefreshSession` of that client
after its record was dropped adds its mount point a second time.
-/

namespace DingoFs.Mds

open DingoFs.Lib DingoFs.Metaserver

/-! ## Mount points and their text -/

/-- The `FSStatusCode`s the mount calls return. -/
inductive FSStatusCode
  | OK
  | NOT_FOUND
  | PARAM_ERROR
  | NOT_INITED
  | UNDER_DELETING
  | MOUNT_POINT_NOT_EXIST
  | MOUNT_POINT_CONFLICT
  | FS_ID_MISMATCH
  | STORAGE_ERROR
  deriving DecidableEq, Repr

/-- `FsStatus` of a file system. -/
inductive FsStatus
  | NEW
  | INITED
  | DELETING
  deriving DecidableEq, Repr

/-- `FSType` of a file system. -/
inductive FSType
  | TYPE_VOLUME
  | TYPE_S3
  | TYPE_HYBRID
  deriving DecidableEq, Repr

/-- `Mountpoint`: `cto` is `none` while the field is unset. -/
structure Mountpoint where
  hostname : String
  port : UInt32
  path : String
  cto : Option Bool
  deriving DecidableEq, Repr

namespace Mountpoint

/-- The test of `IsMountPointExist` and `IsMountPointConflict`: the same path and hostname. -/
def sameHostPath (mp mountPoint : Mountpoint) : Bool :=
  mp.path == mountPoint.path && mp.hostname == mountPoint.hostname

/-- The test of `DeleteMountPoint`: the same path, hostname and port. -/
def sameHostPathPort (mp mountPoint : Mountpoint) : Bool :=
  mp.path == mountPoint.path && mp.hostname == mountPoint.hostname && mp.port == mountPoint.port

theorem sameHostPath_of_sameHostPathPort {mp mountPoint : Mountpoint}
    (h : mp.sameHostPathPort mountPoint = true) : mp.sameHostPath mountPoint = true := by
  simp only [sameHostPathPort, Bool.and_eq_true] at h
  simp only [sameHostPath, h.1, Bool.and_self]

theorem sameHostPath_self (mp : Mountpoint) : mp.sameHostPath mp = true := by
  simp [sameHostPath]

theorem sameHostPathPort_self (mp : Mountpoint) : mp.sameHostPathPort mp = true := by
  simp [sameHostPathPort]

theorem sameHostPath_comm (a b : Mountpoint) : a.sameHostPath b = b.sameHostPath a := by
  unfold sameHostPath
  rw [BEq.comm (a := a.path), BEq.comm (a := a.hostname)]

/-- The test of `DeleteMountPoint` does not read `cto`. -/
theorem sameHostPathPort_cto (mp : Mountpoint) (cto : Option Bool) :
    ({ mp with cto } : Mountpoint).sameHostPathPort = mp.sameHostPathPort := rfl

/-- A hostname and path that `MountPoint2Str` and `Str2MountPoint` carry through: non-empty
and free of the separator `:`. -/
structure TextOk (mp : Mountpoint) : Prop where
  hostname_ne : mp.hostname.toList ≠ []
  hostname_colon : ':' ∉ mp.hostname.toList
  path_ne : mp.path.toList ≠ []
  path_colon : ':' ∉ mp.path.toList

end Mountpoint

/-- `MountPoint2Str`. -/
def mountPoint2Str (mp : Mountpoint) : String :=
  mp.hostname ++ ":" ++ toString mp.port ++ ":" ++ mp.path

/-- `Str2MountPoint`: the three pieces `SplitString` makes, the middle one read with
`StringToUl`; `cto` stays unset. -/
def str2MountPoint (s : String) : Option Mountpoint :=
  match splitString s with
  | [hostname, port, path] =>
    match stringToUl port with
    | some port => some ⟨hostname, UInt32.ofNat port, path, none⟩
    | none => none
  | _ => none

theorem mountPoint2Str_eq (mp : Mountpoint) :
    mountPoint2Str mp = String.ofList ([':'].intercalate
      [mp.hostname.toList, Nat.toDigits 10 mp.port.toNat, mp.path.toList]) := by
  apply String.toList_injective
  have hport : (toString mp.port).toList = Nat.toDigits 10 mp.port.toNat := by
    show (Nat.repr mp.port.toNat).toList = _
    simp [Nat.repr]
  simp [mountPoint2Str, hport]

/-- `MountPoint2Str` does not see `cto`. -/
theorem mountPoint2Str_cto (mp : Mountpoint) (cto : Option Bool) :
    mountPoint2Str { mp with cto } = mountPoint2Str mp := rfl

/-- The text of a mount point parses back to it, `cto` apart, when its hostname and path are
non-empty and hold no `:`. -/
theorem str2MountPoint_mountPoint2Str {mp : Mountpoint} (h : mp.TextOk) :
    str2MountPoint (mountPoint2Str mp) = some { mp with cto := none } := by
  have hport : FieldFits true (Nat.toDigits 10 mp.port.toNat) :=
    fieldFits_toDigits (by simpa using mp.port.toNat_lt)
  have hpieces : ∀ l ∈ [mp.hostname.toList, Nat.toDigits 10 mp.port.toNat, mp.path.toList],
      ':' ∉ l ∧ l ≠ [] := by
    simp only [List.mem_cons, List.not_mem_nil, or_false]
    rintro l (rfl | rfl | rfl)
    · exact ⟨h.hostname_colon, h.hostname_ne⟩
    · exact ⟨hport.colon_not_mem, hport.1⟩
    · exact ⟨h.path_colon, h.path_ne⟩
  rw [mountPoint2Str_eq, str2MountPoint,
    splitString_intercalate (fun l hl => (hpieces l hl).1) (fun l hl => (hpieces l hl).2)
      (List.cons_ne_nil _ _)]
  simp [stringToUl_of_fits hport, digitsValue_toDigits]

/-- Every piece `SplitString` makes is non-empty and holds no `:`. -/
theorem mem_splitString {s piece : String} (h : piece ∈ splitString s) :
    piece.toList ≠ [] ∧ ':' ∉ piece.toList := by
  simp only [splitString, List.mem_map, List.mem_filter, Bool.not_eq_true',
    List.isEmpty_eq_false_iff] at h
  obtain ⟨l, ⟨hl, hne⟩, rfl⟩ := h
  rw [String.toList_ofList]
  exact ⟨hne, not_mem_of_mem_splitOn hl⟩

/-- What `Str2MountPoint` returns has a hostname and a path that parse back. -/
theorem textOk_of_str2MountPoint {s : String} {mp : Mountpoint} (h : str2MountPoint s = some mp) :
    mp.TextOk := by
  unfold str2MountPoint at h
  split at h
  · rename_i hostname port path hsplit
    split at h
    · cases h
      have hhost := mem_splitString (show hostname ∈ splitString s by simp [hsplit])
      have hpath := mem_splitString (show path ∈ splitString s by simp [hsplit])
      exact ⟨hhost.1, hhost.2, hpath.1, hpath.2⟩
    · cases h
  · cases h

/-- A mount point with an empty hostname or path, or one that holds a `:`, shares its
hostname and path with nothing that `Str2MountPoint` returns, whatever its own text parses
to. -/
theorem sameHostPath_eq_false_of_not_textOk {mp mp' : Mountpoint} {s : String}
    (hmp : ¬ mp.TextOk) (h : str2MountPoint s = some mp') :
    mp'.sameHostPath mp = false := by
  have hok := textOk_of_str2MountPoint h
  by_contra hsame
  simp only [Mountpoint.sameHostPath, Bool.not_eq_false, Bool.and_eq_true, beq_iff_eq] at hsame
  obtain ⟨hpath, hhost⟩ := hsame
  exact hmp ⟨hhost ▸ hok.hostname_ne, hhost ▸ hok.hostname_colon, hpath ▸ hok.path_ne,
    hpath ▸ hok.path_colon⟩

/-- A mount point whose text does not parse back fails `TextOk`. -/
theorem not_textOk_of_str2MountPoint_eq_none {mp : Mountpoint}
    (hmp : str2MountPoint (mountPoint2Str mp) = none) : ¬ mp.TextOk := fun hok => by
  rw [str2MountPoint_mountPoint2Str hok] at hmp
  cases hmp

/-- The text of a mount point parses back to it, `cto` apart, exactly when its hostname and
path are non-empty and hold no `:`. -/
theorem mountPoint2Str_round_trip_iff (mp : Mountpoint) :
    str2MountPoint (mountPoint2Str mp) = some { mp with cto := none } ↔ mp.TextOk := by
  constructor
  · -- what comes back has the hostname and path of `mp`, and what comes back parses back
    intro h
    have hok := textOk_of_str2MountPoint h
    exact ⟨hok.hostname_ne, hok.hostname_colon, hok.path_ne, hok.path_colon⟩
  · exact str2MountPoint_mountPoint2Str

example : str2MountPoint (mountPoint2Str ⟨"host", 9000, "/mnt/a", some true⟩) =
      some ⟨"host", 9000, "/mnt/a", none⟩ ∧
    str2MountPoint (mountPoint2Str ⟨"host", 9000, "/mnt/a:b", some true⟩) = none := by
  decide

/-! ## File systems and their store -/

/-- The fields of `FsInfo` the mount calls read and write. -/
structure FsInfo where
  fsName : String
  fsId : Nat
  status : FsStatus
  fsType : FSType
  mountpoints : List Mountpoint
  mountnum : Nat
  enablesumindir : Bool
  deriving DecidableEq, Repr

namespace FsInfo

/-- `FsInfoWrapper::IsMountPointExist`. -/
def isMountPointExist (fsInfo : FsInfo) (mp : Mountpoint) : Bool :=
  fsInfo.mountpoints.any mp.sameHostPath

/-- The `find_if` of `IsMountPointConflict`, which sets `cto` at every mount point it visits
that has `cto` set to true, up to the first one of `mp`'s path and hostname: whether it found
one, and `cto`. -/
def conflictScan (mp : Mountpoint) (cto : Bool) : List Mountpoint → Bool × Bool
  | [] => (false, cto)
  | mountPoint :: rest =>
    let cto := if mountPoint.cto = some true then true else cto
    if mp.sameHostPath mountPoint then (true, cto) else conflictScan mp cto rest

/-- `FsInfoWrapper::IsMountPointConflict`: a mount point of the same path and hostname, or a
`cto` other than the one of the mount points there. -/
def isMountPointConflict (fsInfo : FsInfo) (mp : Mountpoint) : Bool :=
  let cto := if fsInfo.mountpoints.length ≠ 0 then false else mp.cto.getD false
  let (exist, cto) := conflictScan mp cto fsInfo.mountpoints
  exist || cto != mp.cto.getD false

/-- `FsInfoWrapper::IsMountPointEmpty`. -/
def isMountPointEmpty (fsInfo : FsInfo) : Bool := fsInfo.mountpoints.length == 0

/-- `FsInfoWrapper::AddMountPoint`: a second mount point turns `enablesumindir` off. -/
def addMountPoint (fsInfo : FsInfo) (mp : Mountpoint) : FsInfo :=
  let fsInfo := { fsInfo with
    mountpoints := fsInfo.mountpoints ++ [mp], mountnum := fsInfo.mountnum + 1 }
  if fsInfo.enablesumindir && fsInfo.mountnum > 1 then { fsInfo with enablesumindir := false }
  else fsInfo

/-- `FsInfoWrapper::DeleteMountPoint`: erases the first mount point of the same path, hostname
and port. -/
def deleteMountPoint (fsInfo : FsInfo) (mp : Mountpoint) : FSStatusCode × FsInfo :=
  if fsInfo.mountpoints.any mp.sameHostPathPort then
    (.OK, { fsInfo with
      mountpoints := fsInfo.mountpoints.eraseP mp.sameHostPathPort,
      mountnum := fsInfo.mountnum - 1 })
  else (.MOUNT_POINT_NOT_EXIST, fsInfo)

end FsInfo

/-- `PersisKVStorage::fs_`: the file systems by name. -/
abbrev FsStorage := AList fun _ : String => FsInfo

/-- `PersisKVStorage::Update`: the file system stored under the wrapper's own name is replaced
when it has the wrapper's id and the write to the KV store succeeds (`persisted`). -/
def FsStorage.update (fsStorage : FsStorage) (fs : FsInfo) (persisted : Bool) :
    FSStatusCode × FsStorage :=
  match fsStorage.lookup fs.fsName with
  | none => (.NOT_FOUND, fsStorage)
  | some old =>
    if old.fsId ≠ fs.fsId then (.FS_ID_MISMATCH, fsStorage)
    else if !persisted then (.STORAGE_ERROR, fsStorage)
    else (.OK, fsStorage.insert fs.fsName fs)

/-! ## What the wrapper's calls and `Update` keep -/

namespace FsInfo

variable {fsInfo : FsInfo} {mp : Mountpoint}

@[simp]
theorem addMountPoint_mountpoints : (fsInfo.addMountPoint mp).mountpoints = fsInfo.mountpoints ++ [mp] := by
  dsimp only [addMountPoint]
  split <;> rfl

@[simp]
theorem addMountPoint_fsName : (fsInfo.addMountPoint mp).fsName = fsInfo.fsName := by
  dsimp only [addMountPoint]
  split <;> rfl

@[simp]
theorem addMountPoint_fsId : (fsInfo.addMountPoint mp).fsId = fsInfo.fsId := by
  dsimp only [addMountPoint]
  split <;> rfl

@[simp]
theorem addMountPoint_mountnum : (fsInfo.addMountPoint mp).mountnum = fsInfo.mountnum + 1 := by
  dsimp only [addMountPoint]
  split <;> rfl

theorem addMountPoint_enablesumindir :
    (fsInfo.addMountPoint mp).enablesumindir = (fsInfo.enablesumindir && !(fsInfo.mountnum + 1 > 1)) := by
  dsimp only [addMountPoint]
  split <;> simp_all

theorem deleteMountPoint_cases (fsInfo : FsInfo) (mp : Mountpoint) :
    (fsInfo.deleteMountPoint mp = (.OK, { fsInfo with
      mountpoints := fsInfo.mountpoints.eraseP mp.sameHostPathPort,
      mountnum := fsInfo.mountnum - 1 }) ∧ fsInfo.mountpoints.any mp.sameHostPathPort = true) ∨
    (fsInfo.deleteMountPoint mp = (.MOUNT_POINT_NOT_EXIST, fsInfo) ∧
      fsInfo.mountpoints.any mp.sameHostPathPort = false) := by
  unfold deleteMountPoint
  split
  · exact .inl ⟨rfl, ‹_›⟩
  · exact .inr ⟨rfl, Bool.eq_false_iff.mpr ‹_›⟩

theorem conflictScan_fst (mp : Mountpoint) :
    ∀ (cto : Bool) (l : List Mountpoint), (conflictScan mp cto l).1 = l.any mp.sameHostPath
  | _, [] => rfl
  | cto, b :: l => by
    unfold conflictScan
    by_cases hb : mp.sameHostPath b = true
    · simp [hb]
    · simp only [hb, if_false, Bool.false_eq_true, List.any_cons, Bool.false_or]
      exact conflictScan_fst mp _ l

theorem conflictScan_snd (mp : Mountpoint) :
    ∀ (cto : Bool) (l : List Mountpoint), l.any mp.sameHostPath = false →
      (conflictScan mp cto l).2 = (cto || l.any fun b => b.cto == some true)
  | _, [], _ => by simp [conflictScan]
  | cto, b :: l, h => by
    simp only [List.any_cons, Bool.or_eq_false_iff] at h
    unfold conflictScan
    simp only [h.1, if_false, Bool.false_eq_true]
    rw [conflictScan_snd mp _ l h.2, List.any_cons]
    by_cases hb : b.cto = some true
    · simp [hb]
    · simp [hb, beq_eq_false_iff_ne.mpr hb]

@[simp]
theorem deleteMountPoint_fsName : (fsInfo.deleteMountPoint mp).2.fsName = fsInfo.fsName := by
  unfold deleteMountPoint
  split <;> rfl

@[simp]
theorem deleteMountPoint_fsId : (fsInfo.deleteMountPoint mp).2.fsId = fsInfo.fsId := by
  unfold deleteMountPoint
  split <;> rfl

/-- `DeleteMountPoint` keeps every copy of a mount point of another path, hostname or port. -/
theorem count_deleteMountPoint {mp' : Mountpoint} (hne : mp.sameHostPathPort mp' = false) :
    (fsInfo.deleteMountPoint mp).2.mountpoints.count mp' = fsInfo.mountpoints.count mp' := by
  rcases deleteMountPoint_cases fsInfo mp with ⟨hdel, -⟩ | ⟨hdel, -⟩ <;> rw [hdel]
  exact count_eraseP_of_not hne

theorem countP_deleteMountPoint_le (q : Mountpoint → Bool) :
    (fsInfo.deleteMountPoint mp).2.mountpoints.countP q ≤ fsInfo.mountpoints.countP q := by
  rcases deleteMountPoint_cases fsInfo mp with ⟨hdel, -⟩ | ⟨hdel, -⟩ <;> rw [hdel]
  exact List.eraseP_sublist.countP_le

/-- `DeleteMountPoint` of a mount point it finds erases one of its path, hostname and port. -/
theorem countP_deleteMountPoint_lt (hany : fsInfo.mountpoints.any mp.sameHostPathPort = true) :
    (fsInfo.deleteMountPoint mp).2.mountpoints.countP mp.sameHostPathPort <
      fsInfo.mountpoints.countP mp.sameHostPathPort := by
  obtain ⟨b, hb, hpb⟩ := List.any_eq_true.mp hany
  obtain ⟨_, l₁, l₂, -, hpa, hl, heq⟩ := List.exists_of_eraseP hb hpb
  rcases deleteMountPoint_cases fsInfo mp with ⟨hdel, -⟩ | ⟨-, hnone⟩
  · rw [hdel]
    dsimp only
    rw [heq, hl, List.countP_append, List.countP_append, List.countP_cons_of_pos hpa]
    omega
  · rw [hany] at hnone
    cases hnone

/-- `IsMountPointConflict` finds nothing: no mount point of `mp`'s path and hostname, and
`mp`'s `cto` is true exactly when a mount point there has `cto` set to true, or, with none
there, whatever it is. -/
theorem isMountPointConflict_eq_false (h : fsInfo.isMountPointConflict mp = false) :
    fsInfo.mountpoints.any mp.sameHostPath = false ∧
      (fsInfo.mountpoints ≠ [] → (fsInfo.mountpoints.any fun b => b.cto == some true) =
        mp.cto.getD false) := by
  unfold isMountPointConflict at h
  simp only [Bool.or_eq_false_iff, bne_eq_false_iff_eq] at h
  rw [conflictScan_fst] at h
  refine ⟨h.1, fun hne => ?_⟩
  have hlen : fsInfo.mountpoints.length ≠ 0 := by simpa using hne
  rw [conflictScan_snd mp _ _ h.1, if_pos hlen, Bool.false_or] at h
  exact h.2

end FsInfo

/-- What each stored file system keeps: it is stored under its own name, `mountnum` counts its
mount points, and `enablesumindir` is on only while it has at most one. -/
structure FsInfoInv (name : String) (fsInfo : FsInfo) : Prop where
  name_eq : fsInfo.fsName = name
  mountnum_eq : fsInfo.mountnum = fsInfo.mountpoints.length
  sumInDir : fsInfo.enablesumindir = true → fsInfo.mountpoints.length ≤ 1

namespace FsInfoInv

variable {name : String} {fsInfo : FsInfo}

theorem addMountPoint (h : FsInfoInv name fsInfo) (mp : Mountpoint) :
    FsInfoInv name (fsInfo.addMountPoint mp) where
  name_eq := by rw [FsInfo.addMountPoint_fsName, h.name_eq]
  mountnum_eq := by simp [h.mountnum_eq]
  sumInDir := by
    rw [FsInfo.addMountPoint_enablesumindir, FsInfo.addMountPoint_mountpoints, List.length_append,
      h.mountnum_eq]
    intro hon
    simp only [Bool.and_eq_true, Bool.not_eq_true', decide_eq_false_iff_not] at hon
    simp only [List.length_singleton]
    omega

theorem deleteMountPoint (h : FsInfoInv name fsInfo) (mp : Mountpoint) :
    FsInfoInv name (fsInfo.deleteMountPoint mp).2 := by
  rcases FsInfo.deleteMountPoint_cases fsInfo mp with ⟨hdel, hany⟩ | hdel
  · obtain ⟨b, hb, hpb⟩ := List.any_eq_true.mp hany
    have hlen := List.length_eraseP_of_mem hb hpb
    rw [hdel]
    refine ⟨h.name_eq, ?_, ?_⟩
    · simp only [hlen, h.mountnum_eq]
    · intro hon
      have := h.sumInDir hon
      simp only [hlen]
      omega
  · rw [hdel.1]
    exact h

end FsInfoInv

/-- What `MountFs` checks before it adds a mount point: no two mount points of one path and
hostname, and one `cto` set on all of them. -/
structure MountsWellFormed (mountpoints : List Mountpoint) : Prop where
  apart : mountpoints.Pairwise fun a b => a.sameHostPath b = false
  cto_eq : ∃ cto : Bool, ∀ a ∈ mountpoints, a.cto = some cto

namespace MountsWellFormed

theorem sublist {l l' : List Mountpoint} (h : MountsWellFormed l) (hsub : List.Sublist l' l) :
    MountsWellFormed l' := by
  obtain ⟨cto, hcto⟩ := h.cto_eq
  exact ⟨h.apart.sublist hsub, cto, fun a ha => hcto a (hsub.subset ha)⟩

theorem deleteMountPoint {fsInfo : FsInfo} (h : MountsWellFormed fsInfo.mountpoints)
    (mp : Mountpoint) : MountsWellFormed (fsInfo.deleteMountPoint mp).2.mountpoints := by
  rcases FsInfo.deleteMountPoint_cases fsInfo mp with ⟨hdel, -⟩ | ⟨hdel, -⟩
  · rw [hdel]
    exact h.sublist List.eraseP_sublist
  · rw [hdel]
    exact h

/-- A mount point that `MountFs` accepts keeps the mount points well formed. -/
theorem addMountPoint {fsInfo : FsInfo} (h : MountsWellFormed fsInfo.mountpoints)
    {mp : Mountpoint} (hcto : mp.cto.isSome) (hc : fsInfo.isMountPointConflict mp = false) :
    MountsWellFormed (fsInfo.addMountPoint mp).mountpoints := by
  obtain ⟨hexist, hctoOf⟩ := FsInfo.isMountPointConflict_eq_false hc
  obtain ⟨c, hc⟩ := Option.isSome_iff_exists.mp hcto
  rw [FsInfo.addMountPoint_mountpoints]
  refine ⟨?_, ?_⟩
  · -- the new mount point shares its path and hostname with none of the others
    refine List.pairwise_append.mpr ⟨h.apart, List.pairwise_singleton _ _, ?_⟩
    intro a ha b hb
    rw [List.mem_singleton.mp hb, Mountpoint.sameHostPath_comm]
    exact Bool.eq_false_iff.mpr (List.any_eq_false.mp hexist a ha)
  · -- its `cto` is the one the others carry, which `IsMountPointConflict` compared
    obtain ⟨cto, hcto⟩ := h.cto_eq
    rcases List.eq_nil_or_concat fsInfo.mountpoints with hnil | ⟨l, a, hl⟩
    · refine ⟨c, fun b hb => ?_⟩
      rw [hnil, List.nil_append, List.mem_singleton] at hb
      rw [hb, hc]
    · refine ⟨cto, fun b hb => ?_⟩
      rcases List.mem_append.mp hb with hb | hb
      · exact hcto b hb
      · have hne : fsInfo.mountpoints ≠ [] := by simp [hl]
        have hany := hctoOf hne
        rw [hc, Option.getD_some] at hany
        have hall : (fsInfo.mountpoints.any fun b => b.cto == some true) = cto := by
          have ha : a ∈ fsInfo.mountpoints := by simp [hl]
          cases cto
          · exact List.any_eq_false.mpr fun x hx => by simp [hcto x hx]
          · exact List.any_eq_true.mpr ⟨a, ha, by simp [hcto a ha]⟩
        rw [List.mem_singleton.mp hb, hc, ← hany, hall]

end MountsWellFormed

namespace FsStorage

/-- Every stored file system satisfies `P`, with the name it is stored under. -/
def Holds (P : String → FsInfo → Prop) (fsStorage : FsStorage) : Prop :=
  ∀ name fsInfo, fsStorage.lookup name = some fsInfo → P name fsInfo

variable {fsStorage : FsStorage} {fs : FsInfo}

/-- All `Update` can do: nothing, or store the wrapper under its own name. -/
theorem update_cases (fsStorage : FsStorage) (fs : FsInfo) (persisted : Bool) :
    (fsStorage.update fs persisted).2 = fsStorage ∨
      (fsStorage.update fs persisted).2 = fsStorage.insert fs.fsName fs := by
  unfold update
  split
  · exact .inl rfl
  · split_ifs
    · exact .inl rfl
    · exact .inl rfl
    · exact .inr rfl

/-- `Update` of a wrapper with the id of the one stored under its name, when the write
succeeds. -/
theorem update_of_lookup {old : FsInfo} (h : fsStorage.lookup fs.fsName = some old)
    (hid : old.fsId = fs.fsId) : fsStorage.update fs true = (.OK, fsStorage.insert fs.fsName fs) := by
  simp [update, h, hid]

theorem Holds.update {P : String → FsInfo → Prop} (hs : fsStorage.Holds P) (hfs : P fs.fsName fs)
    (persisted : Bool) : (fsStorage.update fs persisted).2.Holds P := by
  rcases update_cases fsStorage fs persisted with h | h <;> rw [h]
  · exact hs
  · intro name fsInfo hlookup
    by_cases hname : name = fs.fsName
    · rw [hname, AList.lookup_insert] at hlookup
      cases hlookup
      rw [hname]
      exact hfs
    · rw [AList.lookup_insert_ne hname] at hlookup
      exact hs name fsInfo hlookup

/-- After `Update`, a name holds what it held, or the wrapper when it is the wrapper's. -/
theorem lookup_update (persisted : Bool) (name : String) :
    (fsStorage.update fs persisted).2.lookup name = fsStorage.lookup name ∨
      (name = fs.fsName ∧ (fsStorage.update fs persisted).2.lookup name = some fs) := by
  rcases update_cases fsStorage fs persisted with h | h <;> rw [h]
  · exact .inl rfl
  · by_cases hname : name = fs.fsName
    · rw [hname, AList.lookup_insert]
      exact .inr ⟨rfl, rfl⟩
    · rw [AList.lookup_insert_ne hname]
      exact .inl rfl

end FsStorage

/-! ## The manager's calls -/

/-- The state of `FsManager` the mount calls share: the store and `mpTimeRecorder_`, from the
text of a client's mount point to the file system it mounted and the last time it was heard
of. -/
structure FsManager where
  fsStorage : FsStorage
  mpTimeRecorder : AList fun _ : String => String × Nat

namespace FsManager

/-- `FsManager::DeleteClientAliveTime`. -/
def deleteClientAliveTime (m : FsManager) (mountpoint : String) : FsManager :=
  { m with mpTimeRecorder := m.mpTimeRecorder.erase mountpoint }

/-- `FsManager::AddMountPoint`: the mount point is added with none of the checks of
`MountFs`. -/
def addMountPoint (m : FsManager) (mountpoint : Mountpoint) (fsName : String)
    (persisted : Bool) : FSStatusCode × FsManager :=
  match m.fsStorage.lookup fsName with
  | none => (.NOT_FOUND, m)
  | some wrapper =>
    let (ret, fsStorage) := FsStorage.update m.fsStorage (wrapper.addMountPoint mountpoint) persisted
    (ret, { m with fsStorage })

/-- `FsManager::UpdateClientAliveTime`: records the client at `now`; with `addMountPoint`, a
client without a record is first added to the file system, and left unrecorded when that
fails. -/
def updateClientAliveTime (m : FsManager) (mountpoint : Mountpoint) (fsName : String)
    (addMountPoint persisted : Bool) (now : Nat) : FsManager :=
  let mountpath := mountPoint2Str mountpoint
  let record (m : FsManager) : FsManager :=
    { m with mpTimeRecorder := m.mpTimeRecorder.insert mountpath (fsName, now) }
  if addMountPoint && m.mpTimeRecorder.lookup mountpath == none then
    let (ret, m) := m.addMountPoint mountpoint fsName persisted
    if ret = .OK then record m else m
  else record m

/-- `FsManager::MountFs`. -/
def mountFs (m : FsManager) (fsName : String) (mountpoint : Mountpoint) (persisted : Bool)
    (now : Nat) : Option (FSStatusCode × FsManager) :=
  match m.fsStorage.lookup fsName with
  | none => some (.NOT_FOUND, m)
  | some wrapper =>
    match wrapper.status with
    | .NEW => some (.NOT_INITED, m)
    | .DELETING => some (.UNDER_DELETING, m)
    | .INITED =>
      if mountpoint.cto.isNone then some (.PARAM_ERROR, m)
      else if wrapper.isMountPointConflict mountpoint then some (.MOUNT_POINT_CONFLICT, m)
      -- `TYPE_VOLUME init space not supported`
      else if wrapper.fsType = .TYPE_VOLUME ∧ wrapper.isMountPointEmpty then none
      else
        let (ret, fsStorage) :=
          FsStorage.update m.fsStorage (wrapper.addMountPoint mountpoint) persisted
        if ret ≠ .OK then some (ret, m)
        else some (.OK, updateClientAliveTime { m with fsStorage } mountpoint fsName false
          persisted now)

/-- `FsManager::UmountFs`: the client's record is dropped before the file system is written
back. -/
def umountFs (m : FsManager) (fsName : String) (mountpoint : Mountpoint) (persisted : Bool) :
    Option (FSStatusCode × FsManager) :=
  match m.fsStorage.lookup fsName with
  | none => some (.NOT_FOUND, m)
  | some wrapper =>
    if !wrapper.isMountPointExist mountpoint then some (.MOUNT_POINT_NOT_EXIST, m)
    else
      let (ret, wrapper) := wrapper.deleteMountPoint mountpoint
      if ret ≠ .OK then some (ret, m)
      else
        let m := m.deleteClientAliveTime (mountPoint2Str mountpoint)
        -- `TYPE_VOLUME not supported`
        if wrapper.fsType = .TYPE_VOLUME ∧ wrapper.isMountPointEmpty then none
        else
          let (ret, fsStorage) := FsStorage.update m.fsStorage wrapper persisted
          some (ret, { m with fsStorage })

/-- `FsManager::RefreshSession`, its part on mounts: the client is recorded, and added to the
file system when it has no record; the response carries the file system's
`enablesumindir`. -/
def refreshSession (m : FsManager) (fsName : String) (mountpoint : Mountpoint)
    (persisted : Bool) (now : Nat) : FsManager × Option Bool :=
  let m := m.updateClientAliveTime mountpoint fsName true persisted now
  (m, (m.fsStorage.lookup fsName).map (·.enablesumindir))

/-- One round of the loop of `CheckMountPoint`, at the record of `mountpath` for `fsName` at
`time`: a client silent for longer than `clientTimeoutSec` (a `uint64_t` difference) is
unmounted, and its record dropped instead when its text does not parse. -/
def checkMountPointEntry (now clientTimeoutSec : Nat) (persisted : String → Bool)
    (m : FsManager) (entry : String × String × Nat) : Option FsManager :=
  let (mountpath, fsName, time) := entry
  if sub64 now time > clientTimeoutSec then
    match str2MountPoint mountpath with
    | none => some (m.deleteClientAliveTime mountpath)
    | some mountpoint => (m.umountFs fsName mountpoint (persisted mountpath)).map Prod.snd
  else some m

/-- The copy of `mpTimeRecorder_` that `CheckMountPoint` walks, in the key order of its
`std::map`. -/
def recorderSnapshot (m : FsManager) : List (String × String × Nat) :=
  (m.mpTimeRecorder.entries.map fun e => (e.1, e.2)).insertionSort fun a b => a.1 ≤ b.1

/-- `FsManager::CheckMountPoint`; `persisted` is the result of the write of each unmount,
by the text of the client's mount point. -/
def checkMountPoint (m : FsManager) (now clientTimeoutSec : Nat) (persisted : String → Bool) :
    Option FsManager :=
  m.recorderSnapshot.foldlM (checkMountPointEntry now clientTimeoutSec persisted) m

/-- `FsManager::RebuildTimeRecorder`: records every mount point of every file system at
`now`, under the name the file system carries; nothing is written to the store. -/
def rebuildTimeRecorder (m : FsManager) (now : Nat) : FsManager :=
  m.fsStorage.entries.foldl (fun m info =>
    info.2.mountpoints.foldl (fun m mount =>
      m.updateClientAliveTime mount info.2.fsName false false now) m) m

end FsManager

/-- One of the mount calls other than `RefreshSession`, with any outcome of its writes and any
clock, that does not abort. -/
inductive MountStep : FsManager → FsManager → Prop
  | mountFs {m m' : FsManager} (fsName : String) (mountpoint : Mountpoint) (persisted : Bool)
      (now : Nat) {code : FSStatusCode} (h : m.mountFs fsName mountpoint persisted now = some (code, m')) :
      MountStep m m'
  | umountFs {m m' : FsManager} (fsName : String) (mountpoint : Mountpoint) (persisted : Bool)
      {code : FSStatusCode} (h : m.umountFs fsName mountpoint persisted = some (code, m')) :
      MountStep m m'
  | checkMountPoint {m m' : FsManager} (now clientTimeoutSec : Nat) (persisted : String → Bool)
      (h : m.checkMountPoint now clientTimeoutSec persisted = some m') : MountStep m m'
  | rebuildTimeRecorder (m : FsManager) (now : Nat) : MountStep m (m.rebuildTimeRecorder now)

/-- One mount call: one of `MountStep`, or a `RefreshSession`. -/
inductive FsStep : FsManager → FsManager → Prop
  | mount {m m' : FsManager} (h : MountStep m m') : FsStep m m'
  | refreshSession (m : FsManager) (fsName : String) (mountpoint : Mountpoint) (persisted : Bool)
      (now : Nat) : FsStep m (m.refreshSession fsName mountpoint persisted now).1


/-! ## What each call can do -/

namespace FsManager

variable {m m' : FsManager}

@[simp]
theorem deleteClientAliveTime_fsStorage (m : FsManager) (mountpath : String) :
    (m.deleteClientAliveTime mountpath).fsStorage = m.fsStorage := rfl

@[simp]
theorem deleteClientAliveTime_mpTimeRecorder (m : FsManager) (mountpath : String) :
    (m.deleteClientAliveTime mountpath).mpTimeRecorder = m.mpTimeRecorder.erase mountpath := rfl

/-- `AddMountPoint` of a file system that is there: `Update` of it with the mount point added. -/
theorem addMountPoint_of_lookup {fsName : String} {wrapper : FsInfo}
    (h : m.fsStorage.lookup fsName = some wrapper) (mountpoint : Mountpoint) (persisted : Bool) :
    m.addMountPoint mountpoint fsName persisted =
      ((FsStorage.update m.fsStorage (wrapper.addMountPoint mountpoint) persisted).1,
        { m with
          fsStorage := (FsStorage.update m.fsStorage (wrapper.addMountPoint mountpoint) persisted).2 }) := by
  simp [addMountPoint, h]

/-- All `AddMountPoint` does to the store: nothing, or `Update` of the file system with the
mount point added; it leaves the records alone. -/
theorem addMountPoint_cases (m : FsManager) (mountpoint : Mountpoint) (fsName : String)
    (persisted : Bool) :
    (m.addMountPoint mountpoint fsName persisted).2.mpTimeRecorder = m.mpTimeRecorder ∧
      ((m.addMountPoint mountpoint fsName persisted).2.fsStorage = m.fsStorage ∨
        ∃ wrapper, m.fsStorage.lookup fsName = some wrapper ∧
          (m.addMountPoint mountpoint fsName persisted).2.fsStorage =
            (FsStorage.update m.fsStorage (wrapper.addMountPoint mountpoint) persisted).2) := by
  cases h : m.fsStorage.lookup fsName with
  | none => simp [addMountPoint, h]
  | some wrapper =>
    rw [addMountPoint_of_lookup h]
    exact ⟨rfl, .inr ⟨wrapper, rfl, rfl⟩⟩

/-- `UpdateClientAliveTime` with `addMountPoint` of a client without a record writes what
`AddMountPoint` writes. -/
theorem updateClientAliveTime_fsStorage_of_lookup_none {mountpoint : Mountpoint}
    (hrec : m.mpTimeRecorder.lookup (mountPoint2Str mountpoint) = none) (fsName : String)
    (persisted : Bool) (now : Nat) :
    (m.updateClientAliveTime mountpoint fsName true persisted now).fsStorage =
      (m.addMountPoint mountpoint fsName persisted).2.fsStorage := by
  simp only [updateClientAliveTime, hrec, beq_self_eq_true, Bool.and_self, if_true]
  split_ifs <;> rfl

@[simp]
theorem updateClientAliveTime_false_fsStorage (m : FsManager) (mountpoint : Mountpoint)
    (fsName : String) (persisted : Bool) (now : Nat) :
    (m.updateClientAliveTime mountpoint fsName false persisted now).fsStorage = m.fsStorage := rfl

/-- All `UpdateClientAliveTime` does to the store: nothing, or what `AddMountPoint` does. -/
theorem updateClientAliveTime_fsStorage (m : FsManager) (mountpoint : Mountpoint)
    (fsName : String) (addMountPoint persisted : Bool) (now : Nat) :
    (m.updateClientAliveTime mountpoint fsName addMountPoint persisted now).fsStorage =
        m.fsStorage ∨
      (m.updateClientAliveTime mountpoint fsName addMountPoint persisted now).fsStorage =
        (m.addMountPoint mountpoint fsName persisted).2.fsStorage := by
  dsimp only [updateClientAliveTime]
  split
  · -- the client had no record: whatever `AddMountPoint` returned, its store is kept
    generalize m.addMountPoint mountpoint fsName persisted = r
    obtain ⟨ret, m₁⟩ := r
    dsimp only
    split_ifs
    · exact .inr rfl
    · exact .inr rfl
  · exact .inl rfl

/-- What a `MountFs` that does not abort can do to the store: nothing, or `Update` of a file
system with a mount point that carries `cto` and that `IsMountPointConflict` lets in. -/
theorem mountFs_cases {fsName : String} {mountpoint : Mountpoint} {persisted : Bool} {now : Nat}
    {code : FSStatusCode} (h : m.mountFs fsName mountpoint persisted now = some (code, m')) :
    m'.fsStorage = m.fsStorage ∨
      ∃ wrapper, m.fsStorage.lookup fsName = some wrapper ∧ mountpoint.cto.isSome ∧
        wrapper.isMountPointConflict mountpoint = false ∧
        m'.fsStorage = (FsStorage.update m.fsStorage (wrapper.addMountPoint mountpoint) persisted).2 := by
  unfold mountFs at h
  split at h
  · cases h
    exact .inl rfl
  · rename_i wrapper hfs
    split at h
    · cases h
      exact .inl rfl
    · cases h
      exact .inl rfl
    · generalize hu : FsStorage.update m.fsStorage (wrapper.addMountPoint mountpoint) persisted = u at h
      obtain ⟨ret, fsStorage⟩ := u
      dsimp only at h
      split_ifs at h with hcto hconflict hvolume hret
      · cases h
        exact .inl rfl
      · cases h
        exact .inl rfl
      · cases h
        exact .inl rfl
      · cases h
        refine .inr ⟨wrapper, hfs, Option.isSome_iff_ne_none.mpr (by simpa using hcto),
          Bool.eq_false_iff.mpr hconflict, ?_⟩
        rw [updateClientAliveTime_false_fsStorage, hu]

/-- What an `UmountFs` that does not abort can do: nothing, when the file system has no mount
point of the same path, hostname and port; or drop the client's record and `Update` the file
system with the first such mount point erased. -/
theorem umountFs_cases {fsName : String} {mountpoint : Mountpoint} {persisted : Bool}
    {code : FSStatusCode} (h : m.umountFs fsName mountpoint persisted = some (code, m')) :
    (m' = m ∧ ∀ wrapper, m.fsStorage.lookup fsName = some wrapper →
        wrapper.mountpoints.any mountpoint.sameHostPathPort = false) ∨
      ∃ wrapper, m.fsStorage.lookup fsName = some wrapper ∧
        wrapper.mountpoints.any mountpoint.sameHostPathPort = true ∧
        m'.mpTimeRecorder = m.mpTimeRecorder.erase (mountPoint2Str mountpoint) ∧
        m'.fsStorage =
          (FsStorage.update m.fsStorage (wrapper.deleteMountPoint mountpoint).2 persisted).2 := by
  unfold umountFs at h
  split at h
  · rename_i hfs
    cases h
    exact .inl ⟨rfl, fun wrapper hw => by rw [hfs] at hw; cases hw⟩
  · rename_i wrapper hfs
    split_ifs at h with hexist
    · -- no mount point of the same path and hostname, so none of the same port either
      cases h
      refine .inl ⟨rfl, fun w hw => ?_⟩
      rw [hfs] at hw
      cases hw
      simp only [FsInfo.isMountPointExist, Bool.not_eq_true', List.any_eq_false] at hexist
      exact List.any_eq_false.mpr fun b hb hpb =>
        hexist b hb (Mountpoint.sameHostPath_of_sameHostPathPort hpb)
    · rcases FsInfo.deleteMountPoint_cases wrapper mountpoint with ⟨hdel, hany⟩ | ⟨hdel, hany⟩
      · rw [hdel] at h
        dsimp only at h
        split_ifs at h with hret hvolume
        · exact absurd rfl hret
        · cases h
          exact .inr ⟨wrapper, hfs, hany, rfl, by rw [hdel]; rfl⟩
      · rw [hdel] at h
        cases h
        exact .inl ⟨rfl, fun w hw => by rw [hfs] at hw; cases hw; exact hany⟩

/-- `RebuildTimeRecorder` writes nothing to the store. -/
theorem rebuildTimeRecorder_fsStorage (m : FsManager) (now : Nat) :
    (m.rebuildTimeRecorder now).fsStorage = m.fsStorage := by
  -- every round of both loops records a client without `addMountPoint`
  have hinner : ∀ (name : String) (l : List Mountpoint) (m : FsManager),
      (l.foldl (fun m mount => m.updateClientAliveTime mount name false false now) m).fsStorage =
        m.fsStorage := by
    intro name l
    induction l with
    | nil => intro m; rfl
    | cons mount l ih => intro m; rw [List.foldl_cons, ih]; rfl
  have houter : ∀ (l : List (Σ _ : String, FsInfo)) (m : FsManager),
      (l.foldl (fun m info => info.2.mountpoints.foldl (fun m mount =>
        m.updateClientAliveTime mount info.2.fsName false false now) m) m).fsStorage =
          m.fsStorage := by
    intro l
    induction l with
    | nil => intro m; rfl
    | cons info l ih => intro m; rw [List.foldl_cons, ih, hinner]
  exact houter _ m

section Holds

variable {P : String → FsInfo → Prop}

/-- A property of stored file systems that `AddMountPoint`'s change keeps is kept by
`UpdateClientAliveTime`. -/
theorem updateClientAliveTime_holds (hs : m.fsStorage.Holds P) {mountpoint : Mountpoint}
    {fsName : String} (hP : ∀ wrapper, m.fsStorage.lookup fsName = some wrapper →
      P (wrapper.addMountPoint mountpoint).fsName (wrapper.addMountPoint mountpoint))
    (addMountPoint persisted : Bool) (now : Nat) :
    (m.updateClientAliveTime mountpoint fsName addMountPoint persisted now).fsStorage.Holds P := by
  rcases updateClientAliveTime_fsStorage m mountpoint fsName addMountPoint persisted now with
    h | h <;> rw [h]
  · exact hs
  · rcases (addMountPoint_cases m mountpoint fsName persisted).2 with h' | ⟨wrapper, hfs, h'⟩ <;>
      rw [h']
    · exact hs
    · exact hs.update (hP wrapper hfs) persisted

/-- A property of stored file systems that the change `MountFs` makes to a file system it lets
a mount point in keeps is kept by `MountFs`. -/
theorem mountFs_holds (hs : m.fsStorage.Holds P) {fsName : String} {mountpoint : Mountpoint}
    (hP : ∀ wrapper, m.fsStorage.lookup fsName = some wrapper → mountpoint.cto.isSome →
      wrapper.isMountPointConflict mountpoint = false →
      P (wrapper.addMountPoint mountpoint).fsName (wrapper.addMountPoint mountpoint))
    {persisted : Bool} {now : Nat} {code : FSStatusCode}
    (h : m.mountFs fsName mountpoint persisted now = some (code, m')) : m'.fsStorage.Holds P := by
  rcases mountFs_cases h with h' | ⟨wrapper, hfs, hcto, hconflict, h'⟩ <;> rw [h']
  · exact hs
  · exact hs.update (hP wrapper hfs hcto hconflict) persisted

/-- A property of stored file systems that `DeleteMountPoint` keeps is kept by `UmountFs`. -/
theorem umountFs_holds (hs : m.fsStorage.Holds P) {fsName : String} {mountpoint : Mountpoint}
    (hP : ∀ wrapper, m.fsStorage.lookup fsName = some wrapper →
      P (wrapper.deleteMountPoint mountpoint).2.fsName (wrapper.deleteMountPoint mountpoint).2)
    {persisted : Bool} {code : FSStatusCode}
    (h : m.umountFs fsName mountpoint persisted = some (code, m')) : m'.fsStorage.Holds P := by
  rcases umountFs_cases h with ⟨rfl, -⟩ | ⟨wrapper, hfs, -, -, h'⟩
  · exact hs
  · rw [h']
    exact hs.update (hP wrapper hfs) persisted

end Holds

/-- What one round of `CheckMountPoint`'s loop can do: nothing, drop a record, or an
`UmountFs` of what `Str2MountPoint` returned. -/
inductive CheckRound : FsManager → FsManager → Prop
  | keep (m : FsManager) : CheckRound m m
  | drop (m : FsManager) (mountpath : String) : CheckRound m (m.deleteClientAliveTime mountpath)
  | umount {m m' : FsManager} (mountpath fsName : String) {mountpoint : Mountpoint}
      (persisted : Bool) {code : FSStatusCode} (hparse : str2MountPoint mountpath = some mountpoint)
      (h : m.umountFs fsName mountpoint persisted = some (code, m')) : CheckRound m m'

theorem checkMountPointEntry_checkRound {now clientTimeoutSec : Nat} {persisted : String → Bool}
    {entry : String × String × Nat}
    (h : checkMountPointEntry now clientTimeoutSec persisted m entry = some m') : CheckRound m m' := by
  obtain ⟨mountpath, fsName, time⟩ := entry
  unfold checkMountPointEntry at h
  dsimp only at h
  split_ifs at h with hsilent
  · split at h
    · cases h
      exact .drop m mountpath
    · rename_i mountpoint hparse
      obtain ⟨⟨code, m''⟩, hu, rfl⟩ := Option.map_eq_some_iff.mp h
      exact .umount mountpath fsName (persisted mountpath) hparse hu
  · cases h
    exact .keep m

/-- `CheckMountPoint` is a run of rounds of its loop. -/
theorem checkMountPoint_reflTransGen {now clientTimeoutSec : Nat} {persisted : String → Bool}
    (h : m.checkMountPoint now clientTimeoutSec persisted = some m') :
    Relation.ReflTransGen CheckRound m m' :=
  foldlM_reflTransGen (f := checkMountPointEntry now clientTimeoutSec persisted)
    (fun _ _ _ _ hstep => checkMountPointEntry_checkRound hstep) h

/-- Every record is in the copy `CheckMountPoint` walks. -/
theorem mem_recorderSnapshot {mountpath : String} {record : String × Nat}
    (h : m.mpTimeRecorder.lookup mountpath = some record) :
    (mountpath, record) ∈ m.recorderSnapshot := by
  unfold recorderSnapshot
  rw [List.mem_insertionSort, List.mem_map]
  exact ⟨⟨mountpath, record⟩, AList.mem_lookup_iff.mp h, rfl⟩

/-! ## The copies of a mount point through the timeout check -/

section Copies

/-- With every file system stored under its own name, `UmountFs` changes at most the file
system it read, and that one only to the wrapper with the mount point deleted. -/
theorem umountFs_lookup (hs : m.fsStorage.Holds FsInfoInv) {fsName : String}
    {mountpoint : Mountpoint} {persisted : Bool} {code : FSStatusCode}
    (h : m.umountFs fsName mountpoint persisted = some (code, m')) (name : String) :
    m'.fsStorage.lookup name = m.fsStorage.lookup name ∨
      ∃ wrapper, name = fsName ∧ m.fsStorage.lookup fsName = some wrapper ∧
        m'.fsStorage.lookup name = some (wrapper.deleteMountPoint mountpoint).2 := by
  rcases umountFs_cases h with ⟨rfl, -⟩ | ⟨wrapper, hfs, -, -, h'⟩
  · exact .inl rfl
  · rw [h']
    rcases FsStorage.lookup_update persisted name with heq | ⟨hname, heq⟩
    · exact .inl heq
    · -- the file system written back is the one read, stored under its own name
      have hname' : name = fsName := by
        rw [hname, FsInfo.deleteMountPoint_fsName, (hs fsName wrapper hfs).name_eq]
      exact .inr ⟨wrapper, hname', hfs, heq⟩

/-- `UmountFs` keeps every copy of a mount point of another path, hostname or port, in every
file system. -/
theorem umountFs_count (hs : m.fsStorage.Holds FsInfoInv) {fsName : String}
    {mountpoint mp : Mountpoint} (hne : mountpoint.sameHostPathPort mp = false)
    {persisted : Bool} {code : FSStatusCode}
    (h : m.umountFs fsName mountpoint persisted = some (code, m')) (name : String) :
    (m'.fsStorage.lookup name).map (·.mountpoints.count mp) =
      (m.fsStorage.lookup name).map (·.mountpoints.count mp) := by
  rcases umountFs_lookup hs h name with heq | ⟨wrapper, rfl, hfs, heq⟩
  · rw [heq]
  · rw [heq, hfs, Option.map_some, Option.map_some, FsInfo.count_deleteMountPoint hne]

/-- `UmountFs` adds no mount point anywhere, and drops no file system. -/
theorem umountFs_countP_le (hs : m.fsStorage.Holds FsInfoInv) {fsName : String}
    {mountpoint : Mountpoint} {persisted : Bool} {code : FSStatusCode}
    (h : m.umountFs fsName mountpoint persisted = some (code, m')) (q : Mountpoint → Bool)
    {name : String} {fsInfo : FsInfo} (hname : m.fsStorage.lookup name = some fsInfo) :
    ∃ fsInfo', m'.fsStorage.lookup name = some fsInfo' ∧
      fsInfo'.mountpoints.countP q ≤ fsInfo.mountpoints.countP q := by
  rcases umountFs_lookup hs h name with heq | ⟨wrapper, rfl, hfs, heq⟩
  · exact ⟨fsInfo, heq.trans hname, le_refl _⟩
  · rw [hfs] at hname
    cases hname
    exact ⟨_, heq, FsInfo.countP_deleteMountPoint_le q⟩

/-- An `UmountFs` whose write succeeds, of a mount point the file system lists, erases one of
its copies. -/
theorem umountFs_countP_lt (hs : m.fsStorage.Holds FsInfoInv) {fsName : String}
    {mountpoint : Mountpoint} {code : FSStatusCode}
    (h : m.umountFs fsName mountpoint true = some (code, m')) {fsInfo : FsInfo}
    (hfs : m.fsStorage.lookup fsName = some fsInfo)
    (hany : fsInfo.mountpoints.any mountpoint.sameHostPathPort = true) :
    ∃ fsInfo', m'.fsStorage.lookup fsName = some fsInfo' ∧
      fsInfo'.mountpoints.countP mountpoint.sameHostPathPort <
        fsInfo.mountpoints.countP mountpoint.sameHostPathPort := by
  rcases umountFs_cases h with ⟨-, hnone⟩ | ⟨wrapper, hfs', -, -, h'⟩
  · rw [hnone fsInfo hfs] at hany
    cases hany
  · rw [hfs] at hfs'
    cases hfs'
    have hname : (fsInfo.deleteMountPoint mountpoint).2.fsName = fsName := by
      rw [FsInfo.deleteMountPoint_fsName, (hs fsName fsInfo hfs).name_eq]
    have hupdate : FsStorage.update m.fsStorage (fsInfo.deleteMountPoint mountpoint).2 true =
        (.OK, m.fsStorage.insert (fsInfo.deleteMountPoint mountpoint).2.fsName
          (fsInfo.deleteMountPoint mountpoint).2) :=
      FsStorage.update_of_lookup (by rw [hname]; exact hfs) FsInfo.deleteMountPoint_fsId.symm
    refine ⟨_, ?_, FsInfo.countP_deleteMountPoint_lt hany⟩
    rw [h', hupdate, hname]
    exact AList.lookup_insert _

/-- `UmountFs` drops no record but its client's. -/
theorem umountFs_lookup_none {fsName : String} {mountpoint : Mountpoint} {persisted : Bool}
    {code : FSStatusCode} (h : m.umountFs fsName mountpoint persisted = some (code, m'))
    {mountpath : String} (hnone : m.mpTimeRecorder.lookup mountpath = none) :
    m'.mpTimeRecorder.lookup mountpath = none := by
  rcases umountFs_cases h with ⟨rfl, -⟩ | ⟨wrapper, -, -, hrec, -⟩
  · exact hnone
  · rw [hrec]
    by_cases hk : mountpath = mountPoint2Str mountpoint
    · rw [hk, AList.lookup_erase]
    · rw [AList.lookup_erase_ne hk, hnone]

end Copies

end FsManager

/-! ## Invariants over runs -/

/-- With every file system stored under its own name, the one read under `name` carries it. -/
theorem FsStorage.Holds.fsInfoInv_self {fsStorage : FsStorage} (hs : fsStorage.Holds FsInfoInv)
    {name : String} {wrapper : FsInfo} (h : fsStorage.lookup name = some wrapper) :
    FsInfoInv wrapper.fsName wrapper := by
  have hinv := hs name wrapper h
  rw [hinv.name_eq]
  exact hinv

theorem FsStorage.Holds.fsInfoInv_addMountPoint {fsStorage : FsStorage}
    (hs : fsStorage.Holds FsInfoInv) {name : String} {wrapper : FsInfo}
    (h : fsStorage.lookup name = some wrapper) (mp : Mountpoint) :
    FsInfoInv (wrapper.addMountPoint mp).fsName (wrapper.addMountPoint mp) := by
  rw [FsInfo.addMountPoint_fsName]
  exact (hs.fsInfoInv_self h).addMountPoint mp

theorem FsStorage.Holds.fsInfoInv_deleteMountPoint {fsStorage : FsStorage}
    (hs : fsStorage.Holds FsInfoInv) {name : String} {wrapper : FsInfo}
    (h : fsStorage.lookup name = some wrapper) (mp : Mountpoint) :
    FsInfoInv (wrapper.deleteMountPoint mp).2.fsName (wrapper.deleteMountPoint mp).2 := by
  rw [FsInfo.deleteMountPoint_fsName]
  exact (hs.fsInfoInv_self h).deleteMountPoint mp

namespace FsManager.CheckRound

variable {m m' : FsManager}

theorem fsInfoInv (h : CheckRound m m') (hs : m.fsStorage.Holds FsInfoInv) :
    m'.fsStorage.Holds FsInfoInv := by
  cases h with
  | keep => exact hs
  | drop => exact hs
  | umount _ _ _ _ hu => exact umountFs_holds hs (fun _ hfs => hs.fsInfoInv_deleteMountPoint hfs _) hu

theorem mountsWellFormed (h : CheckRound m m')
    (hs : m.fsStorage.Holds fun _ fsInfo => MountsWellFormed fsInfo.mountpoints) :
    m'.fsStorage.Holds fun _ fsInfo => MountsWellFormed fsInfo.mountpoints := by
  cases h with
  | keep => exact hs
  | drop => exact hs
  | umount _ _ _ _ hu =>
    exact umountFs_holds hs (fun _ hfs => (hs _ _ hfs).deleteMountPoint _) hu

/-- A round keeps every copy of a mount point with an empty hostname or path, or one that
holds a `:`. -/
theorem count_eq (h : CheckRound m m') (hs : m.fsStorage.Holds FsInfoInv) {mp : Mountpoint}
    (hmp : ¬ mp.TextOk) (name : String) :
    (m'.fsStorage.lookup name).map (·.mountpoints.count mp) =
      (m.fsStorage.lookup name).map (·.mountpoints.count mp) := by
  cases h with
  | keep => rfl
  | drop => rfl
  | umount mountpath _ _ hparse hu =>
    -- what `Str2MountPoint` returned has another path or hostname than `mp`
    have hne := sameHostPath_eq_false_of_not_textOk hmp hparse
    exact umountFs_count hs (Bool.eq_false_iff.mpr fun h =>
      Bool.eq_false_iff.mp hne (Mountpoint.sameHostPath_of_sameHostPathPort h)) hu name

theorem countP_le (h : CheckRound m m') (hs : m.fsStorage.Holds FsInfoInv)
    (q : Mountpoint → Bool) {name : String} {fsInfo : FsInfo}
    (hname : m.fsStorage.lookup name = some fsInfo) :
    ∃ fsInfo', m'.fsStorage.lookup name = some fsInfo' ∧
      fsInfo'.mountpoints.countP q ≤ fsInfo.mountpoints.countP q := by
  cases h with
  | keep => exact ⟨fsInfo, hname, le_refl _⟩
  | drop => exact ⟨fsInfo, hname, le_refl _⟩
  | umount _ _ _ _ hu => exact umountFs_countP_le hs hu q hname

theorem lookup_none (h : CheckRound m m') {mountpath : String}
    (hnone : m.mpTimeRecorder.lookup mountpath = none) :
    m'.mpTimeRecorder.lookup mountpath = none := by
  cases h with
  | keep => exact hnone
  | drop k =>
    rw [deleteClientAliveTime_mpTimeRecorder]
    by_cases hk : mountpath = k
    · rw [hk, AList.lookup_erase]
    · rw [AList.lookup_erase_ne hk, hnone]
  | umount _ _ _ _ hu => exact umountFs_lookup_none hu hnone

/-! The same facts over a run of rounds: what `CheckMountPoint` does in one call, and what it
does over many. -/

theorem run_fsInfoInv (h : Relation.ReflTransGen CheckRound m m')
    (hs : m.fsStorage.Holds FsInfoInv) : m'.fsStorage.Holds FsInfoInv := by
  induction h with
  | refl => exact hs
  | tail _ hstep ih => exact hstep.fsInfoInv ih

theorem run_mountsWellFormed (h : Relation.ReflTransGen CheckRound m m')
    (hs : m.fsStorage.Holds fun _ fsInfo => MountsWellFormed fsInfo.mountpoints) :
    m'.fsStorage.Holds fun _ fsInfo => MountsWellFormed fsInfo.mountpoints := by
  induction h with
  | refl => exact hs
  | tail _ hstep ih => exact hstep.mountsWellFormed ih

theorem run_count_eq (h : Relation.ReflTransGen CheckRound m m')
    (hs : m.fsStorage.Holds FsInfoInv) {mp : Mountpoint} (hmp : ¬ mp.TextOk) (name : String) :
    (m'.fsStorage.lookup name).map (·.mountpoints.count mp) =
      (m.fsStorage.lookup name).map (·.mountpoints.count mp) := by
  induction h with
  | refl => rfl
  | tail hrun hstep ih => rw [hstep.count_eq (run_fsInfoInv hrun hs) hmp name, ih]

theorem run_countP_le (h : Relation.ReflTransGen CheckRound m m')
    (hs : m.fsStorage.Holds FsInfoInv) (q : Mountpoint → Bool) {name : String} {fsInfo : FsInfo}
    (hname : m.fsStorage.lookup name = some fsInfo) :
    ∃ fsInfo', m'.fsStorage.lookup name = some fsInfo' ∧
      fsInfo'.mountpoints.countP q ≤ fsInfo.mountpoints.countP q := by
  induction h with
  | refl => exact ⟨fsInfo, hname, le_refl _⟩
  | tail hrun hstep ih =>
    obtain ⟨fsInfo₁, hname₁, hle₁⟩ := ih
    obtain ⟨fsInfo₂, hname₂, hle₂⟩ := hstep.countP_le (run_fsInfoInv hrun hs) q hname₁
    exact ⟨fsInfo₂, hname₂, hle₂.trans hle₁⟩

theorem run_lookup_none (h : Relation.ReflTransGen CheckRound m m') {mountpath : String}
    (hnone : m.mpTimeRecorder.lookup mountpath = none) :
    m'.mpTimeRecorder.lookup mountpath = none := by
  induction h with
  | refl => exact hnone
  | tail _ hstep ih => exact hstep.lookup_none ih

end FsManager.CheckRound

namespace MountStep

variable {m m' : FsManager}

theorem fsInfoInv (h : MountStep m m') (hs : m.fsStorage.Holds FsInfoInv) :
    m'.fsStorage.Holds FsInfoInv := by
  cases h with
  | mountFs _ _ _ _ h =>
    exact FsManager.mountFs_holds hs (fun _ hfs _ _ => hs.fsInfoInv_addMountPoint hfs _) h
  | umountFs _ _ _ h =>
    exact FsManager.umountFs_holds hs (fun _ hfs => hs.fsInfoInv_deleteMountPoint hfs _) h
  | checkMountPoint _ _ _ h =>
    exact FsManager.CheckRound.run_fsInfoInv (FsManager.checkMountPoint_reflTransGen h) hs
  | rebuildTimeRecorder now =>
    rw [FsManager.rebuildTimeRecorder_fsStorage]
    exact hs

theorem mountsWellFormed (h : MountStep m m')
    (hs : m.fsStorage.Holds fun _ fsInfo => MountsWellFormed fsInfo.mountpoints) :
    m'.fsStorage.Holds fun _ fsInfo => MountsWellFormed fsInfo.mountpoints := by
  cases h with
  | mountFs _ _ _ _ h =>
    exact FsManager.mountFs_holds hs
      (fun _ hfs hcto hconflict => (hs _ _ hfs).addMountPoint hcto hconflict) h
  | umountFs _ _ _ h =>
    exact FsManager.umountFs_holds hs (fun _ hfs => (hs _ _ hfs).deleteMountPoint _) h
  | checkMountPoint _ _ _ h =>
    exact FsManager.CheckRound.run_mountsWellFormed (FsManager.checkMountPoint_reflTransGen h) hs
  | rebuildTimeRecorder now =>
    rw [FsManager.rebuildTimeRecorder_fsStorage]
    exact hs

end MountStep

theorem FsStep.fsInfoInv {m m' : FsManager} (h : FsStep m m') (hs : m.fsStorage.Holds FsInfoInv) :
    m'.fsStorage.Holds FsInfoInv := by
  cases h with
  | mount h => exact h.fsInfoInv hs
  | refreshSession fsName mountpoint persisted now =>
    exact FsManager.updateClientAliveTime_holds hs
      (fun _ hfs => hs.fsInfoInv_addMountPoint hfs _) true persisted now

/-- A client's mount point, and one whose path holds `:`. -/
def sampleMount : Mountpoint := ⟨"host", 9000, "/mnt", some true⟩

def sampleColonMount : Mountpoint := ⟨"host", 9001, "/mnt:a", some true⟩

def sampleFsInfo : FsInfo :=
  ⟨"fs1", 1, .INITED, .TYPE_S3, [sampleMount, sampleColonMount], 2, false⟩

/-- A manager with one file system, mounted by both clients, each recorded at time 10. -/
def sampleFsManager : FsManager :=
  ⟨(∅ : FsStorage).insert "fs1" sampleFsInfo,
    ((∅ : AList fun _ : String => String × Nat).insert (mountPoint2Str sampleMount)
      ("fs1", 10)).insert (mountPoint2Str sampleColonMount) ("fs1", 10)⟩

theorem sampleFsManager_holds {P : String → FsInfo → Prop} (h : P "fs1" sampleFsInfo) :
    sampleFsManager.fsStorage.Holds P := by
  intro name fsInfo hfs
  by_cases hname : name = "fs1"
  · rw [hname] at hfs ⊢
    have hlookup : sampleFsManager.fsStorage.lookup "fs1" = some sampleFsInfo :=
      AList.lookup_insert _
    rw [hlookup] at hfs
    cases hfs
    exact h
  · have hlookup : sampleFsManager.fsStorage.lookup name = none := by
      rw [show sampleFsManager.fsStorage = (∅ : FsStorage).insert "fs1" sampleFsInfo from rfl,
        AList.lookup_insert_ne hname]
      rfl
    rw [hlookup] at hfs
    cases hfs

theorem sampleFsManager_fsInfoInv : sampleFsManager.fsStorage.Holds FsInfoInv :=
  sampleFsManager_holds ⟨rfl, rfl, by decide⟩

/-- Over every run of the mount calls, each stored file system stays stored under its own name,
`mountnum` keeps counting its mount points, and `enablesumindir` stays off while it has more
than one. -/
theorem mount_runs_keep_fsInfoInv {m m' : FsManager} (h : Relation.ReflTransGen FsStep m m')
    (hs : m.fsStorage.Holds FsInfoInv) : m'.fsStorage.Holds FsInfoInv := by
  induction h with
  | refl => exact hs
  | tail _ hstep ih => exact hstep.fsInfoInv ih

theorem mount_runs_keep_fsInfoInv_sample :
    Relation.ReflTransGen FsStep sampleFsManager
        (sampleFsManager.refreshSession "fs1" ⟨"new", 7, "/n", none⟩ true 50).1 ∧
      sampleFsManager.fsStorage.Holds FsInfoInv ∧
      (sampleFsManager.refreshSession "fs1" ⟨"new", 7, "/n", none⟩ true 50).1.fsStorage.Holds
        FsInfoInv := by
  have hrun : Relation.ReflTransGen FsStep sampleFsManager
      (sampleFsManager.refreshSession "fs1" ⟨"new", 7, "/n", none⟩ true 50).1 :=
    .single (.refreshSession _ _ _ _ _)
  exact ⟨hrun, sampleFsManager_fsInfoInv,
    mount_runs_keep_fsInfoInv hrun sampleFsManager_fsInfoInv⟩

/-- Over every run of `MountFs`, `UmountFs`, `CheckMountPoint` and `RebuildTimeRecorder`, no
file system comes to hold two mount points of one path and hostname, or two `cto`s. -/
theorem mount_runs_keep_mountsWellFormed {m m' : FsManager}
    (h : Relation.ReflTransGen MountStep m m')
    (hs : m.fsStorage.Holds fun _ fsInfo => MountsWellFormed fsInfo.mountpoints) :
    m'.fsStorage.Holds fun _ fsInfo => MountsWellFormed fsInfo.mountpoints := by
  induction h with
  | refl => exact hs
  | tail _ hstep ih => exact hstep.mountsWellFormed ih

theorem mount_runs_keep_mountsWellFormed_sample :
    ∃ m', Relation.ReflTransGen MountStep sampleFsManager m' ∧
      (m'.fsStorage.lookup "fs1").map (·.mountpoints.length) = some 3 ∧
      sampleFsManager.fsStorage.Holds (fun _ fsInfo => MountsWellFormed fsInfo.mountpoints) ∧
      m'.fsStorage.Holds fun _ fsInfo => MountsWellFormed fsInfo.mountpoints := by
  have hrun : Relation.ReflTransGen MountStep sampleFsManager _ :=
    .single (.mountFs "fs1" ⟨"other", 1, "/x", some true⟩ true 50 rfl)
  have hs : sampleFsManager.fsStorage.Holds fun _ fsInfo => MountsWellFormed fsInfo.mountpoints :=
    sampleFsManager_holds ⟨by decide, true, by decide⟩
  exact ⟨_, hrun, rfl, hs, mount_runs_keep_mountsWellFormed hrun hs⟩

/-! ## The client timeout -/

namespace FsManager

variable {m m' : FsManager}

/-- The round of a record older than the timeout whose text does not parse drops it. -/
theorem checkMountPointEntry_of_silent_of_none {now clientTimeoutSec time : Nat}
    (hsilent : clientTimeoutSec < sub64 now time) (persisted : String → Bool) (m : FsManager)
    {mountpath : String} (hparse : str2MountPoint mountpath = none) (fsName : String) :
    checkMountPointEntry now clientTimeoutSec persisted m (mountpath, fsName, time) =
      some (m.deleteClientAliveTime mountpath) := by
  simp only [checkMountPointEntry, gt_iff_lt, hsilent, if_true, hparse]

/-- The round of a record older than the timeout whose text parses is an unmount. -/
theorem checkMountPointEntry_of_silent_of_some {now clientTimeoutSec time : Nat}
    (hsilent : clientTimeoutSec < sub64 now time) (persisted : String → Bool) (m : FsManager)
    {mountpath : String} {mountpoint : Mountpoint}
    (hparse : str2MountPoint mountpath = some mountpoint) (fsName : String) :
    checkMountPointEntry now clientTimeoutSec persisted m (mountpath, fsName, time) =
      (m.umountFs fsName mountpoint (persisted mountpath)).map Prod.snd := by
  simp only [checkMountPointEntry, gt_iff_lt, hsilent, if_true, hparse]

/-- A `CheckMountPoint` that ends passes through the round of every record, between two runs
of rounds. -/
theorem checkMountPoint_round_of_record {mountpath : String} {record : String × Nat}
    (hrec : m.mpTimeRecorder.lookup mountpath = some record) {now clientTimeoutSec : Nat}
    {persisted : String → Bool} (h : m.checkMountPoint now clientTimeoutSec persisted = some m') :
    ∃ m₁ m₂, Relation.ReflTransGen CheckRound m m₁ ∧
      checkMountPointEntry now clientTimeoutSec persisted m₁ (mountpath, record) = some m₂ ∧
      Relation.ReflTransGen CheckRound m₂ m' :=
  foldlM_of_mem (f := checkMountPointEntry now clientTimeoutSec persisted)
    (fun _ _ _ _ hstep => checkMountPointEntry_checkRound hstep) (mem_recorderSnapshot hrec) h

/-- One `CheckMountPoint` call, at any time and with any timeout. -/
def CheckStep (m m' : FsManager) : Prop :=
  ∃ now clientTimeoutSec persisted, m.checkMountPoint now clientTimeoutSec persisted = some m'

theorem checkSteps_reflTransGen (h : Relation.ReflTransGen CheckStep m m') :
    Relation.ReflTransGen CheckRound m m' := by
  induction h with
  | refl => exact .refl
  | tail _ hstep ih =>
    obtain ⟨_, _, _, hcheck⟩ := hstep
    exact ih.trans (checkMountPoint_reflTransGen hcheck)

/-- However often `CheckMountPoint` runs and whatever the clock says, it never unmounts a
client whose mount point has an empty hostname or path or one that holds a `:`: every file
system keeps every copy of it. That covers a text that does not parse back, and one that
parses to another mount point (a path `:/mnt` reads back as `/mnt`), whose record unmounts
that other mount point and never this one. -/
theorem checkMountPoint_never_unmounts_unparsed (h : Relation.ReflTransGen CheckStep m m')
    (hs : m.fsStorage.Holds FsInfoInv) {mp : Mountpoint} (hmp : ¬ mp.TextOk)
    (fsName : String) :
    (m'.fsStorage.lookup fsName).map (·.mountpoints.count mp) =
      (m.fsStorage.lookup fsName).map (·.mountpoints.count mp) :=
  CheckRound.run_count_eq (checkSteps_reflTransGen h) hs hmp fsName

theorem checkMountPoint_never_unmounts_unparsed_sample :
    ¬ sampleColonMount.TextOk ∧
      ∃ m', Relation.ReflTransGen CheckStep sampleFsManager m' ∧
        (m'.fsStorage.lookup "fs1").map (·.mountpoints.count sampleColonMount) = some 1 := by
  have hmp : ¬ sampleColonMount.TextOk := fun hok => hok.path_colon (by decide)
  have hrun : Relation.ReflTransGen CheckStep sampleFsManager _ :=
    .single ⟨100, 30, fun _ => true, rfl⟩
  exact ⟨hmp, _, hrun,
    checkMountPoint_never_unmounts_unparsed hrun sampleFsManager_fsInfoInv
      hmp "fs1"⟩

/-- A `CheckMountPoint` that reaches the record of a silent client unmounts one of its mount
points from the file system the record names, when the write succeeds and the text parses
back. -/
theorem checkMountPoint_unmounts_silent_client (hs : m.fsStorage.Holds FsInfoInv)
    {mp : Mountpoint} (hmp : mp.TextOk) {fsName : String} {time now clientTimeoutSec : Nat}
    (hrec : m.mpTimeRecorder.lookup (mountPoint2Str mp) = some (fsName, time))
    (hsilent : clientTimeoutSec < sub64 now time) {persisted : String → Bool}
    (hstored : persisted (mountPoint2Str mp) = true) {fsInfo : FsInfo}
    (hfs : m.fsStorage.lookup fsName = some fsInfo) (hin : mp ∈ fsInfo.mountpoints)
    (h : m.checkMountPoint now clientTimeoutSec persisted = some m') :
    ∃ fsInfo', m'.fsStorage.lookup fsName = some fsInfo' ∧
      fsInfo'.mountpoints.countP mp.sameHostPathPort <
        fsInfo.mountpoints.countP mp.sameHostPathPort := by
  -- cut the loop at the round of `mp`'s record
  obtain ⟨m₁, m₂, hbefore, hround, hafter⟩ := checkMountPoint_round_of_record hrec h
  have hs₁ := CheckRound.run_fsInfoInv hbefore hs
  obtain ⟨fsInfo₁, hfs₁, hle₁⟩ := CheckRound.run_countP_le hbefore hs mp.sameHostPathPort hfs
  -- that round is an `UmountFs` of the mount point the text parses back to
  rw [checkMountPointEntry_of_silent_of_some hsilent persisted m₁
    (str2MountPoint_mountPoint2Str hmp), hstored] at hround
  obtain ⟨⟨code, m₂'⟩, hu, hm₂⟩ := Option.map_eq_some_iff.mp hround
  dsimp only at hm₂
  rw [hm₂] at hu
  have hpos : 0 < fsInfo.mountpoints.countP mp.sameHostPathPort :=
    List.countP_pos_iff.mpr ⟨mp, hin, mp.sameHostPathPort_self⟩
  obtain ⟨fsInfo₂, hfs₂, hlt₂⟩ : ∃ fsInfo₂, m₂.fsStorage.lookup fsName = some fsInfo₂ ∧
      fsInfo₂.mountpoints.countP mp.sameHostPathPort <
        fsInfo.mountpoints.countP mp.sameHostPathPort := by
    rcases Nat.lt_or_ge (fsInfo₁.mountpoints.countP mp.sameHostPathPort)
        (fsInfo.mountpoints.countP mp.sameHostPathPort) with hlt | hge
    · -- an earlier round already erased a copy
      obtain ⟨fsInfo₂, hfs₂, hle₂⟩ := umountFs_countP_le hs₁ hu mp.sameHostPathPort hfs₁
      exact ⟨fsInfo₂, hfs₂, lt_of_le_of_lt hle₂ hlt⟩
    · -- the file system still lists a copy, and this round erases it
      have hany : fsInfo₁.mountpoints.any mp.sameHostPathPort = true :=
        List.any_eq_true.mpr (List.countP_pos_iff.mp (by omega))
      obtain ⟨fsInfo₂, hfs₂, hlt₂⟩ := umountFs_countP_lt hs₁ hu hfs₁ hany
      rw [Mountpoint.sameHostPathPort_cto] at hlt₂
      exact ⟨fsInfo₂, hfs₂, by omega⟩
  obtain ⟨fsInfo', hfs', hle'⟩ :=
    CheckRound.run_countP_le hafter
      (CheckRound.fsInfoInv (.umount _ fsName true (str2MountPoint_mountPoint2Str hmp) hu) hs₁)
      mp.sameHostPathPort hfs₂
  exact ⟨fsInfo', hfs', lt_of_le_of_lt hle' hlt₂⟩

theorem checkMountPoint_unmounts_silent_client_sample :
    sampleMount.TextOk ∧ 30 < sub64 100 10 ∧
      ∃ m', sampleFsManager.checkMountPoint 100 30 (fun _ => true) = some m' ∧
        ∃ fsInfo', m'.fsStorage.lookup "fs1" = some fsInfo' ∧
          fsInfo'.mountpoints.countP sampleMount.sameHostPathPort <
            sampleFsInfo.mountpoints.countP sampleMount.sameHostPathPort := by
  have hok : sampleMount.TextOk := ⟨by decide, by decide, by decide, by decide⟩
  have hsilent : 30 < sub64 100 10 := by decide
  obtain ⟨m', hcheck⟩ : ∃ m', sampleFsManager.checkMountPoint 100 30 (fun _ => true) = some m' :=
    ⟨_, rfl⟩
  exact ⟨hok, hsilent, m', hcheck,
    checkMountPoint_unmounts_silent_client sampleFsManager_fsInfoInv hok rfl
      hsilent rfl rfl (by decide) hcheck⟩

/-- A `CheckMountPoint` that reaches the record of a silent client whose text does not parse
drops the record. -/
theorem checkMountPoint_drops_unparsed_record {mp : Mountpoint}
    (hmp : str2MountPoint (mountPoint2Str mp) = none) {recorded : String}
    {time now clientTimeoutSec : Nat}
    (hrec : m.mpTimeRecorder.lookup (mountPoint2Str mp) = some (recorded, time))
    (hsilent : clientTimeoutSec < sub64 now time) {persisted : String → Bool}
    (h : m.checkMountPoint now clientTimeoutSec persisted = some m') :
    m'.mpTimeRecorder.lookup (mountPoint2Str mp) = none := by
  obtain ⟨m₁, m₂, -, hround, hafter⟩ := checkMountPoint_round_of_record hrec h
  rw [checkMountPointEntry_of_silent_of_none hsilent persisted m₁ hmp] at hround
  cases hround
  apply CheckRound.run_lookup_none hafter
  rw [deleteClientAliveTime_mpTimeRecorder, AList.lookup_erase]

/-- After a `CheckMountPoint` that found a client silent whose text does not parse back, the
client's next `RefreshSession` adds its mount point to the file system once more: the check
kept every copy but dropped the record, and the refresh takes the missing record for a client
that was unmounted. A mounted client is then listed twice. -/
theorem refreshSession_after_timeout_adds_mountpoint_again (hs : m.fsStorage.Holds FsInfoInv)
    {mp : Mountpoint} (hmp : str2MountPoint (mountPoint2Str mp) = none) {recorded : String}
    {time now clientTimeoutSec : Nat}
    (hrec : m.mpTimeRecorder.lookup (mountPoint2Str mp) = some (recorded, time))
    (hsilent : clientTimeoutSec < sub64 now time) {persisted : String → Bool}
    (h : m.checkMountPoint now clientTimeoutSec persisted = some m') {fsName : String}
    {fsInfo : FsInfo} (hfs : m.fsStorage.lookup fsName = some fsInfo) (now' : Nat) :
    ∃ fsInfo', (m'.refreshSession fsName mp true now').1.fsStorage.lookup fsName = some fsInfo' ∧
      fsInfo'.mountpoints.count mp = fsInfo.mountpoints.count mp + 1 ∧
      (mp ∈ fsInfo.mountpoints → ¬ MountsWellFormed fsInfo'.mountpoints) := by
  have hrun := checkMountPoint_reflTransGen h
  have hs' := CheckRound.run_fsInfoInv hrun hs
  have hgone := checkMountPoint_drops_unparsed_record hmp hrec hsilent h
  -- the check left every copy of `mp` in the file system
  obtain ⟨fsInfo₁, hfs₁, hcount₁⟩ : ∃ fsInfo₁, m'.fsStorage.lookup fsName = some fsInfo₁ ∧
      fsInfo₁.mountpoints.count mp = fsInfo.mountpoints.count mp := by
    have hcount :=
      CheckRound.run_count_eq hrun hs (not_textOk_of_str2MountPoint_eq_none hmp) fsName
    rw [hfs, Option.map_some] at hcount
    cases hfs₁ : m'.fsStorage.lookup fsName with
    | none => rw [hfs₁] at hcount; cases hcount
    | some fsInfo₁ => rw [hfs₁, Option.map_some] at hcount; exact ⟨fsInfo₁, rfl, Option.some.inj hcount⟩
  -- the refresh finds no record, and its `AddMountPoint` writes the file system back
  have hname : (fsInfo₁.addMountPoint mp).fsName = fsName := by
    rw [FsInfo.addMountPoint_fsName, (hs' fsName fsInfo₁ hfs₁).name_eq]
  have hupdate : FsStorage.update m'.fsStorage (fsInfo₁.addMountPoint mp) true =
      (.OK, m'.fsStorage.insert (fsInfo₁.addMountPoint mp).fsName (fsInfo₁.addMountPoint mp)) :=
    FsStorage.update_of_lookup (by rw [hname]; exact hfs₁) FsInfo.addMountPoint_fsId.symm
  refine ⟨fsInfo₁.addMountPoint mp, ?_, ?_, ?_⟩
  · rw [refreshSession, updateClientAliveTime_fsStorage_of_lookup_none hgone,
      addMountPoint_of_lookup hfs₁, hupdate, hname]
    exact AList.lookup_insert _
  · rw [FsInfo.addMountPoint_mountpoints, List.count_append, List.count_singleton_self, hcount₁]
  · -- the copy already there and the one added share their path and hostname
    intro hin hwf
    have hin₁ : mp ∈ fsInfo₁.mountpoints := List.count_pos_iff.mp (by
      rw [hcount₁]; exact List.count_pos_iff.mpr hin)
    rw [FsInfo.addMountPoint_mountpoints] at hwf
    have hapart := (List.pairwise_append.mp hwf.apart).2.2 mp hin₁ mp (List.mem_singleton_self mp)
    rw [Mountpoint.sameHostPath_self] at hapart
    cases hapart

theorem refreshSession_after_timeout_adds_mountpoint_again_sample :
    ∃ m', sampleFsManager.checkMountPoint 100 30 (fun _ => true) = some m' ∧
      ∃ fsInfo', (m'.refreshSession "fs1" sampleColonMount true 120).1.fsStorage.lookup "fs1" =
          some fsInfo' ∧
        fsInfo'.mountpoints.count sampleColonMount = sampleFsInfo.mountpoints.count sampleColonMount + 1 ∧
        ¬ MountsWellFormed fsInfo'.mountpoints := by
  obtain ⟨m', hcheck⟩ : ∃ m', sampleFsManager.checkMountPoint 100 30 (fun _ => true) = some m' :=
    ⟨_, rfl⟩
  have hmp : str2MountPoint (mountPoint2Str sampleColonMount) = none := by decide
  have hrec : sampleFsManager.mpTimeRecorder.lookup (mountPoint2Str sampleColonMount) =
      some ("fs1", 10) := rfl
  have hsilent : 30 < sub64 100 10 := by decide
  have hfs : sampleFsManager.fsStorage.lookup "fs1" = some sampleFsInfo := AList.lookup_insert _
  obtain ⟨fsInfo', hfs', hcount, hwf⟩ :=
    refreshSession_after_timeout_adds_mountpoint_again
      sampleFsManager_fsInfoInv hmp hrec hsilent hcheck hfs 120
  exact ⟨m', hcheck, fsInfo', hfs', hcount, hwf (by decide)⟩

/-- Both clients time out: the one of `sampleMount` is unmounted, and the one of
`sampleColonMount` is listed twice after its next heartbeat. -/
example : (sampleFsManager.checkMountPoint 100 30 (fun _ => true)).map (fun m =>
      ((m.refreshSession "fs1" sampleColonMount true 120).1.fsStorage.lookup "fs1").map
        (·.mountpoints)) =
    some (some [sampleColonMount, sampleColonMount]) := by
  decide

end FsManager

end DingoFs.Mds
