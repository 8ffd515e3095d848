import Ease.VirtioBlk
import Mathlib.Order.Bounds.Basic
import Mathlib.Order.Interval.Set.Basic
import Mathlib.Order.CompletePartialOrder
import Mathlib.Data.Set.Lattice

/-! The FAT16 file system: the parameter block of a volume, and the areas that the
geometry methods lay out from it. -/

namespace Ease

inductive FsError where
  | deviceError
  | notFat16
  deriving DecidableEq, Repr

def dirEntryBytes : Nat := 32

structure Bpb where
  sectorSize : Nat
  sectorsPerCluster : Nat
  reservedSectors : Nat
  fatCount : Nat
  rootEntryCount : Nat
  totalSectors16 : Nat
  sectorsPerFat : Nat
  deriving DecidableEq, Repr

namespace Bpb

def byteAt (sector : Block) (offset : Fin 512) : UInt8 :=
  sector.val.get (offset.cast sector.prop.symm)

def u16At (sector : Block) (offset : Fin 512) : Nat :=
  decodeLE [byteAt sector offset, byteAt sector (offset + 1)]

def identifier : List UInt8 := [0x46, 0x41, 0x54, 0x31, 0x36, 0x20, 0x20, 0x20]

def parse (sector : Block) : Except FsError Bpb :=
  if (byteAt sector 0 != 0xEB && byteAt sector 0 != 0xE9) ||
      (sector.val.drop 54).take 8 != identifier then
    .error .notFat16
  else if u16At sector 11 != blockSize then .error .deviceError
  else .ok {
    sectorSize := blockSize
    sectorsPerCluster := (byteAt sector 13).toNat
    reservedSectors := u16At sector 14
    fatCount := (byteAt sector 16).toNat
    rootEntryCount := u16At sector 17
    totalSectors16 := u16At sector 19
    sectorsPerFat := u16At sector 22 }

def fatStartSector (bpb : Bpb) : Nat := bpb.reservedSectors

def rootDirStartSector (bpb : Bpb) : Exec Nat := do
  let fats ← usizeMul bpb.fatCount bpb.sectorsPerFat
  usizeAdd bpb.reservedSectors fats

def rootDirSectors (bpb : Bpb) : Exec Nat := do
  let bytes ← usizeMul bpb.rootEntryCount dirEntryBytes
  divCeil bytes bpb.sectorSize

def dataStartSector (bpb : Bpb) : Exec Nat := do
  let start ← bpb.rootDirStartSector
  let sectors ← bpb.rootDirSectors
  usizeAdd start sectors

def clusterToSector (bpb : Bpb) (cluster : Nat) : Exec Nat := do
  let start ← bpb.dataStartSector
  let skipped ← subChecked cluster 2
  let sectors ← usizeMul skipped bpb.sectorsPerCluster
  usizeAdd start sectors

end Bpb

/-- The areas of a volume, one after the other from sector 0, by their sizes in
sectors. The data area is open at its end and is cut into clusters, the first of
which has number 2. -/
structure Volume where
  reserved : Nat
  fats : Nat
  rootDir : Nat
  clusterSize : Nat

namespace Volume

def fatStart (volume : Volume) : Nat := volume.reserved

def rootDirStart (volume : Volume) : Nat := volume.fatStart + volume.fats

def dataStart (volume : Volume) : Nat := volume.rootDirStart + volume.rootDir

def clusterStart (volume : Volume) (cluster : Nat) : Nat :=
  volume.dataStart + (cluster - 2) * volume.clusterSize

def reservedArea (volume : Volume) : Set Nat := Set.Ico 0 volume.fatStart

def fatArea (volume : Volume) : Set Nat := Set.Ico volume.fatStart volume.rootDirStart

def rootDirArea (volume : Volume) : Set Nat := Set.Ico volume.rootDirStart volume.dataStart

def dataArea (volume : Volume) : Set Nat := Set.Ici volume.dataStart

def cluster (volume : Volume) (number : Nat) : Set Nat :=
  Set.Ico (volume.clusterStart number) (volume.clusterStart number + volume.clusterSize)

variable (volume : Volume)

theorem cluster_subset_dataArea (number : Nat) : volume.cluster number ⊆ volume.dataArea := by
  intro sector inside
  exact le_trans (Nat.le_add_right _ _) inside.1

theorem clusterStart_succ {number : Nat} (data : 2 ≤ number) :
    volume.clusterStart (number + 1) = volume.clusterStart number + volume.clusterSize := by
  have next : number + 1 - 2 = number - 2 + 1 := by omega
  calc volume.clusterStart (number + 1)
      = volume.dataStart + ((number - 2) * volume.clusterSize + volume.clusterSize) := by
        rw [clusterStart, next, Nat.succ_mul]
    _ = volume.clusterStart number + volume.clusterSize := (Nat.add_assoc ..).symm

theorem clusters_disjoint {first second : Nat} (firstData : 2 ≤ first) (secondData : 2 ≤ second)
    (distinct : first ≠ second) : Disjoint (volume.cluster first) (volume.cluster second) := by
  rw [Set.disjoint_left]
  intro sector inFirst inSecond
  have apart := @Memory.blocks_apart volume.clusterSize (first - 2) (second - 2) (by omega)
  simp only [cluster, clusterStart, Set.mem_Ico] at inFirst inSecond
  omega

end Volume

namespace Bpb

theorem byteAt_lt (sector : Block) (offset : Fin 512) : (byteAt sector offset).toNat < 256 :=
  UInt8.toNat_lt _

theorem u16At_eq (sector : Block) (offset : Fin 512) :
    u16At sector offset =
      (byteAt sector offset).toNat + 256 * (byteAt sector (offset + 1)).toNat := rfl

theorem u16At_lt (sector : Block) (offset : Fin 512) : u16At sector offset < 65536 := by
  have low := byteAt_lt sector offset
  have high := byteAt_lt sector (offset + 1)
  rw [u16At_eq]
  omega

/-- What the fields of a block that was parsed cannot exceed. -/
structure Bounded (bpb : Bpb) : Prop where
  sector : bpb.sectorSize = 512
  cluster : bpb.sectorsPerCluster < 256
  reserved : bpb.reservedSectors < 65536
  fats : bpb.fatCount < 256
  entries : bpb.rootEntryCount < 65536
  fat : bpb.sectorsPerFat < 65536

theorem parse_fields {sector : Block} {bpb : Bpb} (accepted : parse sector = .ok bpb) :
    bpb = {
      sectorSize := blockSize
      sectorsPerCluster := (byteAt sector 13).toNat
      reservedSectors := u16At sector 14
      fatCount := (byteAt sector 16).toNat
      rootEntryCount := u16At sector 17
      totalSectors16 := u16At sector 19
      sectorsPerFat := u16At sector 22 } := by
  rw [parse] at accepted
  split at accepted
  · cases accepted
  · split at accepted
    · cases accepted
    · exact (Except.ok.inj accepted).symm

theorem parse_bounded {sector : Block} {bpb : Bpb} (accepted : parse sector = .ok bpb) :
    bpb.Bounded := by
  rw [parse_fields accepted]
  exact ⟨rfl, byteAt_lt sector 13, u16At_lt sector 14, byteAt_lt sector 16, u16At_lt sector 17,
    u16At_lt sector 22⟩

section Geometry

variable {bpb : Bpb}

theorem Bounded.rootDirSectors_ok (bounded : bpb.Bounded) :
    ∃ sectors, bpb.rootDirSectors = .ok sectors ∧ sectors ≤ 4096 ∧
      IsLeast {n | bpb.rootEntryCount * 32 ≤ n * 512} sectors := by
  have entries := bounded.entries
  have size : dirEntryBytes = 32 := rfl
  obtain ⟨sectors, rounded, enough, least⟩ :=
    divCeil_ok (bpb.rootEntryCount * 32) (by decide : 0 < 512)
  have whole : bpb.rootEntryCount * 32 ≤ 4096 * 512 :=
    Nat.mul_le_mul_right 32 (Nat.le_of_lt entries)
  refine ⟨sectors, ?_, least 4096 whole, enough, fun other holds => least other holds⟩
  rw [rootDirSectors, size, usizeMul_ok (by omega), Exec.ok_bind, bounded.sector, rounded]

theorem Bounded.fats_le (bounded : bpb.Bounded) :
    bpb.fatCount * bpb.sectorsPerFat ≤ 255 * 65535 :=
  Nat.mul_le_mul (Nat.le_of_lt_succ bounded.fats) (Nat.le_of_lt_succ bounded.fat)

theorem Bounded.rootDirStartSector_ok (bounded : bpb.Bounded) :
    bpb.rootDirStartSector = .ok (bpb.reservedSectors + bpb.fatCount * bpb.sectorsPerFat) := by
  have fats := bounded.fats_le
  have reserved := bounded.reserved
  rw [rootDirStartSector, usizeMul_ok (by omega), Exec.ok_bind, usizeAdd_ok (by omega)]

theorem Bounded.volume (bounded : bpb.Bounded) :
    ∃ volume : Volume, volume.reserved = bpb.reservedSectors ∧
      volume.fats = bpb.fatCount * bpb.sectorsPerFat ∧
      IsLeast {n | bpb.rootEntryCount * 32 ≤ n * 512} volume.rootDir ∧
      volume.clusterSize = bpb.sectorsPerCluster ∧
      bpb.fatStartSector = volume.fatStart ∧
      bpb.rootDirStartSector = .ok volume.rootDirStart ∧
      bpb.rootDirSectors = .ok volume.rootDir ∧
      bpb.dataStartSector = .ok volume.dataStart ∧
      ∀ cluster, 2 ≤ cluster → cluster ≤ 0xFFFF →
        bpb.clusterToSector cluster = .ok (volume.clusterStart cluster) := by
  rcases bounded.rootDirSectors_ok with ⟨sectors, rounded, small, least⟩
  have fats := bounded.fats_le
  have reserved := bounded.reserved
  have dataStart : bpb.dataStartSector =
      .ok (bpb.reservedSectors + bpb.fatCount * bpb.sectorsPerFat + sectors) := by
    rw [dataStartSector, bounded.rootDirStartSector_ok, Exec.ok_bind, rounded, Exec.ok_bind,
      usizeAdd_ok (by omega)]
  refine ⟨⟨bpb.reservedSectors, bpb.fatCount * bpb.sectorsPerFat, sectors,
    bpb.sectorsPerCluster⟩, rfl, rfl, least, rfl, rfl, bounded.rootDirStartSector_ok, rounded,
    dataStart, ?_⟩
  intro cluster first last
  have skipped : (cluster - 2) * bpb.sectorsPerCluster ≤ 65533 * 255 :=
    Nat.mul_le_mul (by omega) (Nat.le_of_lt_succ bounded.cluster)
  rw [clusterToSector, dataStart, Exec.ok_bind, subChecked_ok first, Exec.ok_bind,
    usizeMul_ok (by omega), Exec.ok_bind, usizeAdd_ok (by omega)]
  rfl

end Geometry

/-- A block that is accepted describes a volume, and the methods compute its places. -/
theorem parse_layout (sector : Block) (bpb : Bpb) (accepted : parse sector = .ok bpb) :
    ∃ volume : Volume,
      volume.reserved = u16At sector 14 ∧
      volume.fats = (byteAt sector 16).toNat * u16At sector 22 ∧
      IsLeast {n | u16At sector 17 * 32 ≤ n * 512} volume.rootDir ∧
      volume.clusterSize = (byteAt sector 13).toNat ∧
      bpb.sectorsPerCluster = volume.clusterSize ∧
      bpb.fatStartSector = volume.fatStart ∧
      bpb.rootDirStartSector = .ok volume.rootDirStart ∧
      bpb.rootDirSectors = .ok volume.rootDir ∧
      bpb.dataStartSector = .ok volume.dataStart ∧
      volume.reservedArea = Set.Ico 0 volume.fatStart ∧
      volume.fatArea = Set.Ico volume.fatStart volume.rootDirStart ∧
      volume.rootDirArea = Set.Ico volume.rootDirStart volume.dataStart ∧
      volume.dataArea = Set.Ici volume.dataStart ∧
      volume.fatStart ≤ volume.rootDirStart ∧
      volume.rootDirStart + volume.rootDir = volume.dataStart ∧
      ∀ c, 2 ≤ c → c ≤ 0xFFFF →
        bpb.clusterToSector c = .ok (volume.clusterStart c) ∧
        volume.cluster c =
          Set.Ico (volume.clusterStart c) (volume.clusterStart c + bpb.sectorsPerCluster) ∧
        volume.cluster c ⊆ volume.dataArea ∧
        volume.clusterStart (c + 1) = volume.clusterStart c + bpb.sectorsPerCluster ∧
        ∀ d, 2 ≤ d → d ≤ 0xFFFF → c ≠ d → Disjoint (volume.cluster c) (volume.cluster d) := by
  obtain ⟨volume, reserved, fats, rootDir, clusterSize, fatStart, rootDirStart, rootDirSectors,
    dataStart, clusters⟩ := (parse_bounded accepted).volume
  have fields := parse_fields accepted
  subst fields
  refine ⟨volume, reserved, fats, rootDir, clusterSize, clusterSize.symm, fatStart, rootDirStart,
    rootDirSectors, dataStart, rfl, rfl, rfl, rfl, Nat.le_add_right _ _, rfl, ?_⟩
  intro c first last
  refine ⟨clusters c first last, ?_, volume.cluster_subset_dataArea c, ?_, ?_⟩
  · rw [← clusterSize, Volume.cluster]
  · rw [← clusterSize, volume.clusterStart_succ first]
  · intro d firstOther lastOther distinct
    exact volume.clusters_disjoint first firstOther distinct

def testSector : Block :=
  ⟨[0xEB, 0x3C, 0x90] ++ List.replicate 8 0 ++ [0x00, 0x02, 4, 0x04, 0x00, 2, 0x00, 0x02, 0x00,
    0x80, 0, 0x20, 0x00] ++ List.replicate 30 0 ++ identifier ++ List.replicate 450 0, by
    simp only [identifier, List.length_append, List.length_replicate, List.length_cons,
      List.length_nil]
    rfl⟩

theorem testSector_parse : parse testSector = .ok ⟨512, 4, 4, 2, 512, 32768, 32⟩ := by
  decide

theorem parse_layout_test_sector :
    ∃ volume : Volume, volume.reserved = 4 ∧ volume.fats = 64 ∧ volume.clusterSize = 4 ∧
      dataStartSector ⟨512, 4, 4, 2, 512, 32768, 32⟩ = .ok volume.dataStart ∧
      clusterToSector ⟨512, 4, 4, 2, 512, 32768, 32⟩ 3 = .ok (volume.clusterStart 3) ∧
      Disjoint (volume.cluster 3) (volume.cluster 4) := by
  obtain ⟨volume, reserved, fats, _, size, _, _, _, _, start, _, _, _, _, _, _, clusters⟩ :=
    parse_layout testSector _ testSector_parse
  rcases clusters 3 (by decide) (by decide) with ⟨third, _, _, _, apart⟩
  refine ⟨volume, reserved.trans (by decide), fats.trans (by decide), size.trans (by decide), start,
    third, apart 4 (by decide) (by decide) (by decide)⟩

/-- What the parser checks: the jump code and the identifier, and the sector size. -/
def Marked (sector : Block) : Prop :=
  (byteAt sector 0 = 0xEB ∨ byteAt sector 0 = 0xE9) ∧ (sector.val.drop 54).take 8 = identifier

theorem unmarked_iff (sector : Block) :
    ((byteAt sector 0 != 0xEB && byteAt sector 0 != 0xE9) ||
      (sector.val.drop 54).take 8 != identifier) = true ↔ ¬ Marked sector := by
  rw [Marked, not_and_or, not_or]
  simp

theorem parse_unmarked {sector : Block} (unmarked : ¬ Marked sector) :
    parse sector = .error .notFat16 := by
  rw [parse, if_pos ((unmarked_iff sector).mpr unmarked)]

theorem parse_wrong_size {sector : Block} (marked : Marked sector)
    (other : u16At sector 11 ≠ 512) : parse sector = .error .deviceError := by
  have checked := mt (unmarked_iff sector).mp (not_not_intro marked)
  rw [parse, if_neg checked, if_pos (by simpa [blockSize] using other)]

theorem parse_completes {sector : Block} (marked : Marked sector)
    (size : u16At sector 11 = 512) : ∃ bpb, parse sector = .ok bpb := by
  have checked := mt (unmarked_iff sector).mp (not_not_intro marked)
  rw [parse, if_neg checked, if_neg (by simp [size, blockSize])]
  exact ⟨_, rfl⟩

/-- A geometry that later sector computations can rely on. -/
structure Usable (bpb : Bpb) : Prop where
  cluster : bpb.sectorsPerCluster ≠ 0
  fats : bpb.fatCount ≠ 0
  reserved : bpb.reservedSectors ≠ 0
  fat : bpb.sectorsPerFat ≠ 0
  injective : ∀ c d, 2 ≤ c → c ≤ 0xFFFF → 2 ≤ d → d ≤ 0xFFFF →
    bpb.clusterToSector c = bpb.clusterToSector d → c = d
  firstFat : 0 ∉ Set.Ico bpb.fatStartSector (bpb.fatStartSector + bpb.sectorsPerFat)
  inside : bpb.totalSectors16 ≠ 0 →
    ∃ start, bpb.dataStartSector = .ok start ∧ start ≤ bpb.totalSectors16

theorem Bounded.usable_iff {bpb : Bpb} (bounded : bpb.Bounded) :
    bpb.Usable ↔ bpb.sectorsPerCluster ≠ 0 ∧ bpb.fatCount ≠ 0 ∧ bpb.reservedSectors ≠ 0 ∧
      bpb.sectorsPerFat ≠ 0 ∧
      (bpb.totalSectors16 ≠ 0 →
        bpb.reservedSectors + bpb.fatCount * bpb.sectorsPerFat +
          (bpb.rootEntryCount * 32 + 511) / 512 ≤ bpb.totalSectors16) := by
  rcases bounded.volume with ⟨volume, reserved, fats, least, size, _, _, _, start, clusters⟩
  have rounded : volume.rootDir = (bpb.rootEntryCount * 32 + 511) / 512 := by
    apply Nat.le_antisymm
    · apply least.2
      change bpb.rootEntryCount * 32 ≤ (bpb.rootEntryCount * 32 + 511) / 512 * 512
      omega
    · have enough : bpb.rootEntryCount * 32 ≤ volume.rootDir * 512 := least.1
      omega
  have place : volume.dataStart = bpb.reservedSectors + bpb.fatCount * bpb.sectorsPerFat +
      (bpb.rootEntryCount * 32 + 511) / 512 := by
    rw [Volume.dataStart, Volume.rootDirStart, Volume.fatStart, reserved, fats, rounded]
  rw [← place]
  constructor
  · intro usable
    refine ⟨usable.cluster, usable.fats, usable.reserved, usable.fat, fun sized => ?_⟩
    rcases usable.inside sized with ⟨other, same, fits⟩
    rw [start] at same
    cases same
    exact fits
  · intro given
    rcases given with ⟨cluster, fatCount, clear, fat, fits⟩
    refine ⟨cluster, fatCount, clear, fat, ?_, ?_, fun sized => ⟨_, start, fits sized⟩⟩
    · intro c d firstC lastC firstD lastD same
      rw [clusters c firstC lastC, clusters d firstD lastD] at same
      have equal : (c - 2) * volume.clusterSize = (d - 2) * volume.clusterSize :=
        Nat.add_left_cancel (Except.ok.inj same)
      rw [← size] at cluster
      have skipped := Nat.eq_of_mul_eq_mul_right (Nat.pos_of_ne_zero cluster) equal
      omega
    · intro inFat
      exact clear (Nat.le_zero.mp inFat.1)

/-- The parser checks the marks and the sector size only; of the geometry it accepts
anything, and what is accepted is usable when its fields say so. -/
theorem parse_accepts_marked (sector : Block) :
    ((∃ bpb, parse sector = .ok bpb) ↔ Marked sector ∧ u16At sector 11 = 512) ∧
      (¬ Marked sector → parse sector = .error .notFat16) ∧
      (Marked sector → u16At sector 11 ≠ 512 → parse sector = .error .deviceError) ∧
      ∀ bpb, parse sector = .ok bpb →
        (bpb.Usable ↔ bpb.sectorsPerCluster ≠ 0 ∧ bpb.fatCount ≠ 0 ∧ bpb.reservedSectors ≠ 0 ∧
          bpb.sectorsPerFat ≠ 0 ∧
          (bpb.totalSectors16 ≠ 0 →
            bpb.reservedSectors + bpb.fatCount * bpb.sectorsPerFat +
              (bpb.rootEntryCount * 32 + 511) / 512 ≤ bpb.totalSectors16)) := by
  refine ⟨?_, parse_unmarked, parse_wrong_size, fun bpb accepted =>
    (parse_bounded accepted).usable_iff⟩
  constructor
  · intro accepted
    rcases accepted with ⟨bpb, accepted⟩
    by_cases marked : Marked sector
    · by_cases size : u16At sector 11 = 512
      · exact ⟨marked, size⟩
      · rw [parse_wrong_size marked size] at accepted
        cases accepted
    · rw [parse_unmarked marked] at accepted
      cases accepted
  · intro given
    exact parse_completes given.1 given.2

def emptySector : Block :=
  ⟨[0xEB] ++ List.replicate 10 0 ++ [0x00, 0x02] ++ List.replicate 41 0 ++ identifier ++
    List.replicate 450 0, by
    simp only [identifier, List.length_append, List.length_replicate, List.length_cons,
      List.length_nil]
    rfl⟩

/-- A volume whose clusters have no sectors is accepted. -/
theorem empty_sector_accepted :
    parse emptySector = .ok ⟨512, 0, 0, 0, 0, 0, 0⟩ ∧
      clusterToSector ⟨512, 0, 0, 0, 0, 0, 0⟩ 2 = clusterToSector ⟨512, 0, 0, 0, 0, 0, 0⟩ 3 ∧
      ¬ Usable ⟨512, 0, 0, 0, 0, 0, 0⟩ :=
  ⟨by decide, rfl, fun usable => usable.cluster rfl⟩

end Bpb

end Ease
