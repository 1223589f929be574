/-
# The block cache of an NVMe device

`nvme_read`, `nvme_write` and `nvme_lseek` of `kernel/devices/nvme.c`: the driver keeps 512 blocks of the disk in
memory, and writes a block back when its slot is taken for another one, round robin. A command moves whole blocks
and may fail (`succeeds`). `Device.abs` reads the device as a `WriteBack.Cache`, whose view is what callers see.
-/
import WivOS.Lib.Machine
import WivOS.Lib.WriteBack

namespace WivOS.Nvme

open Function List Option WriteBack

abbrev Byte := BitVec 8

abbrev Word := BitVec 64

@[irreducible] def maxCachedBlocks : ℕ := 512

lemma maxCachedBlocks_pos : 0 < maxCachedBlocks := by
  unfold maxCachedBlocks
  decide

/-- The sizes `nvme_init` computes: an LBA and a cache block are powers of two. -/
structure Geometry where
  lbaShift : ℕ
  blockShift : ℕ
  lbaCount : ℕ
  lba_le : lbaShift ≤ blockShift
  block_lt : blockShift < 64
  count_lt : lbaCount < 2 ^ 64

namespace Geometry

def lbaSize (g : Geometry) : ℕ := 2 ^ g.lbaShift

def cacheBlockSize (g : Geometry) : ℕ := 2 ^ g.blockShift

def blockLbas (g : Geometry) : ℕ := g.cacheBlockSize / g.lbaSize

instance (g : Geometry) : NeZero g.cacheBlockSize := ⟨(Nat.two_pow_pos _).ne'⟩

def Inside (g : Geometry) (block : ℕ) : Prop := (block + 1) * g.blockLbas < g.lbaCount

instance (g : Geometry) (block : ℕ) : Decidable (g.Inside block) := inferInstanceAs (Decidable (_ < _))

end Geometry

inductive CacheStatus where
  | notReady
  | ready
  | dirty
deriving DecidableEq

structure CachedBlock where
  cache : Option (ℕ → Byte)
  block : ℕ
  status : CacheStatus

def CachedBlock.bytes (s : CachedBlock) : ℕ → Byte := s.cache.getD fun _ => 0

/-- The bytes on the disk, the cache, the next slot to overwrite, and the number of
commands sent. -/
structure Device where
  disk : ℕ → Byte
  cache : Fin maxCachedBlocks → CachedBlock
  cacheOverwriteCount : Fin (maxCachedBlocks + 1)
  sent : ℕ

/-! ### The driver -/

def clampLbaCount (lbaCount startLBA LBACount : Word) : Word :=
  if lbaCount ≤ startLBA + LBACount then LBACount - (startLBA - LBACount - lbaCount) else LBACount

section
variable (g : Geometry) (succeeds : ℕ → Bool)

def transferSize (startLBA LBACount : ℕ) : ℕ :=
  (clampLbaCount (BitVec.ofNat 64 g.lbaCount) (BitVec.ofNat 64 startLBA) (BitVec.ofNat 64 LBACount)).toNat * g.lbaSize

def nvmeExecuteRead (dev : Device) (buffer : ℕ → Byte) (startLBA LBACount : ℕ) : Option (ℕ → Byte) × Device :=
  let start := startLBA * g.lbaSize
  let buffer := fun j => if j < transferSize g startLBA LBACount then dev.disk (start + j) else buffer j
  if succeeds dev.sent then (some buffer, { dev with sent := dev.sent + 1 })
  else (none, { dev with sent := dev.sent + 1 })

def nvmeExecuteWrite (dev : Device) (buffer : ℕ → Byte) (startLBA LBACount : ℕ) : Bool × Device :=
  let start := startLBA * g.lbaSize
  let disk := fun a =>
    if start ≤ a ∧ a < start + transferSize g startLBA LBACount then buffer (a - start) else dev.disk a
  if succeeds dev.sent then (true, { dev with disk, sent := dev.sent + 1 })
  else (false, { dev with sent := dev.sent + 1 })

def nvmeFindBlock (dev : Device) (block : ℕ) : Option (Fin maxCachedBlocks) :=
  (List.finRange maxCachedBlocks).find? fun i => (dev.cache i).block = block ∧ (dev.cache i).status ≠ .notReady

def nvmeFillSlot (dev : Device) (index : Fin maxCachedBlocks) (block : ℕ) : Option (Fin maxCachedBlocks) × Device :=
  match nvmeExecuteRead g succeeds dev (dev.cache index).bytes (g.blockLbas * block) g.blockLbas with
  | (some cache, dev) =>
    (some index, { dev with cache := update dev.cache index ⟨some cache, block, .ready⟩ })
  | (none, dev) => (none, dev)

def unusedSlot (dev : Device) : Option (Fin maxCachedBlocks) :=
  (List.finRange maxCachedBlocks).find? fun i => (dev.cache i).status = .notReady

def nextSlot (dev : Device) : Fin maxCachedBlocks :=
  if h : dev.cacheOverwriteCount.val < maxCachedBlocks then ⟨dev.cacheOverwriteCount, h⟩ else ⟨0, maxCachedBlocks_pos⟩

/-- `nvme_cache_block`: take an unused slot, or else the next one round robin. -/
def nvmeCacheBlock (dev : Device) (block : ℕ) : Option (Fin maxCachedBlocks) × Device :=
  match unusedSlot dev with
  | some index => nvmeFillSlot g succeeds dev index block
  | none =>
    let index := nextSlot dev
    let dev := { dev with cacheOverwriteCount := index.succ }
    if (dev.cache index).status = .dirty then
      match nvmeExecuteWrite g succeeds dev (dev.cache index).bytes (g.blockLbas * (dev.cache index).block)
        g.blockLbas with
      | (true, dev) => nvmeFillSlot g succeeds dev index block
      | (false, dev) => (none, dev)
    else nvmeFillSlot g succeeds dev index block

def slotOf (dev : Device) (block : ℕ) : Option (Fin maxCachedBlocks) × Device :=
  match nvmeFindBlock dev block with
  | some slot => (some slot, dev)
  | none => nvmeCacheBlock g succeeds dev block

def position (offset : Word) (count : ℕ) : ℕ := (offset + BitVec.ofNat 64 count).toNat

/-- The bytes of the request that lie in the block of byte `count`. -/
def chunkSize (offset : Word) (size count : ℕ) : ℕ :=
  min (size - count) (g.cacheBlockSize - position offset count % g.cacheBlockSize)

def readLoop (offset : Word) (size : ℕ) : ℕ → ℕ → List Byte → Device → Option (Option (List Byte) × Device)
  | 0, count, buffer, dev => if count < size then none else some (some buffer, dev)
  | fuel + 1, count, buffer, dev =>
    if count < size then
      match slotOf g succeeds dev (position offset count / g.cacheBlockSize) with
      | (none, dev) => some (none, dev)
      | (some slot, dev) =>
        let chunk := (List.range (chunkSize g offset size count)).map fun j =>
          (dev.cache slot).bytes (position offset count % g.cacheBlockSize + j)
        readLoop offset size fuel (count + chunkSize g offset size count) (buffer ++ chunk) dev
    else some (some buffer, dev)

def CachedBlock.overwrite (s : CachedBlock) (off : ℕ) (chunk : List Byte) : CachedBlock where
  cache := some fun j => if off ≤ j then (chunk[j - off]?).getD (s.bytes j) else s.bytes j
  block := s.block
  status := .dirty

def Device.overwrite (dev : Device) (slot : Fin maxCachedBlocks) (off : ℕ) (chunk : List Byte) : Device :=
  { dev with cache := update dev.cache slot ((dev.cache slot).overwrite off chunk) }

def writeLoop (offset : Word) (data : List Byte) : ℕ → ℕ → Device → Option (Bool × Device)
  | 0, count, dev => if count < data.length then none else some (true, dev)
  | fuel + 1, count, dev =>
    if count < data.length then
      match slotOf g succeeds dev (position offset count / g.cacheBlockSize) with
      | (none, dev) => some (false, dev)
      | (some slot, dev) =>
        let chunk := (data.drop count).take (chunkSize g offset data.length count)
        writeLoop offset data fuel (count + chunkSize g offset data.length count)
          (dev.overwrite slot (position offset count % g.cacheBlockSize) chunk)
    else some (true, dev)

/-- The new offset that `nvme_lseek` sets. An unsigned offset is never negative, so
`SEEK_END` always fails. -/
def nvmeLseek (offset arg : Word) (type : ℕ) : Option Word :=
  let size := BitVec.ofNat 64 (g.lbaCount * g.lbaSize)
  match type with
  | 0 => if size ≤ arg then none else some arg
  | 1 => if size ≤ offset + arg then none else some (offset + arg)
  | _ => none

/-! ### Nodes of a device -/

/-- A device and the offsets of the nodes opened on it. `returned` records, call by
call, the bytes put into the buffer and the value returned, the latest first. -/
structure Disk where
  dev : Device
  offset : ℕ → Word
  returned : List (List Byte × Word)

inductive DiskOp where
  | read (node : ℕ) (size : Word)
  | write (node : ℕ) (data : List Byte) (h : data.length < 2 ^ 64)
  | lseek (node : ℕ) (arg : Word) (type : ℕ)

def nvmeRead (d : Disk) (node : ℕ) (size : Word) : Option Disk :=
  match readLoop g succeeds (d.offset node) size.toNat size.toNat 0 [] d.dev with
  | none => none
  | some (none, dev) => some { d with dev, returned := ([], -1) :: d.returned }
  | some (some buffer, dev) => some
    { dev, offset := update d.offset node (d.offset node + size), returned := (buffer, size) :: d.returned }

def nvmeWrite (d : Disk) (node : ℕ) (data : List Byte) : Option Disk :=
  match writeLoop g succeeds (d.offset node) data data.length 0 d.dev with
  | none => none
  | some (false, dev) => some { d with dev, returned := ([], -1) :: d.returned }
  | some (true, dev) => some
    { dev, offset := update d.offset node (d.offset node + BitVec.ofNat 64 data.length)
      returned := ([], BitVec.ofNat 64 data.length) :: d.returned }

def Disk.step (d : Disk) : DiskOp → Option Disk
  | .read node size => nvmeRead g succeeds d node size
  | .write node data _ => nvmeWrite g succeeds d node data
  | .lseek node arg type =>
    match nvmeLseek g (d.offset node) arg type with
    | some offset => some
      { d with offset := update d.offset node offset, returned := ([], offset) :: d.returned }
    | none => some { d with returned := ([], -1) :: d.returned }

def Device.fresh (disk : ℕ → Byte) : Device where
  disk := disk
  cache := fun _ => ⟨none, 0, .notReady⟩
  cacheOverwriteCount := 0
  sent := 0

/-! ### What the device is for -/

structure FlatDisk where
  bytes : Word → Byte
  offset : ℕ → Word
  returned : List (List Byte × Word)

def FlatDisk.step (d : FlatDisk) : DiskOp → FlatDisk
  | .read node size =>
    { d with
      offset := update d.offset node (d.offset node + size)
      returned := (Flat.read d.bytes (d.offset node) size.toNat, size) :: d.returned }
  | .write node data _ =>
    { bytes := Flat.write d.bytes (d.offset node) data
      offset := update d.offset node (d.offset node + BitVec.ofNat 64 data.length)
      returned := ([], BitVec.ofNat 64 data.length) :: d.returned }
  | .lseek node arg type =>
    match nvmeLseek g (d.offset node) arg type with
    | some offset =>
      { d with offset := update d.offset node offset, returned := ([], offset) :: d.returned }
    | none => { d with returned := ([], -1) :: d.returned }

/-- Every block that the call touches ends before the last LBA. -/
def DiskOp.Inside (d : FlatDisk) : DiskOp → Prop
  | .read node size => ∀ k < size.toNat, g.Inside (position (d.offset node) k / g.cacheBlockSize)
  | .write node data _ => ∀ k < data.length, g.Inside (position (d.offset node) k / g.cacheBlockSize)
  | .lseek .. => True

end

variable {g : Geometry} {succeeds : ℕ → Bool} {data : List Byte} {s : CachedBlock} {offset : Word} {node : ℕ}

/-! ### Geometry -/

lemma blockLbas_mul_lbaSize (g : Geometry) : g.blockLbas * g.lbaSize = g.cacheBlockSize :=
  Nat.div_mul_cancel (Nat.pow_dvd_pow 2 g.lba_le)

lemma cacheBlockSize_dvd (g : Geometry) : g.cacheBlockSize ∣ 2 ^ 64 := Nat.pow_dvd_pow 2 g.block_lt.le

lemma startLBA_mul (g : Geometry) (block : ℕ) : g.blockLbas * block * g.lbaSize = block * g.cacheBlockSize := by
  rw [Nat.mul_comm g.blockLbas, Nat.mul_assoc, blockLbas_mul_lbaSize]

variable {block : ℕ} {e : Entry ℕ (Fin g.cacheBlockSize → Byte)} {dev : Device} {d : Disk} {f : FlatDisk}

lemma transferSize_block (h : g.Inside block) :
    transferSize g (g.blockLbas * block) g.blockLbas = g.cacheBlockSize := by
  have hend : g.blockLbas * block + g.blockLbas < g.lbaCount := by
    rw [Geometry.Inside, Nat.add_mul, Nat.one_mul, Nat.mul_comm] at h
    exact h
  have hcount := g.count_lt
  rw [transferSize, clampLbaCount, if_neg, BitVec.toNat_ofNat, Nat.mod_eq_of_lt (by omega), blockLbas_mul_lbaSize]
  rw [← BitVec.ofNat_add, BitVec.le_def, BitVec.toNat_ofNat, BitVec.toNat_ofNat, Nat.mod_eq_of_lt hcount,
    Nat.mod_eq_of_lt (by omega)]
  omega

lemma mem_block {b b' j : ℕ} (hj : j < g.cacheBlockSize) : b * g.cacheBlockSize ≤ b' * g.cacheBlockSize + j ∧
      b' * g.cacheBlockSize + j < b * g.cacheBlockSize + g.cacheBlockSize ↔ b' = b := by
  constructor
  · rintro ⟨h1, h2⟩
    have h1' : b < b' + 1 := Nat.lt_of_mul_lt_mul_right (a := g.cacheBlockSize) (by rw [Nat.succ_mul]; omega)
    have h2' : b' < b + 1 := Nat.lt_of_mul_lt_mul_right (a := g.cacheBlockSize) (by rw [Nat.succ_mul]; omega)
    omega
  · rintro rfl
    omega

/-! ### The device as a cache -/

def CachedBlock.entry (g : Geometry) (s : CachedBlock) : Option (Entry ℕ (Fin g.cacheBlockSize → Byte)) :=
  if s.status = .notReady then none else some ⟨s.block, fun j => s.bytes j, s.status = .dirty⟩

def Device.abs (g : Geometry) (dev : Device) : Cache (Fin maxCachedBlocks) ℕ (Fin g.cacheBlockSize → Byte) where
  slots i := (dev.cache i).entry g
  disk b j := dev.disk (b * g.cacheBlockSize + j)

noncomputable def Device.flat (g : Geometry) (dev : Device) : Word → Byte := Flat.ofBlocks (dev.abs g).view

structure Valid (g : Geometry) (dev : Device) : Prop where
  coherent : (dev.abs g).Coherent
  inside : ∀ i e, (dev.abs g).slots i = some e → g.Inside e.block

lemma entry_eq_some :
    s.entry g = some e ↔ s.status ≠ .notReady ∧ e = ⟨s.block, fun j => s.bytes j, s.status = .dirty⟩ := by
  rw [CachedBlock.entry]
  by_cases h : s.status = .notReady
  · simp [h]
  · simp [h, eq_comm]

lemma abs_update (dev : Device) (i : Fin maxCachedBlocks) (he : s.entry g = some e) :
    Device.abs g { dev with cache := update dev.cache i s } = (dev.abs g).set i e := by
  rw [Device.abs, Cache.set]
  congr 1
  funext j
  by_cases hj : j = i
  · subst hj
    simp [he]
  · simp [hj, Device.abs]

lemma nvmeFindBlock_some {i : Fin maxCachedBlocks} (h : nvmeFindBlock dev block = some i) :
    ∃ e, (dev.abs g).slots i = some e ∧ e.block = block := by
  have hi := find?_some h
  simp only [decide_eq_true_eq] at hi
  exact ⟨_, entry_eq_some.mpr ⟨hi.2, rfl⟩, hi.1⟩

lemma nvmeFindBlock_none (h : nvmeFindBlock dev block = none) : (dev.abs g).Absent block := by
  intro i e he hb
  obtain ⟨hst, rfl⟩ := entry_eq_some.mp he
  have hi := find?_eq_none.mp h i (mem_finRange i)
  exact hi (decide_eq_true ⟨hb, hst⟩)

lemma unusedSlot_some {i : Fin maxCachedBlocks} (h : unusedSlot dev = some i) : (dev.cache i).status = .notReady := by
  have hi := find?_some h
  exact of_decide_eq_true hi

lemma unusedSlot_none (h : unusedSlot dev = none) (i : Fin maxCachedBlocks) : (dev.cache i).status ≠ .notReady := by
  have hi := find?_eq_none.mp h i (mem_finRange i)
  exact fun hst => hi (decide_eq_true hst)

/-! ### Commands -/

lemma nvmeExecuteWrite_abs (dev : Device) (hs : ∀ n, succeeds n = true) (buffer : ℕ → Byte) (hb : g.Inside block) :
    ∃ dev', nvmeExecuteWrite g succeeds dev buffer (g.blockLbas * block) g.blockLbas = (true, dev') ∧
      dev'.abs g = { dev.abs g with disk := update (dev.abs g).disk block fun j => buffer j } := by
  simp only [nvmeExecuteWrite, hs, if_true, startLBA_mul, transferSize_block hb]
  refine ⟨_, rfl, ?_⟩
  rw [Device.abs]
  congr 1
  funext b j
  simp only [mem_block j.isLt]
  by_cases h : b = block
  · subst h
    simp
  · simp [h, Device.abs]

lemma nvmeFillSlot_abs (dev : Device) (i : Fin maxCachedBlocks) (hs : ∀ n, succeeds n = true) (hb : g.Inside block) :
    ∃ dev', nvmeFillSlot g succeeds dev i block = (some i, dev') ∧
      dev'.abs g = (dev.abs g).set i ⟨block, (dev.abs g).disk block, false⟩ := by
  simp only [nvmeFillSlot, nvmeExecuteRead, hs, if_true, startLBA_mul, transferSize_block hb]
  refine ⟨_, rfl, abs_update { dev with sent := dev.sent + 1 } i (entry_eq_some.mpr ⟨nofun, ?_⟩)⟩
  simp [CachedBlock.bytes, Device.abs]

section

variable (hv : Valid g dev) (hs : ∀ n, succeeds n = true) (hb : g.Inside block)
include hv hs hb

lemma nvmeCacheBlock_abs :
    ∃ i dev', nvmeCacheBlock g succeeds dev block = (some i, dev') ∧ dev'.abs g = (dev.abs g).replace i block := by
  rw [nvmeCacheBlock]
  cases hfree : unusedSlot dev with
  | some i =>
    have hi : (dev.abs g).slots i = none := if_pos (unusedSlot_some hfree)
    obtain ⟨dev', hfill, habs⟩ := nvmeFillSlot_abs dev i hs hb
    refine ⟨i, dev', hfill, habs.trans (Cache.set_eq_replace rfl (Cache.evict_disk_of_clean ?_).symm)⟩
    rw [hi]
    exact nofun
  | none =>
    simp only
    generalize nextSlot dev = i
    have he := (entry_eq_some (g := g)).mpr ⟨unusedSlot_none hfree i, rfl⟩
    by_cases hd : (dev.cache i).status = .dirty
    · rw [if_pos hd]
      obtain ⟨dev1, hwrite, habs1⟩ := nvmeExecuteWrite_abs { dev with cacheOverwriteCount := i.succ } hs
        (dev.cache i).bytes (hv.inside i _ he)
      obtain ⟨dev', hfill, habs⟩ := nvmeFillSlot_abs dev1 i hs hb
      rw [hwrite]
      refine ⟨i, dev', hfill, habs.trans (Cache.set_eq_replace ?_ ?_)⟩
      · rw [habs1]
        rfl
      · rw [habs1, Cache.evict_disk_of_dirty he (decide_eq_true hd)]
        rfl
    · rw [if_neg hd]
      obtain ⟨dev', hfill, habs⟩ := nvmeFillSlot_abs { dev with cacheOverwriteCount := i.succ } i hs hb
      refine ⟨i, dev', hfill, habs.trans (Cache.set_eq_replace rfl (Cache.evict_disk_of_clean fun e he' => ?_).symm)⟩
      obtain rfl := some.inj (he.symm.trans he')
      exact decide_eq_false hd

lemma slotOf_spec :
    ∃ slot dev' e, slotOf g succeeds dev block = (some slot, dev') ∧ Valid g dev' ∧
      (dev'.abs g).view = (dev.abs g).view ∧ (dev'.abs g).slots slot = some e ∧ e.block = block := by
  rw [slotOf]
  cases hfind : nvmeFindBlock dev block with
  | some slot =>
    obtain ⟨e, he, heb⟩ := nvmeFindBlock_some hfind
    exact ⟨slot, dev, e, rfl, hv, rfl, he, heb⟩
  | none =>
    have habsent := nvmeFindBlock_none (g := g) hfind
    obtain ⟨i, dev', hcache, habs⟩ := nvmeCacheBlock_abs hv hs hb
    refine ⟨i, dev', ⟨block, ((dev.abs g).evict i).disk block, false⟩, hcache, ⟨?_, fun j e he => ?_⟩, ?_, ?_, rfl⟩
    · rw [habs]
      exact hv.coherent.replace habsent
    · rw [habs] at he
      rcases Cache.slots_set he with ⟨-, rfl⟩ | ⟨-, he⟩
      · exact hb
      · exact hv.inside j e (Cache.slots_evict he).2
    · rw [habs, hv.coherent.view_replace habsent]
    · rw [habs, Cache.replace, Cache.set_slots, update_self]

end

lemma Valid.bytes_eq (hv : Valid g dev) {slot : Fin maxCachedBlocks} (he : (dev.abs g).slots slot = some e) {j : ℕ}
    (hj : j < g.cacheBlockSize) : (dev.cache slot).bytes j = (dev.abs g).view e.block (Fin.ofNat _ j) := by
  rw [hv.coherent.view_slot he]
  obtain ⟨-, rfl⟩ := entry_eq_some.mp he
  simp [Nat.mod_eq_of_lt hj]

/-! ### Requests -/

lemma position_add (offset : Word) (count k : ℕ) :
    offset + BitVec.ofNat 64 count + BitVec.ofNat 64 k = offset + BitVec.ofNat 64 (count + k) := by
  rw [BitVec.add_assoc, BitVec.ofNat_add]

lemma chunkSize_pos (g : Geometry) (offset : Word) {size count : ℕ}
    (h : count < size) : 0 < chunkSize g offset size count := by
  have := Nat.mod_lt (position offset count) (Nat.two_pow_pos g.blockShift)
  rw [chunkSize]
  exact lt_min (by omega) (Nat.sub_pos_of_lt this)

lemma chunkSize_le (g : Geometry) (offset : Word) (size count : ℕ) : chunkSize g offset size count ≤ size - count :=
  min_le_left _ _

lemma chunk_in_block (g : Geometry) (offset : Word) (size count : ℕ) :
    position offset count % g.cacheBlockSize + chunkSize g offset size count ≤ g.cacheBlockSize := by
  have hlt := Nat.mod_lt (position offset count) (Nat.two_pow_pos g.blockShift)
  have hle : chunkSize g offset size count ≤ g.cacheBlockSize - position offset count % g.cacheBlockSize :=
    min_le_right _ _
  have : position offset count % g.cacheBlockSize < g.cacheBlockSize := hlt
  omega

lemma readLoop_spec (hs : ∀ n, succeeds n = true) {size : ℕ}
    (hin : ∀ k < size, g.Inside (position offset k / g.cacheBlockSize)) : ∀ (fuel count : ℕ)
    (buffer : List Byte) (dev : Device), Valid g dev → size - count ≤ fuel →
    ∃ dev', readLoop g succeeds offset size fuel count buffer dev =
        some (some (buffer ++ Flat.read (dev.flat g) (offset + BitVec.ofNat 64 count) (size - count)), dev') ∧
      Valid g dev' ∧ dev'.flat g = dev.flat g
  | 0, count, buffer, dev, hv, hfuel => by
    rw [readLoop, if_neg (by omega), Nat.sub_eq_zero_of_le (by omega)]
    exact ⟨dev, by simp [Flat.read], hv, rfl⟩
  | fuel + 1, count, buffer, dev, hv, hfuel => by
    rw [readLoop]
    by_cases hlt : count < size
    · rw [if_pos hlt]
      obtain ⟨slot, dev1, e, hslot, hv1, hview, he, heb⟩ := slotOf_spec hv hs (hin count hlt)
      have hpos := chunkSize_pos g offset hlt
      have hle := chunkSize_le g offset size count
      have hblock := chunk_in_block g offset size count
      have hflat1 : dev1.flat g = dev.flat g := by rw [Device.flat, hview, Device.flat]
      have hchunk : ((List.range (chunkSize g offset size count)).map fun j =>
          (dev1.cache slot).bytes (position offset count % g.cacheBlockSize + j)) =
          Flat.read (dev.flat g) (offset + BitVec.ofNat 64 count) (chunkSize g offset size count) := by
        rw [Device.flat, Flat.read_ofBlocks (cacheBlockSize_dvd g) _ hblock]
        refine map_congr_left fun j hj => ?_
        have hj := mem_range.mp hj
        rw [hv1.bytes_eq he (by omega), heb, hview, position]
      obtain ⟨dev', hloop, hv', hflat⟩ := readLoop_spec hs hin fuel (count + chunkSize g offset size count)
        (buffer ++ Flat.read (dev.flat g) (offset + BitVec.ofNat 64 count) (chunkSize g offset size count)) dev1 hv1
        (by omega)
      refine ⟨dev', ?_, hv', hflat.trans hflat1⟩
      simp only [hslot, hchunk, hloop]
      rw [hflat1, append_assoc, ← position_add, ← Flat.read_append]
      congr 5
      omega
    · rw [if_neg hlt, Nat.sub_eq_zero_of_le (by omega)]
      exact ⟨dev, by simp [Flat.read], hv, rfl⟩

lemma Valid.overwrite (hv : Valid g dev) {slot : Fin maxCachedBlocks} (he : (dev.abs g).slots slot = some e)
    (p : Word) (hp : e.block = p.toNat / g.cacheBlockSize) (chunk : List Byte)
    (hc : p.toNat % g.cacheBlockSize + chunk.length ≤ g.cacheBlockSize) :
    Valid g (dev.overwrite slot (p.toNat % g.cacheBlockSize) chunk) ∧
      (dev.overwrite slot (p.toNat % g.cacheBlockSize) chunk).flat g = Flat.write (dev.flat g) p chunk := by
  have habs : (dev.overwrite slot (p.toNat % g.cacheBlockSize) chunk).abs g = (dev.abs g).set slot
      ⟨e.block, Flat.splice ((dev.abs g).view e.block) (p.toNat % g.cacheBlockSize) chunk, true⟩ := by
    refine abs_update dev slot (entry_eq_some.mpr ⟨nofun, ?_⟩)
    rw [hv.coherent.view_slot he]
    obtain ⟨-, rfl⟩ := entry_eq_some.mp he
    simp only [CachedBlock.overwrite, CachedBlock.bytes, getD_some, decide_true, Entry.mk.injEq, true_and, and_true]
    rfl
  obtain ⟨hcoh, hview⟩ := hv.coherent.write he
    (Flat.splice ((dev.abs g).view e.block) (p.toNat % g.cacheBlockSize) chunk)
  refine ⟨⟨by rwa [habs], fun j f hf => ?_⟩, ?_⟩
  · rw [habs] at hf
    rcases Cache.slots_set hf with ⟨-, rfl⟩ | ⟨-, hf⟩
    · exact hv.inside slot e he
    · exact hv.inside j f hf
  · rw [Device.flat, habs, hview, Device.flat, Flat.write_ofBlocks (cacheBlockSize_dvd g) _ hc, hp]

lemma writeLoop_spec (hs : ∀ n, succeeds n = true) (hlen : data.length < 2 ^ 64)
    (hin : ∀ k < data.length, g.Inside (position offset k / g.cacheBlockSize)) : ∀ (fuel count : ℕ) (dev : Device),
    Valid g dev → data.length - count ≤ fuel →
    ∃ dev', writeLoop g succeeds offset data fuel count dev = some (true, dev') ∧ Valid g dev' ∧
      dev'.flat g = Flat.write (dev.flat g) (offset + BitVec.ofNat 64 count) (data.drop count)
  | 0, count, dev, hv, hfuel => by
    rw [writeLoop, if_neg (by omega), drop_eq_nil_of_le (by omega), Flat.write_nil]
    exact ⟨dev, rfl, hv, rfl⟩
  | fuel + 1, count, dev, hv, hfuel => by
    rw [writeLoop]
    by_cases hlt : count < data.length
    · rw [if_pos hlt]
      obtain ⟨slot, dev1, e, hslot, hv1, hview, he, heb⟩ := slotOf_spec hv hs (hin count hlt)
      have hpos := chunkSize_pos g offset hlt
      have hle := chunkSize_le g offset data.length count
      have hchunk : ((data.drop count).take (chunkSize g offset data.length count)).length =
          chunkSize g offset data.length count := by
        rw [length_take, length_drop]
        omega
      have hflat1 : dev1.flat g = dev.flat g := by rw [Device.flat, hview, Device.flat]
      obtain ⟨hv2, hflat2⟩ := hv1.overwrite he (offset + BitVec.ofNat 64 count) heb
        ((data.drop count).take (chunkSize g offset data.length count))
        (by rw [hchunk]; exact chunk_in_block g offset data.length count)
      obtain ⟨dev', hloop, hv', hflat⟩ := writeLoop_spec hs hlen hin fuel
        (count + chunkSize g offset data.length count) _ hv2 (by omega)
      refine ⟨dev', ?_, hv', ?_⟩
      · simp only [hslot]
        exact hloop
      · -- the rest is written right behind this chunk
        have hrest : data.drop count = (data.drop count).take (chunkSize g offset data.length count) ++
            data.drop (count + chunkSize g offset data.length count) := by
          rw [← drop_drop, take_append_drop]
        rw [hflat, hflat2, hflat1, hrest, ← Flat.write_append, hchunk, position_add]
        · rw [← hrest]
        · rw [← hrest, length_drop]
          omega
    · rw [if_neg hlt, drop_eq_nil_of_le (by omega), Flat.write_nil]
      exact ⟨dev, rfl, hv, rfl⟩

/-! ### Runs -/

structure Refines (g : Geometry) (d : Disk) (f : FlatDisk) : Prop where
  valid : Valid g d.dev
  bytes : d.dev.flat g = f.bytes
  offset : d.offset = f.offset
  returned : d.returned = f.returned

section

variable (hR : Refines g d f) (hs : ∀ n, succeeds n = true)
include hR hs

lemma Refines.read {size : Word}
    (hin : DiskOp.Inside g f (.read node size)) :
    ∃ d', nvmeRead g succeeds d node size = some d' ∧ Refines g d' (f.step g (.read node size)) := by
  obtain ⟨dev', hloop, hv, hflat⟩ := readLoop_spec hs hin size.toNat 0 [] d.dev hR.valid (Nat.sub_le _ _)
  rw [← hR.offset] at hloop
  rw [nvmeRead, hloop]
  refine ⟨_, rfl, hv, hflat.trans hR.bytes, ?_, ?_⟩
  · simp only [FlatDisk.step, hR.offset]
  · simp [FlatDisk.step, hR.offset, hR.returned, hR.bytes]

lemma Refines.write
    (hlen : data.length < 2 ^ 64) (hin : DiskOp.Inside g f (.write node data hlen)) :
    ∃ d', nvmeWrite g succeeds d node data = some d' ∧ Refines g d' (f.step g (.write node data hlen)) := by
  obtain ⟨dev', hloop, hv, hflat⟩ := writeLoop_spec hs hlen hin data.length 0 d.dev hR.valid (Nat.sub_le _ _)
  rw [← hR.offset] at hloop
  rw [nvmeWrite, hloop]
  refine ⟨_, rfl, hv, ?_, ?_, ?_⟩
  · simp [hflat, FlatDisk.step, hR.bytes]
  · simp only [FlatDisk.step, hR.offset]
  · simp only [FlatDisk.step, hR.returned]

lemma Refines.step {op : DiskOp} (hin : op.Inside g f) :
    ∃ d', d.step g succeeds op = some d' ∧ Refines g d' (f.step g op) := by
  cases op with
  | read node size => exact hR.read hs hin
  | write node data hlen => exact hR.write hs hlen hin
  | lseek node arg type =>
    rw [Disk.step, FlatDisk.step, hR.offset]
    cases nvmeLseek g (f.offset node) arg type with
    | some offset => exact ⟨_, rfl, hR.valid, hR.bytes, rfl, by simp only [hR.returned]⟩
    | none => exact ⟨_, rfl, hR.valid, hR.bytes, rfl, by simp only [hR.returned]⟩

end

lemma Refines.fresh (g : Geometry) (disk : ℕ → Byte) (offset : ℕ → Word) :
    Refines g ⟨.fresh disk, offset, []⟩ ⟨fun p => disk p.toNat, offset, []⟩ := by
  have hnone : ∀ i e, ((Device.fresh disk).abs g).slots i = some e → False := fun i e he =>
    absurd (he : CachedBlock.entry g ⟨none, 0, .notReady⟩ = some e) nofun
  have hcoh : ((Device.fresh disk).abs g).Coherent :=
    ⟨fun i _ e _ he => (hnone i e he).elim, fun i e he => (hnone i e he).elim⟩
  refine ⟨⟨hcoh, fun i e he => (hnone i e he).elim⟩, ?_, rfl, rfl⟩
  funext p
  rw [Device.flat, Flat.ofBlocks, Cache.view_absent fun i e he => (hnone i e he).elim]
  exact congrArg disk (Nat.div_add_mod' _ _)

/-- **The device is one flat array of bytes.** Every run of reads, writes and seeks whose commands succeed and which
only touches blocks that end before the last LBA returns what a flat array with the bytes of the disk returns. No
block is in two slots, and a slot that is not dirty equals the disk. -/
theorem behaves_as_flat_array (g : Geometry) (succeeds : ℕ → Bool) (hs : ∀ n, succeeds n = true) (disk : ℕ → Byte)
    (offset : ℕ → Word) (ops : List DiskOp)
    (hin : Machine.Along (fun f op => some (FlatDisk.step g f op)) (DiskOp.Inside g)
      ⟨fun p => disk p.toNat, offset, []⟩ ops) :
    ∃ d, Machine.run (Disk.step g succeeds) ⟨.fresh disk, offset, []⟩ ops = some d ∧
      d.returned = (ops.foldl (FlatDisk.step g) ⟨fun p => disk p.toNat, offset, []⟩).returned ∧
      d.offset = (ops.foldl (FlatDisk.step g) ⟨fun p => disk p.toNat, offset, []⟩).offset ∧
      (∀ i j, (d.dev.cache i).status ≠ .notReady → (d.dev.cache j).status ≠ .notReady →
        (d.dev.cache i).block = (d.dev.cache j).block → i = j) ∧
      ∀ i, (d.dev.cache i).status = .ready → ∀ k < g.cacheBlockSize,
        (d.dev.cache i).bytes k = d.dev.disk ((d.dev.cache i).block * g.cacheBlockSize + k) := by
  obtain ⟨d, hrun, hR⟩ := Machine.run_simulation (Disk.step g succeeds) (fun _ _ _ hR hin => hR.step hs hin) ops _ _
    (Refines.fresh g disk offset) hin
  refine ⟨d, hrun, hR.returned, hR.offset, fun i j hi hj hb => ?_, fun i hi k hk => ?_⟩
  · exact hR.valid.coherent.unique i j _ _ (entry_eq_some.mpr ⟨hi, rfl⟩) (entry_eq_some.mpr ⟨hj, rfl⟩) hb
  · have hst : (d.dev.cache i).status ≠ .notReady := by simp [hi]
    have hclean := hR.valid.coherent.clean i _ (entry_eq_some.mpr ⟨hst, rfl⟩) (by simp [hi])
    exact congrFun hclean ⟨k, hk⟩

instance (g : Geometry) (f : FlatDisk) : ∀ op : DiskOp, Decidable (op.Inside g f)
  | .read node size =>
    inferInstanceAs (Decidable (∀ k < size.toNat, g.Inside (position (f.offset node) k / g.cacheBlockSize)))
  | .write node data _ =>
    inferInstanceAs (Decidable (∀ k < data.length, g.Inside (position (f.offset node) k / g.cacheBlockSize)))
  | .lseek .. => isTrue trivial

def smallDisk : Geometry := ⟨0, 2, 100, by decide, by decide, by decide⟩

theorem behaves_as_flat_array_two :
    ∃ d, Machine.run (Disk.step smallDisk fun _ => true) ⟨.fresh fun a => BitVec.ofNat 8 a, fun _ => 0, []⟩
        [.lseek 0 3 0, .write 0 [70, 71, 72] (by decide), .read 1 7] = some d ∧
      d.returned = [([0, 1, 2, 70, 71, 72, 6], 7), ([], 3), ([], 3)] := by
  obtain ⟨d, hrun, hret, -⟩ := behaves_as_flat_array smallDisk (fun _ => true) (fun _ => rfl)
    (fun a => BitVec.ofNat 8 a)
    (fun _ => 0) [.lseek 0 3 0, .write 0 [70, 71, 72] (by decide), .read 1 7] (by decide +kernel)
  exact ⟨d, hrun, hret.trans (by decide +kernel)⟩

end WivOS.Nvme
