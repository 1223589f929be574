/-
# The ext2 filesystem

`ext2_mount`, `get_inode_addr_info`, `ext2_read_inode_struct` and `getBlockFromFileBlockOffset` of
`kernel/fs/ext2/ext2.c`, on the bytes of an image; a division by zero or a shift by the width or more is `none`.

An inode is found if the block that the code takes for the group's descriptor starts with the number of the group's
table (`inode_read_iff`). It takes the first descriptor of block `start_block + 1` of the group itself.
-/
import WivOS.Lib.ByteMem
import WivOS.Lib.Checked

namespace WivOS.Ext2

open ByteMem Checked Option

/-! ### Mounting -/

structure Superblock where
  inodes : ℕ
  blocks : ℕ
  startBlock : ℕ
  log2BlockSize : ℕ
  log2FragmentSize : ℕ
  blocksPerGroup : ℕ
  inodesPerGroup : ℕ
  majorVersion : ℕ
deriving DecidableEq

def superblockOf (image : Mem) : Superblock where
  inodes := load image 0x400 4
  blocks := load image 0x404 4
  startBlock := load image 0x414 4
  log2BlockSize := load image 0x418 4
  log2FragmentSize := load image 0x41C 4
  blocksPerGroup := load image 0x420 4
  inodesPerGroup := load image 0x428 4
  majorVersion := load image 0x44C 4

/-- `ext2fs_custom_data_t`; of the extended superblock, `inode_structure_size`. -/
structure CustomData where
  superblock : Superblock
  inodeStructureSize : ℕ
  blockSize : ℕ
  fragmentSize : ℕ
  groupCount : ℕ
  singlyStartBlockIndex : ℕ
  doublyStartBlockIndex : ℕ
  triplyStartBlockIndex : ℕ
deriving DecidableEq

def groups (total perGroup : ℕ) : Option ℕ := do
  let count ← div total perGroup
  let rest ← mod total perGroup
  return if rest ≠ 0 then count + 1 else count

/-- `fragmentSize`. The logarithm is an `int32_t`. -/
def fragmentSizeOf (log2 : ℕ) : Option ℕ :=
  if 2 ^ 31 ≤ log2 then shr 32 0x400 (2 ^ 32 - log2) else shl 32 0x400 log2

def inodeStructureSizeOf (image : Mem) : ℕ := if load image 0x44C 4 ≥ 1 then load image 0x458 2 else 128

/-- `ext2_mount`: `some none` if the signature is wrong or the numbers of groups differ. -/
def ext2Mount (image : Mem) : Option (Option CustomData) :=
  if load image 0x438 2 ≠ 0xEF53 then some none
  else do
    let superblock := superblockOf image
    let blockSize ← shl 32 0x400 superblock.log2BlockSize
    let fragmentSize ← fragmentSizeOf superblock.log2FragmentSize
    let groupCount0 ← groups superblock.blocks superblock.blocksPerGroup
    let groupCount1 ← groups superblock.inodes superblock.inodesPerGroup
    if groupCount1 ≠ groupCount0 then return none
    return some {
      superblock, blockSize, fragmentSize
      inodeStructureSize := inodeStructureSizeOf image
      groupCount := groupCount0
      singlyStartBlockIndex := 12
      doublyStartBlockIndex := (12 + blockSize / 4) % 2 ^ 32
      triplyStartBlockIndex := ((12 + blockSize / 4) % 2 ^ 32 + blockSize / 4 * (blockSize / 4)) % 2 ^ 32 }

/-! ### Inodes -/

/-- Where `read_device_block_offset` reads; with offset 0, `read_device_block`. -/
def CustomData.blockAddress (c : CustomData) (block offset : ℕ) : Option ℕ :=
  (shl 64 block ((10 + c.superblock.log2BlockSize) % 2 ^ 32)).map fun address => (address + offset) % 2 ^ 64

structure InodeAddrInfo where
  blockGroup : ℕ
  inodeTableBlockOffset : ℕ
  inodeBlockAddressOffset : ℕ

def getInodeAddrInfo (c : CustomData) (inode : ℕ) : Option InodeAddrInfo := do
  let number := (inode + 2 ^ 32 - 1) % 2 ^ 32
  let blockGroup ← div number c.superblock.inodesPerGroup
  let index ← mod number c.superblock.inodesPerGroup
  let inodeTableBlockOffset ← div (index * c.inodeStructureSize % 2 ^ 32) c.blockSize
  let inodeBlockAddressOffset ← mod (index * c.inodeStructureSize % 2 ^ 32) c.blockSize
  return { blockGroup, inodeTableBlockOffset, inodeBlockAddressOffset }

structure DeviceRead where
  address : ℕ
  size : ℕ
deriving DecidableEq

/-- The read of `ext2_read_inode_struct` that stores the inode. `inode_table_start_block` is at offset 8 of the
descriptor. -/
def inodeRead (c : CustomData) (image : Mem) (inode : ℕ) : Option DeviceRead := do
  let info ← getInodeAddrInfo c inode
  let blockNumber := (info.blockGroup * c.superblock.blocksPerGroup + c.superblock.startBlock + 1) % 2 ^ 32
  let groupDescriptor ← c.blockAddress blockNumber 0
  let sizeToRead := if c.inodeStructureSize > 128 then 128 else c.inodeStructureSize
  let blockNumber := (load image (groupDescriptor + 8) 4 + info.inodeTableBlockOffset) % 2 ^ 32
  let address ← c.blockAddress blockNumber info.inodeBlockAddressOffset
  return ⟨address, sizeToRead⟩

abbrev InodeData := Mem

def ext2ReadInodeStruct (c : CustomData) (image : Mem) (inode : ℕ) (out : InodeData) : Option InodeData :=
  (inodeRead c image inode).map fun r => write out 0 (read image r.address r.size)

/-! ### The blocks of a file -/

namespace InodeData

def typeAndPerms (inode : InodeData) : ℕ := load inode 0 2

def sizeLo (inode : InodeData) : ℕ := load inode 4 4

def directBlockPointer (inode : InodeData) (i : ℕ) : ℕ := load inode (40 + 4 * i) 4

def singlyIndirectBlockPointer (inode : InodeData) : ℕ := load inode 88 4

def doublyIndirectBlockPointer (inode : InodeData) : ℕ := load inode 92 4

def triplyIndirectBlockPointer (inode : InodeData) : ℕ := load inode 96 4

end InodeData

/-- What the locals `doublyBlock`, `singlyBlock` and `result` of a call hold before they are set. -/
structure Uninit where
  doublyBlock : BitVec 32
  singlyBlock : BitVec 32
  result : BitVec 32

/-- A number of 32 bits of which a read of the device sets the lower two bytes. -/
def CustomData.readHalf (c : CustomData) (image : Mem) (block offset : ℕ) (before : BitVec 32) : Option ℕ :=
  (c.blockAddress block offset).map fun address => before.toNat / 2 ^ 16 * 2 ^ 16 + load image address 2

def CustomData.maskCommon (c : CustomData) : Option ℕ :=
  (shl 32 0xFFFFFFFF ((8 + c.superblock.log2BlockSize) % 2 ^ 32)).map fun x => 2 ^ 32 - 1 - x

/-- `getBlockFromFileBlockOffset`. The second condition is the first one again. -/
def getBlockFromFileBlockOffset (c : CustomData) (image : Mem) (u : Uninit) (inode : InodeData) (blockOffset : ℕ) :
    Option ℕ := do
  let maskCommon ← c.maskCommon
  if blockOffset < c.singlyStartBlockIndex then
    return inode.directBlockPointer blockOffset
  else if blockOffset < c.singlyStartBlockIndex then
    let blockOffset := (blockOffset + 2 ^ 64 - c.singlyStartBlockIndex) % 2 ^ 64 &&& maskCommon
    c.readHalf image inode.singlyIndirectBlockPointer (blockOffset * 4 % 2 ^ 64) u.result
  else if blockOffset < c.doublyStartBlockIndex then
    let blockOffset := (blockOffset + 2 ^ 64 - c.doublyStartBlockIndex) % 2 ^ 64
    let doublyOffset := (← shr 64 blockOffset ((8 + c.superblock.log2BlockSize) % 2 ^ 32)) &&& maskCommon
    let singlyOffset := blockOffset &&& maskCommon
    let singlyBlock ← c.readHalf image inode.doublyIndirectBlockPointer (doublyOffset * 4 % 2 ^ 32) u.singlyBlock
    c.readHalf image singlyBlock (singlyOffset * 4 % 2 ^ 32) u.result
  else
    let blockOffset := (blockOffset + 2 ^ 64 - c.triplyStartBlockIndex) % 2 ^ 64
    let triplyOffset := (← shr 64 blockOffset ((18 + c.superblock.log2BlockSize) % 2 ^ 32)) &&& maskCommon
    let doublyOffset := (← shr 64 blockOffset ((8 + c.superblock.log2BlockSize) % 2 ^ 32)) &&& maskCommon
    let singlyOffset := blockOffset &&& maskCommon
    let doublyBlock ← c.readHalf image inode.doublyIndirectBlockPointer (triplyOffset * 4 % 2 ^ 32) u.doublyBlock
    let singlyBlock ← c.readHalf image doublyBlock (doublyOffset * 4 % 2 ^ 32) u.singlyBlock
    c.readHalf image singlyBlock (singlyOffset * 4 % 2 ^ 32) u.result

/-! ### What is mounted -/

structure Mounted (image : Mem) (c : CustomData) : Prop where
  signature : load image 0x438 2 = 0xEF53
  superblock : c.superblock = superblockOf image
  inodeStructureSize : c.inodeStructureSize = inodeStructureSizeOf image
  blockSize : shl 32 0x400 c.superblock.log2BlockSize = some c.blockSize
  fragmentSize : fragmentSizeOf c.superblock.log2FragmentSize = some c.fragmentSize
  blockGroups : groups c.superblock.blocks c.superblock.blocksPerGroup = some c.groupCount
  inodeGroups : groups c.superblock.inodes c.superblock.inodesPerGroup = some c.groupCount
  singly : c.singlyStartBlockIndex = 12
  doubly : c.doublyStartBlockIndex = (12 + c.blockSize / 4) % 2 ^ 32
  triply : c.triplyStartBlockIndex = (c.doublyStartBlockIndex + c.blockSize / 4 * (c.blockSize / 4)) % 2 ^ 32

variable {image : Mem} {total perGroup n : ℕ}

lemma ext2Mount_eq {c : CustomData} (h : ext2Mount image = some (some c)) : Mounted image c := by
  unfold ext2Mount at h
  split at h
  · cases h
  · rename_i hsignature
    obtain ⟨blockSize, hblock, h⟩ := bind_eq_some_iff.mp h
    obtain ⟨fragmentSize, hfragment, h⟩ := bind_eq_some_iff.mp h
    obtain ⟨groupCount0, hcount0, h⟩ := bind_eq_some_iff.mp h
    obtain ⟨groupCount1, hcount1, h⟩ := bind_eq_some_iff.mp h
    split at h
    · cases h
    · rename_i hcount
      rw [not_not.mp hcount] at hcount1
      cases h
      exact ⟨not_not.mp hsignature, rfl, rfl, hblock, hfragment, hcount0, hcount1, rfl, rfl, rfl⟩

lemma ext2Mount_congr {image' : Mem} (h : ∀ x < 2048, image' x = image x) : ext2Mount image' = ext2Mount image := by
  have hload : ∀ a k, a + k ≤ 2048 → load image' a k = load image a k := fun a k hak =>
    load_congr fun i hi => h (a + i) (by omega)
  have hsuper : superblockOf image' = superblockOf image := by
    simp only [superblockOf, hload _ _ (by decide : 0x400 + 4 ≤ 2048), hload _ _ (by decide : 0x404 + 4 ≤ 2048),
      hload _ _ (by decide : 0x414 + 4 ≤ 2048), hload _ _ (by decide : 0x418 + 4 ≤ 2048),
      hload _ _ (by decide : 0x41C + 4 ≤ 2048), hload _ _ (by decide : 0x420 + 4 ≤ 2048),
      hload _ _ (by decide : 0x428 + 4 ≤ 2048), hload _ _ (by decide : 0x44C + 4 ≤ 2048)]
  have hinode : inodeStructureSizeOf image' = inodeStructureSizeOf image := by
    simp only [inodeStructureSizeOf, hload _ _ (by decide : 0x44C + 4 ≤ 2048), hload _ _ (by decide : 0x458 + 2 ≤ 2048)]
  simp only [ext2Mount, hload _ _ (by decide : 0x438 + 2 ≤ 2048), hsuper, hinode]

/-- The numbers of a mounted filesystem with blocks of at most 2 GiB. -/
structure CustomData.Sized (c : CustomData) : Prop where
  log_lt : c.superblock.log2BlockSize < 22
  blockSize : c.blockSize = 2 ^ (10 + c.superblock.log2BlockSize)
  inodesPerGroup : c.superblock.inodesPerGroup ≠ 0
  singly : c.singlyStartBlockIndex = 12

lemma groups_eq (h : groups total perGroup = some n) :
    perGroup ≠ 0 ∧ n = if total % perGroup ≠ 0 then total / perGroup + 1 else total / perGroup := by
  by_cases hzero : perGroup = 0
  · rw [hzero] at h
    cases h
  · rw [groups, div_of_ne hzero, mod_of_ne hzero] at h
    exact ⟨hzero, (some.inj h).symm⟩

lemma Mounted.sized {c : CustomData} (h : Mounted image c) (hlog : c.superblock.log2BlockSize < 22) : c.Sized := by
  have hblock := h.blockSize
  have hpow : 2 ^ c.superblock.log2BlockSize ≤ 2 ^ 21 := Nat.pow_le_pow_right (by decide) (by omega)
  rw [shl_of_lt (by omega), Nat.mod_eq_of_lt (by omega)] at hblock
  refine ⟨hlog, ?_, (groups_eq h.inodeGroups).1, h.singly⟩
  rw [← some.inj hblock, Nat.pow_add]

section

variable {c : CustomData}

section

variable (hc : c.Sized)
include hc

lemma CustomData.Sized.blockSize_bounds : 1024 ≤ c.blockSize ∧ c.blockSize ≤ 2 ^ 31 := by
  have hlog := hc.log_lt
  rw [hc.blockSize]
  have hlow : 2 ^ 10 ≤ 2 ^ (10 + c.superblock.log2BlockSize) := Nat.pow_le_pow_right (by decide) (by omega)
  have hhigh : 2 ^ (10 + c.superblock.log2BlockSize) ≤ 2 ^ 31 := Nat.pow_le_pow_right (by decide) (by omega)
  exact ⟨hlow, hhigh⟩

lemma CustomData.Sized.blockSize_pos : 0 < c.blockSize :=
  Nat.lt_of_lt_of_le (by decide) hc.blockSize_bounds.1

lemma CustomData.Sized.blockAddress {block offset : ℕ} (hblock : block < 2 ^ 32)
    (hoffset : offset < 2 ^ 32) : c.blockAddress block offset = some (block * c.blockSize + offset) := by
  have hlog := hc.log_lt
  have hsize := hc.blockSize_bounds.2
  have hmul : block * c.blockSize ≤ 2 ^ 32 * 2 ^ 31 := Nat.mul_le_mul (Nat.le_of_lt hblock) hsize
  rw [CustomData.blockAddress, Nat.mod_eq_of_lt (by omega : 10 + c.superblock.log2BlockSize < 2 ^ 32),
    shl_of_lt (by omega), ← hc.blockSize, map_some, Nat.mod_eq_of_lt (by omega : block * c.blockSize < 2 ^ 64),
    Nat.mod_eq_of_lt (by omega)]

lemma CustomData.Sized.blockAddress_some (block offset : ℕ) :
    ∃ address, c.blockAddress block offset = some address := by
  have hlog := hc.log_lt
  rw [CustomData.blockAddress, Nat.mod_eq_of_lt (by omega : 10 + c.superblock.log2BlockSize < 2 ^ 32),
    shl_of_lt (by omega)]
  exact ⟨_, rfl⟩

lemma getInodeAddrInfo_some (inode : ℕ) : ∃ info, getInodeAddrInfo c inode = some info := by
  have hblock : c.blockSize ≠ 0 := Nat.ne_of_gt hc.blockSize_pos
  simp only [getInodeAddrInfo, div_of_ne hc.inodesPerGroup, mod_of_ne hc.inodesPerGroup, div_of_ne hblock,
    mod_of_ne hblock]
  exact ⟨_, rfl⟩

lemma ext2ReadInodeStruct_some (image : Mem) (inode : ℕ) (out : InodeData) :
    ∃ data, ext2ReadInodeStruct c image inode out = some data := by
  obtain ⟨info, hinfo⟩ := getInodeAddrInfo_some hc inode
  obtain ⟨descriptor, hdescriptor⟩ := hc.blockAddress_some
    ((info.blockGroup * c.superblock.blocksPerGroup + c.superblock.startBlock + 1) % 2 ^ 32) 0
  obtain ⟨address, haddress⟩ := hc.blockAddress_some
    ((load image (descriptor + 8) 4 + info.inodeTableBlockOffset) % 2 ^ 32) info.inodeBlockAddressOffset
  simp only [ext2ReadInodeStruct, inodeRead, hinfo, hdescriptor, haddress, bind_eq_bind, bind_some]
  exact ⟨_, rfl⟩

end

end

/-! ### Finding an inode -/

/-- The table of inodes of a group, from the group's descriptor. -/
def tableStart (c : CustomData) (image : Mem) (group : ℕ) : ℕ :=
  load image ((c.superblock.startBlock + 1) * c.blockSize + 32 * group + 8) 4

def groupOf (c : CustomData) (inode : ℕ) : ℕ := (inode - 1) / c.superblock.inodesPerGroup

def recordAddress (c : CustomData) (image : Mem) (inode : ℕ) : ℕ :=
  tableStart c image (groupOf c inode) * c.blockSize + (inode - 1) % c.superblock.inodesPerGroup * c.inodeStructureSize

/-- The number that the code takes for that of the table: that of the first descriptor of block `start_block + 1`
of the group. -/
def tableTaken (c : CustomData) (image : Mem) (group : ℕ) : ℕ :=
  load image ((group * c.superblock.blocksPerGroup + c.superblock.startBlock + 1) * c.blockSize + 8) 4

/-- A filesystem whose tables of inodes lie inside of it, with numbers of blocks and tables that fit in 32 bits. -/
structure Valid (c : CustomData) (image : Mem) : Prop where
  mounted : ext2Mount image = some (some c)
  log_lt : c.superblock.log2BlockSize < 22
  blocks_lt : c.superblock.blocks + c.superblock.startBlock + 1 < 2 ^ 32
  table_lt : c.superblock.inodesPerGroup * c.inodeStructureSize < 2 ^ 32
  tables : ∀ g < c.groupCount, tableStart c image g * c.blockSize + c.superblock.inodesPerGroup * c.inodeStructureSize ≤
    c.superblock.blocks * c.blockSize

lemma groups_bound {g : ℕ} (h : groups total perGroup = some n) (hg : g < n) : g * perGroup < total := by
  obtain ⟨hzero, rfl⟩ := groups_eq h
  have hdiv := Nat.div_add_mod total perGroup
  split at hg
  · have hle : g * perGroup ≤ total / perGroup * perGroup := Nat.mul_le_mul_right _ (by omega)
    rw [Nat.mul_comm perGroup] at hdiv
    omega
  · have hle : (g + 1) * perGroup ≤ total / perGroup * perGroup := Nat.mul_le_mul_right _ hg
    rw [Nat.mul_comm perGroup] at hdiv
    rw [Nat.add_mul, Nat.one_mul] at hle
    omega

lemma groups_covers {x : ℕ} (h : groups total perGroup = some n) (hx : x < total) : x / perGroup < n := by
  obtain ⟨hzero, rfl⟩ := groups_eq h
  have hpos : 0 < perGroup := Nat.pos_of_ne_zero hzero
  have hdiv := Nat.div_add_mod total perGroup
  split
  · exact Nat.lt_succ_of_le (Nat.div_le_div_right (Nat.le_of_lt hx))
  · rw [Nat.div_lt_iff_lt_mul hpos, Nat.mul_comm]
    omega

section

variable {c : CustomData} {image : Mem}

lemma getInodeAddrInfo_eq (hc : c.Sized) (htable : c.superblock.inodesPerGroup * c.inodeStructureSize < 2 ^ 32)
    {inode : ℕ} (hpos : 1 ≤ inode) (hlt : inode < 2 ^ 32) : getInodeAddrInfo c inode = some {
      blockGroup := groupOf c inode
      inodeTableBlockOffset := (inode - 1) % c.superblock.inodesPerGroup * c.inodeStructureSize / c.blockSize
      inodeBlockAddressOffset := (inode - 1) % c.superblock.inodesPerGroup * c.inodeStructureSize % c.blockSize } := by
  have hnumber : (inode + 2 ^ 32 - 1) % 2 ^ 32 = inode - 1 := by omega
  have hblock : c.blockSize ≠ 0 := Nat.ne_of_gt hc.blockSize_pos
  have hindex : (inode - 1) % c.superblock.inodesPerGroup < c.superblock.inodesPerGroup :=
    Nat.mod_lt _ (Nat.pos_of_ne_zero hc.inodesPerGroup)
  have hle : (inode - 1) % c.superblock.inodesPerGroup * c.inodeStructureSize ≤
      c.superblock.inodesPerGroup * c.inodeStructureSize := Nat.mul_le_mul_right _ (Nat.le_of_lt hindex)
  simp only [getInodeAddrInfo, hnumber, div_of_ne hc.inodesPerGroup, mod_of_ne hc.inodesPerGroup, div_of_ne hblock,
    mod_of_ne hblock, bind_eq_bind, bind_some, Nat.mod_eq_of_lt (Nat.lt_of_le_of_lt hle htable)]
  rfl

/-- **What is read for an inode**: the record of the table that the code takes. -/
lemma inodeRead_eq (h : Valid c image) {inode : ℕ} (hpos : 1 ≤ inode) (hle : inode ≤ c.superblock.inodes) :
    inodeRead c image inode = some {
      address := (tableTaken c image (groupOf c inode) +
          (inode - 1) % c.superblock.inodesPerGroup * c.inodeStructureSize / c.blockSize) % 2 ^ 32 * c.blockSize +
        (inode - 1) % c.superblock.inodesPerGroup * c.inodeStructureSize % c.blockSize
      size := min c.inodeStructureSize 128 } := by
  have hm := ext2Mount_eq h.mounted
  have hc := hm.sized h.log_lt
  have hsize := hc.blockSize_bounds
  have hinodes : c.superblock.inodes < 2 ^ 32 := by
    rw [hm.superblock]
    exact load_lt (k := 4)
  have hgroup : groupOf c inode * c.superblock.blocksPerGroup < c.superblock.blocks :=
    groups_bound hm.blockGroups (groups_covers hm.inodeGroups (by omega))
  have hblocks := h.blocks_lt
  have hrest : (inode - 1) % c.superblock.inodesPerGroup * c.inodeStructureSize % c.blockSize < c.blockSize :=
    Nat.mod_lt _ (by omega)
  have hnumber : (groupOf c inode * c.superblock.blocksPerGroup + c.superblock.startBlock + 1) % 2 ^ 32 =
      groupOf c inode * c.superblock.blocksPerGroup + c.superblock.startBlock + 1 := Nat.mod_eq_of_lt (by omega)
  have hdescriptor := hc.blockAddress (Nat.lt_of_le_of_lt (by omega) hblocks :
    groupOf c inode * c.superblock.blocksPerGroup + c.superblock.startBlock + 1 < 2 ^ 32) (by decide : 0 < 2 ^ 32)
  have hmin : (if c.inodeStructureSize > 128 then 128 else c.inodeStructureSize) = min c.inodeStructureSize 128 := by
    split <;> omega
  simp only [inodeRead, getInodeAddrInfo_eq hc h.table_lt hpos (by omega), bind_eq_bind, bind_some,
    hnumber, hdescriptor, hc.blockAddress (Nat.mod_lt _ (by decide)) (Nat.lt_of_lt_of_le hrest (by omega)), hmin,
    Nat.add_zero]
  rfl

/-- An address in blocks of size `B` is found from a start block, and the offset split into blocks and a rest, only if
it is the right start block. -/
lemma block_and_rest {B start start' offset blocks : ℕ} (hB : 0 < B) (hstart' : start' < 2 ^ 32)
    (hblocks : blocks < 2 ^ 32) (hinside : start * B + offset ≤ blocks * B) :
    (start' + offset / B) % 2 ^ 32 * B + offset % B = start * B + offset ↔ start' = start := by
  have hsplit : start * B + offset = (start + offset / B) * B + offset % B := by
    have hdiv := Nat.div_add_mod offset B
    rw [Nat.mul_comm] at hdiv
    rw [Nat.add_mul]
    omega
  have hle : start + offset / B ≤ blocks := Nat.le_of_mul_le_mul_right (by omega : _ * B ≤ blocks * B) hB
  rw [hsplit, Nat.add_right_cancel_iff, Nat.mul_left_inj (by omega)]
  generalize offset / B = q at hle
  omega

/-- **The inode is read from its record** exactly if the block that the code looks into starts with the number of the
group's table of inodes, which it does for group 0. -/
theorem inode_read_iff (h : Valid c image) (inode : ℕ) (hpos : 1 ≤ inode) (hle : inode ≤ c.superblock.inodes) :
    inodeRead c image inode = some ⟨recordAddress c image inode, min c.inodeStructureSize 128⟩ ↔
      tableTaken c image (groupOf c inode) = tableStart c image (groupOf c inode) := by
  have hm := ext2Mount_eq h.mounted
  have hc := hm.sized h.log_lt
  have hsize := hc.blockSize_bounds
  have htable := h.tables _ (groups_covers hm.inodeGroups (by omega : inode - 1 < c.superblock.inodes))
  have hblocks : c.superblock.blocks < 2 ^ 32 := by have := h.blocks_lt; omega
  have hindex : (inode - 1) % c.superblock.inodesPerGroup < c.superblock.inodesPerGroup :=
    Nat.mod_lt _ (Nat.pos_of_ne_zero hc.inodesPerGroup)
  have hrecord : (inode - 1) % c.superblock.inodesPerGroup * c.inodeStructureSize ≤
      c.superblock.inodesPerGroup * c.inodeStructureSize := Nat.mul_le_mul_right _ (Nat.le_of_lt hindex)
  rw [inodeRead_eq h hpos hle, recordAddress, some_inj, DeviceRead.mk.injEq, and_iff_left rfl]
  exact block_and_rest (by omega) (load_lt (k := 4)) hblocks (Nat.le_trans (Nat.add_le_add_left hrecord _) htable)

end

/-- A filesystem with two groups of eight inodes. The tables of inodes are in blocks 5 and 8200; block 8194, in the
second group, holds the copy of the descriptors of block 2. -/
def twoGroups : Mem := fun x =>
  match x with
  | 0x400 => 16
  | 0x405 => 0x40
  | 0x414 => 1
  | 0x421 => 0x20
  | 0x428 => 8
  | 0x438 => 0x53
  | 0x439 => 0xEF
  | 2056 | 8390664 => 5
  | 2088 | 8390696 => 0x08
  | 2089 | 8390697 => 0x20
  | _ => 0

def twoGroupsData : CustomData where
  superblock := ⟨16, 16384, 1, 0, 0, 8192, 8, 0⟩
  inodeStructureSize := 128
  blockSize := 1024
  fragmentSize := 1024
  groupCount := 2
  singlyStartBlockIndex := 12
  doublyStartBlockIndex := 268
  triplyStartBlockIndex := 65804

lemma valid_twoGroups : Valid twoGroupsData twoGroups :=
  ⟨by decide +kernel, by decide, by decide, by decide, by decide +kernel⟩

theorem inode_read_iff_first_group : inodeRead twoGroupsData twoGroups 3 = some ⟨5 * 1024 + 2 * 128, 128⟩ :=
  (inode_read_iff valid_twoGroups 3 (by decide) (by decide)).mpr (by decide +kernel)

/-- **Another inode is read.** Inode 10 is the second of group 1, in the table of block 8200; the code takes the first
descriptor of block 8194, which is that of group 0, and reads inode 2. -/
theorem other_inode_read : Valid twoGroupsData twoGroups ∧ 10 ≤ twoGroupsData.superblock.inodes ∧
    recordAddress twoGroupsData twoGroups 10 = 8200 * 1024 + 128 ∧
    inodeRead twoGroupsData twoGroups 10 = some ⟨5 * 1024 + 128, 128⟩ ∧
    inodeRead twoGroupsData twoGroups 10 = inodeRead twoGroupsData twoGroups 2 :=
  ⟨valid_twoGroups, by decide, by decide +kernel, by decide +kernel, by decide +kernel⟩

end WivOS.Ext2
