/-
# The blocks of an ext2 file

An inode designates twelve blocks directly, and the rest by trees of tables. `getBlockFromFileBlockOffset` follows it
for the direct ones only (`block_lookup_iff`): the branch for the first tree is never taken, the second is taken for
the third, and of every number of a table two bytes of four are read.
-/
import WivOS.Fs.Ext2

namespace WivOS.Ext2

open ByteMem Checked Function List Option

def tableEntry (c : CustomData) (image : Mem) (block i : ℕ) : ℕ := load image (block * c.blockSize + 4 * i) 4

def CustomData.fanout (c : CustomData) : ℕ := c.blockSize / 4

def designated (c : CustomData) (image : Mem) (inode : InodeData) (index : ℕ) : ℕ :=
  let n := c.fanout
  if index < 12 then inode.directBlockPointer index
  else if index < 12 + n then tableEntry c image inode.singlyIndirectBlockPointer (index - 12)
  else if index < 12 + n + n ^ 2 then
    let rest := index - (12 + n)
    tableEntry c image (tableEntry c image inode.doublyIndirectBlockPointer (rest / n)) (rest % n)
  else
    let rest := index - (12 + n + n ^ 2)
    tableEntry c image
      (tableEntry c image (tableEntry c image inode.triplyIndirectBlockPointer (rest / n ^ 2)) (rest / n % n))
        (rest % n)

variable {b : BitVec 8}

section

variable {c : CustomData} {image : Mem} {u : Uninit} {inode : InodeData} {index : ℕ}

section

variable (hc : c.Sized)
include hc

lemma CustomData.Sized.blockSize_quarters :
    c.blockSize = 4 * 2 ^ (8 + c.superblock.log2BlockSize) := by
  rw [hc.blockSize, Nat.add_right_comm 8 2, Nat.pow_add _ _ 2, Nat.mul_comm]

lemma CustomData.Sized.fanout : c.fanout = 2 ^ (8 + c.superblock.log2BlockSize) := by
  rw [CustomData.fanout, hc.blockSize_quarters, Nat.mul_div_cancel_left _ (by decide)]

lemma CustomData.Sized.fanout_bounds : 0 < c.fanout ∧ 4 * c.fanout = c.blockSize := by
  rw [hc.fanout, hc.blockSize_quarters]
  exact ⟨Nat.two_pow_pos _, rfl⟩

lemma CustomData.Sized.mod_fanout (x : ℕ) : x % c.blockSize % c.fanout = x % c.fanout :=
  Nat.mod_mod_of_dvd x ⟨4, by rw [Nat.mul_comm]; exact hc.fanout_bounds.2.symm⟩

lemma CustomData.Sized.maskCommon : c.maskCommon = some (c.fanout - 1) := by
  have hlog := hc.log_lt
  have hpow : 2 ^ (8 + c.superblock.log2BlockSize) ≤ 2 ^ 29 := Nat.pow_le_pow_right (by decide) (by omega)
  have hpos : 0 < 2 ^ (8 + c.superblock.log2BlockSize) := Nat.two_pow_pos _
  rw [CustomData.maskCommon, Nat.mod_eq_of_lt (by omega : 8 + c.superblock.log2BlockSize < 2 ^ 32),
    shl_of_lt (by omega), map_some, hc.fanout]
  generalize 2 ^ (8 + c.superblock.log2BlockSize) = n at *
  have hmod : 0xFFFFFFFF * n % 2 ^ 32 = 2 ^ 32 - n := by omega
  rw [hmod]
  congr 1
  omega

lemma CustomData.Sized.shr8 (x : ℕ) :
    shr 64 x ((8 + c.superblock.log2BlockSize) % 2 ^ 32) = some (x / 2 ^ (8 + c.superblock.log2BlockSize)) := by
  have hlog := hc.log_lt
  rw [Nat.mod_eq_of_lt (by omega : 8 + c.superblock.log2BlockSize < 2 ^ 32), shr_of_lt (by omega)]

lemma CustomData.Sized.shr18 (x : ℕ) :
    shr 64 x ((18 + c.superblock.log2BlockSize) % 2 ^ 32) = some (x / 2 ^ (18 + c.superblock.log2BlockSize)) := by
  have hlog := hc.log_lt
  rw [Nat.mod_eq_of_lt (by omega : 18 + c.superblock.log2BlockSize < 2 ^ 32), shr_of_lt (by omega)]

lemma CustomData.Sized.readHalf (image : Mem) (block offset : ℕ) (before : BitVec 32) :
    ∃ x, c.readHalf image block offset before = some x := by
  obtain ⟨address, haddress⟩ := hc.blockAddress_some block offset
  rw [CustomData.readHalf, haddress]
  exact ⟨_, rfl⟩

lemma getBlock_some (image : Mem) (u : Uninit) (inode : InodeData) (index : ℕ) :
    ∃ block, getBlockFromFileBlockOffset c image u inode index = some block := by
  rw [getBlockFromFileBlockOffset, hc.maskCommon, bind_eq_bind, bind_some]
  split
  · exact ⟨_, rfl⟩
  · -- the branch of the repeated condition is gone
    split
    · simp only [hc.shr8, bind_some]
      obtain ⟨singly, hsingly⟩ := hc.readHalf image inode.doublyIndirectBlockPointer _ u.singlyBlock
      rw [hsingly]
      exact hc.readHalf ..
    · simp only [hc.shr8, hc.shr18, bind_some]
      obtain ⟨doubly, hdoubly⟩ := hc.readHalf image inode.doublyIndirectBlockPointer _ u.doublyBlock
      rw [hdoubly]
      obtain ⟨singly, hsingly⟩ := hc.readHalf image doubly _ u.singlyBlock
      rw [bind_some, hsingly]
      exact hc.readHalf ..

lemma getBlock_direct (h : index < 12) :
    getBlockFromFileBlockOffset c image u inode index = some (inode.directBlockPointer index) := by
  rw [getBlockFromFileBlockOffset, hc.maskCommon, hc.singly, bind_eq_bind, bind_some, if_pos h]
  rfl

end

/-! ### Uniform images -/

/-- Behind the superblock, every byte is `b`. -/
def Uniform (image : Mem) (b : BitVec 8) : Prop := ∀ x, 2048 ≤ x → image x = b

lemma load_uniform (h : Uniform image b) {a : ℕ} (ha : 2048 ≤ a) (k : ℕ) :
    load image a k = ofBytes (List.replicate k b) := by
  have hread : read image a k = List.replicate k b := by
    refine eq_replicate_iff.mpr ⟨length_read, fun x hx => ?_⟩
    obtain ⟨i, -, rfl⟩ := mem_map.mp hx
    exact h (a + i) (by omega)
  rw [load, hread]

lemma tableEntry_uniform (hc : c.Sized) (h : Uniform image b) {block : ℕ} (hblock : 2 ≤ block) (i : ℕ) :
    tableEntry c image block i = ofBytes [b, b, b, b] := by
  have hsize := hc.blockSize_bounds.1
  have hmul : 2 * 1024 ≤ block * c.blockSize := Nat.mul_le_mul hblock hsize
  exact load_uniform h (by omega) 4

lemma readHalf_uniform (hc : c.Sized) (h : Uniform image b) {block offset : ℕ} (hblock : 2 ≤ block)
    (hlt : block < 2 ^ 32) (hoffset : offset < 2 ^ 32) (before : BitVec 32) :
    c.readHalf image block offset before = some (before.toNat / 2 ^ 16 * 2 ^ 16 + ofBytes [b, b]) := by
  have hsize := hc.blockSize_bounds.1
  have hmul : 2 * 1024 ≤ block * c.blockSize := Nat.mul_le_mul hblock hsize
  rw [CustomData.readHalf, hc.blockAddress hlt hoffset, map_some, load_uniform h (by omega)]
  rfl

lemma ofBytes_pair_lt (b : BitVec 8) : ofBytes [b, b] < 2 ^ 16 := by
  have hb := b.isLt
  simp only [ofBytes]
  omega

structure Indirect (inode : InodeData) : Prop where
  singly : 2 ≤ inode.singlyIndirectBlockPointer
  doubly : 2 ≤ inode.doublyIndirectBlockPointer
  triply : 2 ≤ inode.triplyIndirectBlockPointer

lemma designated_uniform (hc : c.Sized) (h : Uniform image b) (hb : 2 ≤ ofBytes [b, b, b, b])
    (hinode : Indirect inode) (hindex : 12 ≤ index) : designated c image inode index = ofBytes [b, b, b, b] := by
  unfold designated
  dsimp only
  rw [if_neg (by omega)]
  split
  · exact tableEntry_uniform hc h hinode.singly _
  · split
    · rw [tableEntry_uniform hc h hinode.doubly, tableEntry_uniform hc h hb]
    · rw [tableEntry_uniform hc h hinode.triply, tableEntry_uniform hc h hb, tableEntry_uniform hc h hb]

/-- **The code on a uniform image**: the upper half of the result is not read. -/
lemma getBlock_uniform (hc : c.Sized) (h : Uniform image b) (hb : 2 ≤ ofBytes [b, b]) (hinode : Indirect inode)
    (hindex : 12 ≤ index) : getBlockFromFileBlockOffset c image u inode index =
      some (u.result.toNat / 2 ^ 16 * 2 ^ 16 + ofBytes [b, b]) := by
  have hdoubly : inode.doublyIndirectBlockPointer < 2 ^ 32 := load_lt (k := 4)
  have hhalf := ofBytes_pair_lt b
  have hstep : ∀ (before : BitVec 32), 2 ≤ before.toNat / 2 ^ 16 * 2 ^ 16 + ofBytes [b, b] ∧
      before.toNat / 2 ^ 16 * 2 ^ 16 + ofBytes [b, b] < 2 ^ 32 := fun before => by
    have := before.isLt
    omega
  have hmod : ∀ x, x % 2 ^ 32 < 2 ^ 32 := fun x => Nat.mod_lt _ (by decide)
  rw [getBlockFromFileBlockOffset, hc.maskCommon, hc.singly, bind_eq_bind, bind_some, if_neg (by omega),
    if_neg (by omega)]
  split
  · simp only [hc.shr8, bind_some, readHalf_uniform hc h hinode.doubly hdoubly (hmod _)]
    exact readHalf_uniform hc h (hstep _).1 (hstep _).2 (hmod _) _
  · simp only [hc.shr8, hc.shr18, bind_some, readHalf_uniform hc h hinode.doubly hdoubly (hmod _),
      readHalf_uniform hc h (hstep _).1 (hstep _).2 (hmod _)]

end

/-! ### The lookup -/

/-- The image with the superblock of another one, and `b` behind it. -/
def fillBehind (image : Mem) (b : BitVec 8) : Mem := fun x => if x < 2048 then image x else b

lemma fillBehind_mount (image : Mem) (b : BitVec 8) : ext2Mount (fillBehind image b) = ext2Mount image :=
  ext2Mount_congr fun _ hx => if_pos hx

lemma fillBehind_uniform (image : Mem) (b : BitVec 8) : Uniform (fillBehind image b) b :=
  fun _ hx => if_neg (by omega)

/-- **The lookup follows the inode** exactly for the twelve direct blocks: behind them, whatever the variables of the
call hold, there is a filesystem and an inode for which the result is another block. -/
theorem block_lookup_iff (c : CustomData) (hmount : ∃ image, ext2Mount image = some (some c))
    (hlog : c.superblock.log2BlockSize < 22) (u : Uninit) (index : ℕ) :
    (∀ image, ext2Mount image = some (some c) → ∀ inode,
      getBlockFromFileBlockOffset c image u inode index = some (designated c image inode index)) ↔ index < 12 := by
  obtain ⟨image, himage⟩ := hmount
  have hc := (ext2Mount_eq himage).sized hlog
  constructor
  · intro h
    by_contra hindex
    -- a byte whose double is not the upper half of the variable
    obtain ⟨b, hb, hdiff⟩ : ∃ b : BitVec 8, 2 ≤ ofBytes [b, b] ∧ u.result.toNat / 2 ^ 16 ≠ ofBytes [b, b] := by
      by_cases hhalf : u.result.toNat / 2 ^ 16 = ofBytes [1, 1]
      · exact ⟨2, by decide, by rw [hhalf]; decide⟩
      · exact ⟨1, by decide, hhalf⟩
    have hword : ofBytes [b, b, b, b] = ofBytes [b, b] * 2 ^ 16 + ofBytes [b, b] := by
      simp only [ofBytes]
      omega
    have hinode : Indirect (fun _ => 1) := ⟨by decide, by decide, by decide⟩
    have heq := h _ ((fillBehind_mount image b).trans himage) fun _ => 1
    have hlt := ofBytes_pair_lt b
    rw [getBlock_uniform hc (fillBehind_uniform image b) hb hinode (by omega),
      designated_uniform hc (fillBehind_uniform image b) (by omega) hinode (by omega), some_inj, hword] at heq
    omega
  · intro h image _ inode
    rw [getBlock_direct hc h, designated, if_pos h]

def tableInode : InodeData := fun x => if x = 88 then 20 else 0

theorem block_lookup_iff_last : getBlockFromFileBlockOffset twoGroupsData twoGroups ⟨0, 0, 0⟩ tableInode 11 =
    some (designated twoGroupsData twoGroups tableInode 11) :=
  (block_lookup_iff twoGroupsData ⟨twoGroups, by decide +kernel⟩ (by decide) ⟨0, 0, 0⟩ 11).mpr (by decide) twoGroups
    (by decide +kernel) tableInode

/-- **A wrong block.** Block 12 of the file is the first number of block 20, which is 30; the code returns 0. -/
theorem wrong_block_returned : ext2Mount (update twoGroups (20 * 1024) 30) = some (some twoGroupsData) ∧
    designated twoGroupsData (update twoGroups (20 * 1024) 30) tableInode 12 = 30 ∧
    getBlockFromFileBlockOffset twoGroupsData (update twoGroups (20 * 1024) 30) ⟨0, 0, 0⟩ tableInode 12 = some 0 :=
  ⟨by decide +kernel, by decide +kernel, by decide +kernel⟩

end WivOS.Ext2
