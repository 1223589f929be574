/-
# What mounting does not check

`ext2_mount` and `fat32_mount` check a signature and keep the numbers of the superblock and the boot sector as they
are: divisors and amounts of shifts. Nothing is divided by zero or shifted too far exactly if these are in range
(`arithmetic_safe_iff`).
-/
import WivOS.Fs.Ext2Read
import WivOS.Fs.Fat32Read

namespace WivOS

open ByteMem Checked Loop Option

/-! ### ext2 -/

namespace Ext2

structure CustomData.Computes (c : CustomData) : Prop where
  inode : ∀ inode, (getInodeAddrInfo c inode).isSome = true
  block : ∀ image u inode index, (getBlockFromFileBlockOffset c image u inode index).isSome = true
  read : ∀ image u inode offset size buffer, offset < 2 ^ 64 → size < 2 ^ 64 →
    (ext2Read c image u inode offset size buffer).isSome = true

/-- Neither mounting the image nor a later call fails. -/
structure Safe (image : Mem) : Prop where
  mount : (ext2Mount image).isSome = true
  later : ∀ c, ext2Mount image = some (some c) → c.Computes

/-- The numbers of a superblock that can be computed with. If the numbers of groups differ, the filesystem is not
mounted and the size of a block is not used. -/
structure InRange (b : Superblock) : Prop where
  blockSize : b.log2BlockSize < 32
  fragmentSize : b.log2FragmentSize < 32 ∨ 2 ^ 32 - 31 ≤ b.log2FragmentSize
  blocksPerGroup : b.blocksPerGroup ≠ 0
  inodesPerGroup : b.inodesPerGroup ≠ 0
  mounted : groups b.blocks b.blocksPerGroup = groups b.inodes b.inodesPerGroup → b.log2BlockSize < 22

lemma fragmentSizeOf_some {log2 size : ℕ} (h : fragmentSizeOf log2 = some size) : log2 < 32 ∨ 2 ^ 32 - 31 ≤ log2 := by
  unfold fragmentSizeOf at h
  split at h
  · have hlt := lt_of_shr h
    omega
  · exact .inl (lt_of_shl h)

lemma fragmentSizeOf_of_range {log2 : ℕ} (hlt : log2 < 2 ^ 32) (h : log2 < 32 ∨ 2 ^ 32 - 31 ≤ log2) :
    ∃ size, fragmentSizeOf log2 = some size := by
  unfold fragmentSizeOf
  split
  · rw [shr_of_lt (by omega)]
    exact ⟨_, rfl⟩
  · rw [shl_of_lt (by omega)]
    exact ⟨_, rfl⟩

lemma groups_some (total : ℕ) {perGroup : ℕ} (h : perGroup ≠ 0) : ∃ n, groups total perGroup = some n := by
  rw [groups, div_of_ne h, mod_of_ne h]
  exact ⟨_, rfl⟩

lemma CustomData.Sized.computes {c : CustomData} (hc : c.Sized) : c.Computes := by
  refine ⟨fun inode => ?_, fun image u inode index => ?_, fun image u inode offset size buffer hoffset hsize => ?_⟩
  · exact isSome_iff_exists.mpr (getInodeAddrInfo_some hc inode)
  · exact isSome_iff_exists.mpr (getBlock_some hc image u inode index)
  · exact isSome_iff_exists.mpr (ext2Read_some hc hoffset hsize buffer)

lemma blockSize_zero {log2 : ℕ} (h : 22 ≤ log2) : 0x400 * 2 ^ log2 % 2 ^ 32 = 0 := by
  obtain ⟨k, rfl⟩ := Nat.exists_eq_add_of_le h
  have hpow : 0x400 * 2 ^ (22 + k) = 2 ^ 32 * 2 ^ k := by
    rw [Nat.pow_add, ← Nat.mul_assoc, (by decide : 0x400 * 2 ^ 22 = 2 ^ 32)]
  rw [hpow, Nat.mul_mod_right]

/-- **Mounting and using ext2 is safe** exactly if the numbers of the superblock are in range. -/
lemma safe_iff (image : Mem) : Safe image ↔ (load image 0x438 2 = 0xEF53 → InRange (superblockOf image)) := by
  constructor
  · intro h hsignature
    obtain ⟨result, hresult⟩ := isSome_iff_exists.mp h.mount
    have hmount := hresult
    rw [ext2Mount, if_neg (not_not.mpr hsignature)] at hresult
    obtain ⟨blockSize, hblock, hresult⟩ := bind_eq_some_iff.mp hresult
    obtain ⟨fragmentSize, hfragment, hresult⟩ := bind_eq_some_iff.mp hresult
    obtain ⟨groupCount0, hcount0, hresult⟩ := bind_eq_some_iff.mp hresult
    obtain ⟨groupCount1, hcount1, hresult⟩ := bind_eq_some_iff.mp hresult
    refine ⟨lt_of_shl hblock, fragmentSizeOf_some hfragment, (groups_eq hcount0).1, (groups_eq hcount1).1,
      fun hagree => ?_⟩
    rw [hcount0, hcount1, some_inj] at hagree
    rw [if_neg (not_not.mpr hagree.symm)] at hresult
    cases hresult
    -- the first inode divides by the size of a block
    have hinode := (h.later _ hmount).inode 1
    by_contra hlog
    have hzero : blockSize = 0 := by
      rw [shl_of_lt (lt_of_shl hblock), blockSize_zero (Nat.not_lt.mp hlog)] at hblock
      exact (some.inj hblock).symm
    rw [hzero, getInodeAddrInfo, div_of_ne (groups_eq hcount1).1, mod_of_ne (groups_eq hcount1).1] at hinode
    cases hinode
  · intro h
    by_cases hsignature : load image 0x438 2 = 0xEF53
    · have hrange := h hsignature
      refine ⟨?_, fun c hc => ?_⟩
      · have hlt : (superblockOf image).log2FragmentSize < 2 ^ 32 := load_lt (k := 4)
        obtain ⟨fragmentSize, hfragment⟩ := fragmentSizeOf_of_range hlt hrange.fragmentSize
        obtain ⟨groupCount0, hcount0⟩ := groups_some (superblockOf image).blocks hrange.blocksPerGroup
        obtain ⟨groupCount1, hcount1⟩ := groups_some (superblockOf image).inodes hrange.inodesPerGroup
        rw [ext2Mount, if_neg (not_not.mpr hsignature)]
        simp only [shl_of_lt hrange.blockSize, hfragment, hcount0, hcount1, bind_eq_bind, bind_some]
        split <;> rfl
      · have hm := ext2Mount_eq hc
        have hlog := hrange.mounted (by rw [← hm.superblock, hm.blockGroups, hm.inodeGroups])
        rw [← hm.superblock] at hlog
        exact (hm.sized hlog).computes
    · have hnone : ext2Mount image = some none := by rw [ext2Mount, if_pos hsignature]
      refine ⟨by rw [hnone]; rfl, fun c hc => ?_⟩
      rw [hnone] at hc
      cases hc

end Ext2

/-! ### FAT32 -/

namespace Fat32

/-- No read of a file on the mounted filesystem fails. -/
def Safe (image : Mem) : Prop := ∀ c, fat32Mount image = some c → ∀ image' e offset size buffer,
  offset < 2 ^ 64 → size < 2 ^ 64 → (fat32Read c image' e offset size buffer).isSome = true

lemma fat32Read_some {c : CustomData} (hc : c.clusterSize ≠ 0) (image : Mem) (e : Entry) (offset size : ℕ)
    (buffer : Mem) : ∃ r, fat32Read c image e offset size buffer = some r := by
  have hround : ∀ s : ReadState, True → (∃ r, readRound c image (readSize e offset size) s = .done r ∧ True) ∨
      ∃ s', readRound c image (readSize e offset size) s = .next s' ∧ True ∧
        readSize e offset size - s'.index < readSize e offset size - s.index := by
    intro s _
    have hmod : s.savedOffset % c.clusterSize < c.clusterSize := Nat.mod_lt _ (Nat.pos_of_ne_zero hc)
    by_cases hleft : s.index < readSize e offset size
    · simp only [readRound, if_pos hleft]
      split <;> exact .inr ⟨_, rfl, trivial, by dsimp only; omega⟩
    · rw [readRound, if_neg hleft]
      exact .inl ⟨_, rfl, trivial⟩
  rw [fat32Read, if_neg hc]
  dsimp only
  obtain ⟨r, hr, -⟩ := run_of_measure _ hround (readSize e offset size + 1)
    ⟨(fun x => (c.volume image).getNextCluster (x % 2 ^ 32))^[offset / c.clusterSize] (startCluster e), offset, 0,
      buffer⟩ trivial
    (Nat.lt_succ_self _)
  rw [hr]
  exact ⟨_, rfl⟩

/-- **Using FAT32 is safe** exactly if a cluster has sectors. -/
lemma safe_iff (image : Mem) : Safe image ↔ (load image 0x1FE 2 = 0xAA55 → load image 0x0D 1 ≠ 0) := by
  constructor
  · intro h hsignature hzero
    obtain ⟨c, hc, hsectors⟩ : ∃ c, fat32Mount image = some c ∧ c.sectorsPerCluster = load image 0x0D 1 :=
      ⟨_, if_neg (not_not.mpr hsignature), rfl⟩
    have hcluster : c.clusterSize = 0 := by rw [CustomData.clusterSize, hsectors, hzero, Nat.zero_mul]
    have hread := h c hc image (fun _ => 0) 0 0 (fun _ => 0) (by decide) (by decide)
    rw [fat32Read, if_pos hcluster] at hread
    cases hread
  · intro h c hc image' e offset size buffer _ _
    rw [fat32Mount] at hc
    split at hc
    · cases hc
    · rename_i hsignature
      cases hc
      have hsectors := h (not_not.mp hsignature)
      exact isSome_iff_exists.mpr
        (fat32Read_some (Nat.mul_ne_zero hsectors (by decide)) image' e offset size buffer)

end Fat32

/-- **No division by zero and no shift too far**, in the mount of an image and in all that is computed with its numbers
later, exactly if these are in range. -/
theorem arithmetic_safe_iff (image : Mem) :
    (Ext2.Safe image ↔ (load image 0x438 2 = 0xEF53 → Ext2.InRange (Ext2.superblockOf image))) ∧
    (Fat32.Safe image ↔ (load image 0x1FE 2 = 0xAA55 → load image 0x0D 1 ≠ 0)) :=
  ⟨Ext2.safe_iff image, Fat32.safe_iff image⟩

def bareSignatures : Mem := fun x =>
  match x with
  | 0x1FE => 0x55
  | 0x1FF => 0xAA
  | 0x438 => 0x53
  | 0x439 => 0xEF
  | _ => 0

/-- **A signature is not enough.** With the signatures and zeros, `ext2_mount` divides by the number of blocks in a
group, and `fat32_read` on the mounted FAT32 by the size of a cluster. -/
theorem signature_not_enough : load bareSignatures 0x438 2 = 0xEF53 ∧ load bareSignatures 0x1FE 2 = 0xAA55 ∧
    Ext2.ext2Mount bareSignatures = none ∧ (Fat32.fat32Mount bareSignatures).isSome = true ∧
      ¬ Ext2.Safe bareSignatures ∧ ¬ Fat32.Safe bareSignatures := by
  refine ⟨by decide, by decide, by decide +kernel, by decide, fun h => ?_, fun h => ?_⟩
  · exact ((Ext2.safe_iff bareSignatures).mp h (by decide)).blocksPerGroup (by decide)
  · exact (Fat32.safe_iff bareSignatures).mp h (by decide) (by decide)

end WivOS
