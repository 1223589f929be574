/-
# Reading an ext2 file

`ext2_read` of `kernel/fs/ext2/ext2.c`: a request that ends in the block of the node's offset is read at once, a
longer one block after block. On direct blocks a call is right exactly if nothing is requested, or the loop ends after
one round, in the first quarter of the last block (`ext2_read_iff`): the mask of the offset has two bits too few, the
short way does not advance the node, and the loop reads every block to the start of the buffer.
-/
import WivOS.Fs.Ext2Blocks
import WivOS.Lib.Loop

namespace WivOS.Ext2

open ByteMem Checked Loop Option

/-! ### The code -/

structure ReadState where
  size : ℕ
  dataToRead : ℕ
  relativeBlock : ℕ
  inBlockOffset : ℕ
  readSize : ℕ
  offset : ℕ
  buffer : Mem

structure ReadResult where
  count : ℕ
  offset : ℕ
  buffer : Mem

def ReadState.clipped (s : ReadState) (fileSize : ℕ) : ℕ :=
  if (s.offset + s.dataToRead) % 2 ^ 64 > fileSize then (fileSize + 2 ^ 64 - s.offset) % 2 ^ 64 else s.dataToRead

def ReadState.advance (s : ReadState) (blockSize dataToRead : ℕ) (bytes : List (BitVec 8)) : ReadState :=
  let size := (s.size + 2 ^ 64 - dataToRead) % 2 ^ 64
  { size
    dataToRead := if size > blockSize then blockSize else size
    relativeBlock := (s.relativeBlock + 1) % 2 ^ 32
    inBlockOffset := 0
    readSize := (s.readSize + dataToRead) % 2 ^ 64
    offset := (s.offset + dataToRead) % 2 ^ 64
    buffer := write s.buffer 0 bytes }

/-- One round of the loop. `u` is what the variables of the lookup of a block hold before it. -/
def readRound (c : CustomData) (image : Mem) (u : ℕ → Uninit) (inode : InodeData) (s : ReadState) :
    Round ReadState ReadResult :=
  if s.size = 0 then .done ⟨s.readSize, s.offset, s.buffer⟩
  else
    let dataToRead := s.clipped inode.sizeLo
    match getBlockFromFileBlockOffset c image (u s.relativeBlock) inode s.relativeBlock with
    | none => .fault
    | some readBlock =>
      if readBlock < 2 then .done ⟨2 ^ 64 - 1, s.offset, s.buffer⟩
      else match c.blockAddress readBlock s.inBlockOffset with
        | none => .fault
        | some address =>
          let s' := s.advance c.blockSize dataToRead (read image address dataToRead)
          if s'.offset ≥ inode.sizeLo then .done ⟨s'.readSize, s'.offset, s'.buffer⟩ else .next s'

/-- The way for a request that ends in the block. It computes where the file ends, but does not use it. -/
def readOne (c : CustomData) (image : Mem) (u : ℕ → Uninit) (inode : InodeData)
    (relativeBlock inBlockOffset offset size : ℕ) (buffer : Mem) : Option ReadResult := do
  let readBlock ← getBlockFromFileBlockOffset c image (u relativeBlock) inode relativeBlock
  if readBlock ≥ 2 then
    let address ← c.blockAddress readBlock inBlockOffset
    return ⟨size, offset, write buffer 0 (read image address size)⟩
  else return ⟨2 ^ 64 - 1, offset, buffer⟩

/-- `ext2_read`. A round of the loop that is not the last one reads at least one byte. -/
def ext2Read (c : CustomData) (image : Mem) (u : ℕ → Uninit) (inode : InodeData) (offset size : ℕ) (buffer : Mem) :
    Option ReadResult := do
  let relativeBlock := (← shr 64 offset ((10 + c.superblock.log2BlockSize) % 2 ^ 32)) % 2 ^ 32
  let inBlockOffset := offset &&& (← c.maskCommon)
  if (inBlockOffset + size) % 2 ^ 64 > c.blockSize then
    run (readRound c image u inode) (size + 1) {
      size, relativeBlock, inBlockOffset, offset, buffer
      dataToRead := (c.blockSize + 2 ^ 32 - inBlockOffset) % 2 ^ 32
      readSize := 0 }
  else readOne c image u inode relativeBlock inBlockOffset offset size buffer

variable {offset size fileSize : ℕ} {s s' : ReadState} {c : CustomData}

section

variable {c : CustomData} {image : Mem} {u : ℕ → Uninit} {inode : InodeData} {bytes : List (BitVec 8)} {first : ℕ}

/-! ### Every call ends -/

def readStart (c : CustomData) (offset size : ℕ) (buffer : Mem) : ReadState where
  size := size
  dataToRead := c.blockSize - offset % c.fanout
  relativeBlock := offset / c.blockSize % 2 ^ 32
  inBlockOffset := offset % c.fanout
  readSize := 0
  offset := offset
  buffer := buffer

lemma ext2Read_eq (hc : c.Sized) (offset size : ℕ) (buffer : Mem) : ext2Read c image u inode offset size buffer =
    if (offset % c.fanout + size) % 2 ^ 64 > c.blockSize then
      run (readRound c image u inode) (size + 1) (readStart c offset size buffer)
    else readOne c image u inode (offset / c.blockSize % 2 ^ 32) (offset % c.fanout) offset size buffer := by
  have hlog := hc.log_lt
  have hsize := hc.blockSize_bounds.2
  obtain ⟨hpos, hquarter⟩ := hc.fanout_bounds
  have hmask : offset &&& (c.fanout - 1) = offset % c.fanout := by
    rw [hc.fanout]
    exact Nat.and_two_pow_sub_one_eq_mod _ _
  have hin : offset % c.fanout < c.fanout := Nat.mod_lt _ hpos
  have hdata : (c.blockSize + 2 ^ 32 - offset % c.fanout) % 2 ^ 32 = c.blockSize - offset % c.fanout := by omega
  simp only [ext2Read, Nat.mod_eq_of_lt (by omega : 10 + c.superblock.log2BlockSize < 2 ^ 32),
    shr_of_lt (by omega : 10 + c.superblock.log2BlockSize < 64), hc.maskCommon, bind_eq_bind,
    bind_some, hmask, hdata, ← hc.blockSize, readStart]

structure Going (s : ReadState) : Prop where
  size_lt : s.size < 2 ^ 64
  offset_lt : s.offset < 2 ^ 64
  le : s.dataToRead ≤ s.size
  pos : s.size ≠ 0 → 0 < s.dataToRead

lemma going_start (hc : c.Sized) (buffer : Mem) (hoffset : offset < 2 ^ 64) (hsize : size < 2 ^ 64)
    (hlong : (offset % c.fanout + size) % 2 ^ 64 > c.blockSize) : Going (readStart c offset size buffer) := by
  obtain ⟨hpos, hquarter⟩ := hc.fanout_bounds
  have hin : offset % c.fanout < c.fanout := Nat.mod_lt _ hpos
  have hle : c.blockSize - offset % c.fanout ≤ size := by omega
  exact ⟨hsize, hoffset, hle, fun _ => Nat.sub_pos_of_lt (by omega)⟩

lemma Going.next (h : Going s) (hsize : s.size ≠ 0) {blockSize : ℕ} (hfile : fileSize < 2 ^ 32)
    (hblock : 0 < blockSize) (hs' : s' = s.advance blockSize (s.clipped fileSize) bytes)
    (hnext : ¬ s'.offset ≥ fileSize) : s.clipped fileSize = s.dataToRead ∧ Going s' ∧ s'.size < s.size := by
  have hlt := h.size_lt
  have hoff := h.offset_lt
  have hle := h.le
  have hpos := h.pos hsize
  have hclip : s.clipped fileSize = s.dataToRead := by
    unfold ReadState.clipped
    split
    · exfalso
      have hend : s'.offset = (s.offset + (fileSize + 2 ^ 64 - s.offset) % 2 ^ 64) % 2 ^ 64 := by
        rw [hs', ReadState.clipped, if_pos ‹_›]
        rfl
      omega
    · rfl
  have hnew : s'.size = s.size - s.dataToRead := by
    rw [hs', hclip]
    exact (by omega : (s.size + 2 ^ 64 - s.dataToRead) % 2 ^ 64 = s.size - s.dataToRead)
  have hdata : s'.dataToRead = if s'.size > blockSize then blockSize else s'.size := by rw [hs']; rfl
  have hoffset : s'.offset = (s.offset + s.dataToRead) % 2 ^ 64 := by rw [hs', hclip]; rfl
  refine ⟨hclip, ⟨by omega, by omega, ?_, fun hne => ?_⟩, by omega⟩
  · rw [hdata]
    split <;> omega
  · rw [hdata]
    split <;> omega

lemma readRound_progress (hc : c.Sized) (h : Going s) : (∃ r, readRound c image u inode s = .done r) ∨
    ∃ s', readRound c image u inode s = .next s' ∧ Going s' ∧ s'.size < s.size := by
  obtain ⟨block, hlookup⟩ := getBlock_some hc image (u s.relativeBlock) inode s.relativeBlock
  obtain ⟨address, haddress⟩ := hc.blockAddress_some block s.inBlockOffset
  unfold readRound
  by_cases hsize : s.size = 0
  · rw [if_pos hsize]
    exact .inl ⟨_, rfl⟩
  · simp only [if_neg hsize, hlookup, haddress]
    split
    · exact .inl ⟨_, rfl⟩
    · split
      · exact .inl ⟨_, rfl⟩
      · rename_i hnext
        exact .inr ⟨_, rfl, (h.next hsize (load_lt (k := 4)) hc.blockSize_pos rfl hnext).2⟩

lemma readOne_some (hc : c.Sized) (image : Mem) (u : ℕ → Uninit) (inode : InodeData)
    (relativeBlock inBlockOffset offset size : ℕ) (buffer : Mem) :
    ∃ r, readOne c image u inode relativeBlock inBlockOffset offset size buffer = some r ∧ r.offset = offset := by
  obtain ⟨block, hlookup⟩ := getBlock_some hc image (u relativeBlock) inode relativeBlock
  obtain ⟨address, haddress⟩ := hc.blockAddress_some block inBlockOffset
  simp only [readOne, hlookup, haddress, bind_eq_bind, bind_some]
  split <;> exact ⟨_, rfl, rfl⟩

lemma ext2Read_some (hc : c.Sized) (hoffset : offset < 2 ^ 64) (hsize : size < 2 ^ 64) (buffer : Mem) :
    ∃ r, ext2Read c image u inode offset size buffer = some r := by
  rw [ext2Read_eq hc]
  split
  · rename_i hlong
    have hround : ∀ s, Going s → (∃ r, readRound c image u inode s = .done r ∧ True) ∨
        ∃ s', readRound c image u inode s = .next s' ∧ Going s' ∧ s'.size < s.size := fun s hs =>
      (readRound_progress hc hs).imp (fun ⟨r, hr⟩ => ⟨r, hr, trivial⟩) id
    obtain ⟨r, hr, -⟩ := run_of_measure ReadState.size hround (size + 1) _ (going_start hc buffer hoffset hsize hlong)
      (Nat.lt_succ_self _)
    exact ⟨r, hr⟩
  · obtain ⟨r, hr, -⟩ := readOne_some hc image u inode (offset / c.blockSize % 2 ^ 32)
      (offset % c.fanout) offset size buffer
    exact ⟨r, hr⟩

/-! ### Files in their direct blocks -/

def fileByte (c : CustomData) (image : Mem) (inode : InodeData) (j : ℕ) : BitVec 8 :=
  image (inode.directBlockPointer (j / c.blockSize) * c.blockSize + j % c.blockSize)

structure DirectFile (c : CustomData) (inode : InodeData) (fileSize : ℕ) : Prop where
  size : inode.sizeLo = fileSize
  blocks : ∀ t, t * c.blockSize < fileSize → 2 ≤ inode.directBlockPointer t

lemma DirectFile.size_lt {inode : InodeData} (h : DirectFile c inode fileSize) : fileSize < 2 ^ 32 := by
  rw [← h.size]
  exact load_lt (k := 4)

structure ReadsRight (c : CustomData) (image : Mem) (inode : InodeData) (fileSize offset size : ℕ) (buffer : Mem)
    (r : ReadResult) : Prop where
  count : r.count = min size (fileSize - offset)
  advanced : r.offset = offset + min size (fileSize - offset)
  bytes : ∀ j < min size (fileSize - offset), r.buffer j = fileByte c image inode (offset + j)
  rest : ∀ j, min size (fileSize - offset) ≤ j → r.buffer j = buffer j

variable {fileSize offset size : ℕ} {buffer : Mem}

lemma block_mod (h : offset < 2 ^ 32) (blockSize : ℕ) : offset / blockSize % 2 ^ 32 = offset / blockSize :=
  Nat.mod_eq_of_lt (Nat.lt_of_le_of_lt (Nat.div_le_self _ _) h)

lemma block_lt_twelve (hoffset : offset < fileSize) (hfits : fileSize ≤ 12 * c.blockSize) :
    offset / c.blockSize < 12 :=
  Nat.lt_of_mul_lt_mul_right (Nat.lt_of_le_of_lt (Nat.div_mul_le_self _ _) (Nat.lt_of_lt_of_le hoffset hfits))

lemma readRound_direct (hc : c.Sized) (hfile : DirectFile c inode fileSize) (hfits : fileSize ≤ 12 * c.blockSize)
    (hsize : s.size ≠ 0) (hblock : s.relativeBlock * c.blockSize < fileSize) (hin : s.inBlockOffset < 2 ^ 32)
    (hs' : s' = s.advance c.blockSize (s.clipped fileSize)
      (read image (inode.directBlockPointer s.relativeBlock * c.blockSize + s.inBlockOffset) (s.clipped fileSize))) :
    readRound c image u inode s =
      if s'.offset ≥ fileSize then .done ⟨s'.readSize, s'.offset, s'.buffer⟩ else .next s' := by
  have htwelve : s.relativeBlock < 12 := Nat.lt_of_mul_lt_mul_right (Nat.lt_of_lt_of_le hblock hfits)
  have hpointer := hfile.blocks _ hblock
  have hlt : inode.directBlockPointer s.relativeBlock < 2 ^ 32 := load_lt (k := 4)
  unfold readRound
  simp only [if_neg hsize, getBlock_direct hc htwelve, if_neg (Nat.not_lt.mpr hpointer), hc.blockAddress hlt hin,
    hfile.size, ← hs']

lemma ReadState.clipped_eq (hfile : fileSize < 2 ^ 32) (hoffset : s.offset < fileSize)
    (hdata : s.dataToRead ≤ 2 ^ 32) : s.clipped fileSize = min s.dataToRead (fileSize - s.offset) := by
  unfold ReadState.clipped
  split <;> omega

section

variable (hc : c.Sized) (hfile : DirectFile c inode fileSize) (hfits : fileSize ≤ 12 * c.blockSize)
  (hoffset : offset < fileSize)
include hc hfile hfits hoffset

lemma ext2Read_last_block (hquarter : offset % c.blockSize < c.fanout)
    (hlast : fileSize ≤ (offset / c.blockSize + 1) * c.blockSize) (hlong : c.blockSize < offset % c.blockSize + size)
    (hsize : offset % c.blockSize + size < 2 ^ 64) : ∃ r, ext2Read c image u inode offset size buffer = some r ∧
      ReadsRight c image inode fileSize offset size buffer r := by
  have hfile_lt := hfile.size_lt
  have hbounds := hc.blockSize_bounds
  have hdiv := Nat.div_add_mod offset c.blockSize
  have hmod : offset % c.fanout = offset % c.blockSize := by rw [← hc.mod_fanout, Nat.mod_eq_of_lt hquarter]
  have hblock := block_mod (by omega : offset < 2 ^ 32) c.blockSize
  rw [Nat.mul_comm] at hdiv
  rw [Nat.add_mul, Nat.one_mul] at hlast
  rw [ext2Read_eq hc, hmod, Nat.mod_eq_of_lt hsize, if_pos hlong]
  -- the first round is clipped to the rest of the file
  have hclip : (readStart c offset size buffer).clipped fileSize = fileSize - offset := by
    rw [ReadState.clipped_eq hfile_lt hoffset (Nat.le_trans (Nat.sub_le _ _) (by omega : c.blockSize ≤ 2 ^ 32))]
    exact (by omega : min (c.blockSize - offset % c.fanout) (fileSize - offset) = fileSize - offset)
  have hend : (offset + (fileSize - offset)) % 2 ^ 64 = fileSize := by omega
  have hmin : min size (fileSize - offset) = fileSize - offset := by omega
  have hround : readRound c image u inode (readStart c offset size buffer) = .done ⟨fileSize - offset, fileSize,
      write buffer 0 (read image (inode.directBlockPointer (offset / c.blockSize) * c.blockSize + offset % c.blockSize)
        (fileSize - offset))⟩ := by
    rw [readRound_direct hc hfile hfits (by simp only [readStart]; omega) (by simp only [readStart, hblock]; omega)
      (by simp only [readStart]; omega) rfl, hclip]
    simp only [ReadState.advance, readStart, hblock, hmod, hend, Nat.zero_add,
      Nat.mod_eq_of_lt (by omega : fileSize - offset < 2 ^ 64), ge_iff_le, Nat.le_refl, if_true]
  refine ⟨_, by rw [run, hround], ⟨hmin.symm, ?_, fun j hj => ?_, fun j hj => ?_⟩⟩
  · rw [hmin]
    exact (by omega : fileSize = offset + (fileSize - offset))
  · rw [hmin] at hj
    have hplace : (offset + j) / c.blockSize = offset / c.blockSize ∧
      (offset + j) % c.blockSize = offset % c.blockSize + j := by
      have hsplit : offset + j = offset % c.blockSize + j + offset / c.blockSize * c.blockSize := by omega
      rw [hsplit, Nat.add_mul_div_right _ _ (by omega), Nat.add_mul_mod_self_right, Nat.div_eq_of_lt (by omega),
        Nat.mod_eq_of_lt (by omega), Nat.zero_add]
      exact ⟨rfl, rfl⟩
    have hbyte : write buffer 0
      (read image (inode.directBlockPointer (offset / c.blockSize) * c.blockSize + offset % c.blockSize)
        (fileSize - offset)) (0 + j) = _ := write_copied hj
    rw [Nat.zero_add] at hbyte
    rw [fileByte, hplace.1, hplace.2, ← Nat.add_assoc]
    exact hbyte
  · rw [hmin] at hj
    dsimp only
    refine write_outside (.inr ?_)
    rw [length_read, Nat.zero_add]
    exact hj

lemma ext2Read_zero :
    ∃ r, ext2Read c image u inode offset 0 buffer = some r ∧ ReadsRight c image inode fileSize offset 0 buffer r := by
  have hfile_lt := hfile.size_lt
  have hbounds := hc.blockSize_bounds
  obtain ⟨hpos, hquarter⟩ := hc.fanout_bounds
  have hin : offset % c.fanout < c.fanout := Nat.mod_lt _ hpos
  have hblock := block_mod (by omega : offset < 2 ^ 32) c.blockSize
  have hplace : offset / c.blockSize * c.blockSize < fileSize := Nat.lt_of_le_of_lt (Nat.div_mul_le_self _ _) hoffset
  have htwelve := block_lt_twelve hoffset hfits
  have hlt : inode.directBlockPointer (offset / c.blockSize) < 2 ^ 32 := load_lt (k := 4)
  have hread : ext2Read c image u inode offset 0 buffer = some ⟨0, offset, buffer⟩ := by
    rw [ext2Read_eq hc, if_neg (by omega), hblock]
    simp only [readOne, getBlock_direct hc htwelve, bind_eq_bind, bind_some,
      if_pos (hfile.blocks _ hplace), hc.blockAddress hlt (by omega : offset % c.fanout < 2 ^ 32)]
    exact congrArg (fun b => some (ReadResult.mk 0 offset b)) write_nil
  refine ⟨_, hread, ⟨(Nat.zero_min _).symm, ?_, fun j hj => ?_, fun _ _ => rfl⟩⟩
  · rw [Nat.zero_min, Nat.add_zero]
  · rw [Nat.zero_min] at hj
    omega

end

/-! ### Reads that go wrong -/

/-- The loop from block `first` on, on a file in its direct blocks. A round reads to the end of its block, or all that
is left. -/
structure Walk (c : CustomData) (fileSize first : ℕ) (s : ReadState) : Prop where
  going : Going s
  block : first ≤ s.relativeBlock
  place : s.size ≠ 0 → s.relativeBlock * c.blockSize + s.inBlockOffset ≤ s.offset
  inside : s.offset < fileSize
  data : s.inBlockOffset + s.dataToRead ≤ c.blockSize
  full : s.dataToRead = s.size ∨ s.inBlockOffset + s.dataToRead = c.blockSize

lemma Walk.next (hc : c.Sized) (hfile : fileSize < 2 ^ 32) (hfits : fileSize ≤ 12 * c.blockSize)
    (h : Walk c fileSize first s) (hsize : s.size ≠ 0)
    (hs' : s' = s.advance c.blockSize (s.clipped fileSize) bytes) (hnext : ¬ s'.offset ≥ fileSize) :
    Walk c fileSize first s' ∧ s'.size < s.size ∧ s'.size = s.size - s.dataToRead ∧
      s'.relativeBlock = s.relativeBlock + 1 ∧ s'.inBlockOffset = 0 := by
  obtain ⟨hwhole, hgoing, hless⟩ := h.going.next hsize hfile hc.blockSize_pos hs' hnext
  have hplace := h.place hsize
  have hinside := h.inside
  have hdata := h.data
  have hle := h.going.le
  have hlt := h.going.size_lt
  have hbounds := hc.blockSize_bounds
  have hblock : s.relativeBlock * c.blockSize < fileSize := by omega
  have htwelve : s.relativeBlock < 12 := Nat.lt_of_mul_lt_mul_right (Nat.lt_of_lt_of_le hblock hfits)
  have hsize' : s'.size = s.size - s.dataToRead := by
    rw [hs', hwhole]
    exact (by omega : (s.size + 2 ^ 64 - s.dataToRead) % 2 ^ 64 = s.size - s.dataToRead)
  have hdata' : s'.dataToRead = if s'.size > c.blockSize then c.blockSize else s'.size := by rw [hs']; rfl
  have hblock' : s'.relativeBlock = s.relativeBlock + 1 := by
    rw [hs']
    exact Nat.mod_eq_of_lt (by omega)
  have hin' : s'.inBlockOffset = 0 := by rw [hs']; rfl
  have hoffset' : s'.offset = s.offset + s.dataToRead := by
    rw [hs', hwhole]
    exact Nat.mod_eq_of_lt (by omega)
  have hfirst := h.block
  refine ⟨⟨hgoing, by omega, fun hne => ?_, by omega, ?_, ?_⟩, hless, hsize', hblock', hin'⟩
  · -- something is left, so the round went to the end of its block
    rcases h.full with hall | hfull
    · omega
    · rw [hblock', hin', hoffset', Nat.add_mul, Nat.one_mul]
      omega
  · rw [hin', hdata']
    split <;> omega
  · rw [hin', hdata']
    split <;> omega

lemma Walk.round (hc : c.Sized) (image : Mem) (u : ℕ → Uninit) (hfile : DirectFile c inode fileSize)
    (hfits : fileSize ≤ 12 * c.blockSize) (h : Walk c fileSize first s) (hsize : s.size ≠ 0) :
    ∃ s' : ReadState, s'.buffer 0 = image (inode.directBlockPointer s.relativeBlock * c.blockSize + s.inBlockOffset) ∧
      s'.offset = s.offset + min s.dataToRead (fileSize - s.offset) ∧
      (readRound c image u inode s = .done ⟨s'.readSize, s'.offset, s'.buffer⟩ ∧ fileSize ≤ s'.offset ∨
        readRound c image u inode s = .next s' ∧ Walk c fileSize first s' ∧ s'.size < s.size ∧
          s'.size = s.size - s.dataToRead ∧ s'.relativeBlock = s.relativeBlock + 1 ∧ s'.inBlockOffset = 0) := by
  have hfile_lt := hfile.size_lt
  have hbounds := hc.blockSize_bounds
  have hplace := h.place hsize
  have hinside := h.inside
  have hdata := h.data
  have hpos := h.going.pos hsize
  have hclip := ReadState.clipped_eq hfile_lt hinside (by omega : s.dataToRead ≤ 2 ^ 32)
  obtain ⟨s', hs'⟩ : ∃ s', s' = s.advance c.blockSize (s.clipped fileSize) (read image
      (inode.directBlockPointer s.relativeBlock * c.blockSize + s.inBlockOffset) (s.clipped fileSize)) := ⟨_, rfl⟩
  have hbyte : write s.buffer 0 (read image (inode.directBlockPointer s.relativeBlock * c.blockSize + s.inBlockOffset)
      (s.clipped fileSize)) (0 + 0) = _ := write_copied (by omega)
  refine ⟨s', by rw [hs']; exact hbyte, ?_, ?_⟩
  · rw [hs', hclip]
    exact Nat.mod_eq_of_lt (by omega)
  · rw [readRound_direct hc hfile hfits hsize (by omega) (by omega) hs']
    by_cases hend : s'.offset ≥ fileSize
    · rw [if_pos hend]
      exact .inl ⟨rfl, hend⟩
    · rw [if_neg hend]
      exact .inr ⟨rfl, h.next hc hfile_lt hfits hsize hs' hend⟩

end

lemma walk_start (hc : c.Sized) (buffer : Mem) (hfile : fileSize < 2 ^ 32) (hoffset : offset < fileSize)
    (hsize : size < 2 ^ 64) (hlong : (offset % c.fanout + size) % 2 ^ 64 > c.blockSize) :
    Walk c fileSize (offset / c.blockSize) (readStart c offset size buffer) := by
  obtain ⟨hpos, hquarter⟩ := hc.fanout_bounds
  have hin : offset % c.fanout < c.fanout := Nat.mod_lt _ hpos
  have hblock := block_mod (by omega : offset < 2 ^ 32) c.blockSize
  have hdiv := Nat.div_add_mod offset c.blockSize
  rw [Nat.mul_comm] at hdiv
  have hmod : offset % c.fanout ≤ offset % c.blockSize := by
    rw [← hc.mod_fanout]
    exact Nat.mod_le _ _
  refine ⟨going_start hc buffer (by omega) hsize hlong, ?_, fun _ => ?_, hoffset, ?_, .inr ?_⟩
  · exact Nat.le_of_eq hblock.symm
  · simp only [readStart, hblock]
    omega
  · simp only [readStart]
    omega
  · simp only [readStart]
    omega

def countingInode (fileSize : ℕ) : InodeData :=
  store (fun x => if 40 ≤ x ∧ x % 4 = 0 then BitVec.ofNat 8 ((x - 32) / 4) else 0) 4 4 fileSize

lemma countingInode_pointer (fileSize : ℕ) {t : ℕ} (ht : t < 12) :
    (countingInode fileSize).directBlockPointer t = 2 + t := by
  have hbase : ∀ t < 12, load (fun x => if 40 ≤ x ∧ x % 4 = 0 then BitVec.ofNat 8 ((x - 32) / 4) else 0)
    (40 + 4 * t) 4 = 2 + t := by
    decide
  rw [← hbase t ht]
  exact load_congr fun i _ => store_outside (by omega)

lemma countingInode_file (hfile : fileSize < 2 ^ 32) (hfits : fileSize ≤ 12 * c.blockSize) :
    DirectFile c (countingInode fileSize) fileSize := by
  refine ⟨load_store hfile, fun t ht => ?_⟩
  rw [countingInode_pointer fileSize (Nat.lt_of_mul_lt_mul_right (Nat.lt_of_lt_of_le ht hfits))]
  exact Nat.le_add_right 2 t

def countingPlace (c : CustomData) (j : ℕ) : ℕ := (2 + j / c.blockSize) * c.blockSize + j % c.blockSize

lemma countingInode_byte (image : Mem) {j : ℕ} (hj : j < fileSize) (hfits : fileSize ≤ 12 * c.blockSize) :
    fileByte c image (countingInode fileSize) j = image (countingPlace c j) := by
  rw [fileByte, countingInode_pointer fileSize (block_lt_twelve hj hfits), countingPlace]

def markAt (image : Mem) (a : ℕ) : Mem := fun x => if x < 2048 then image x else if x = a then 1 else 0

lemma markAt_mount (image : Mem) (a : ℕ) : ext2Mount (markAt image a) = ext2Mount image :=
  ext2Mount_congr fun _ hx => if_pos hx

lemma markAt_self (image : Mem) {a : ℕ} (ha : 2048 ≤ a) : markAt image a a = 1 := by
  rw [markAt, if_neg (by omega), if_pos rfl]

lemma markAt_other (image : Mem) {a x : ℕ} (hx : 2048 ≤ x) (hne : x ≠ a) : markAt image a x = 0 := by
  rw [markAt, if_neg (by omega), if_neg hne]

section

variable {c : CustomData} {u : ℕ → Uninit} {fileSize offset : ℕ}

lemma CustomData.Sized.behind (hc : c.Sized) (t x : ℕ) : 2048 ≤ (2 + t) * c.blockSize + x := by
  have hmul : 2 * 1024 ≤ (2 + t) * c.blockSize := Nat.mul_le_mul (Nat.le_add_right _ _) hc.blockSize_bounds.1
  omega

/-- The loop before a round that does not read the byte at the offset; if there is none, the buffer starts with zero. -/
structure Astray (c : CustomData) (fileSize offset : ℕ) (s : ReadState) : Prop where
  walk : Walk c fileSize (offset / c.blockSize) s
  apart : (2 + s.relativeBlock) * c.blockSize + s.inBlockOffset ≠ countingPlace c offset
  ended : s.size = 0 → s.buffer 0 = 0

lemma place_later (hc : c.Sized) {t : ℕ} (h : offset / c.blockSize < t) :
    (2 + t) * c.blockSize + 0 ≠ countingPlace c offset := by
  have hm : offset % c.blockSize < c.blockSize := Nat.mod_lt _ hc.blockSize_pos
  have hlater : (2 + offset / c.blockSize + 1) * c.blockSize ≤ (2 + t) * c.blockSize :=
    Nat.mul_le_mul_right _ (by omega)
  rw [Nat.add_mul _ 1, Nat.one_mul] at hlater
  unfold countingPlace
  omega

section

variable (hc : c.Sized) (image : Mem) (hfile : fileSize < 2 ^ 32) (hfits : fileSize ≤ 12 * c.blockSize)
include hc image hfile hfits

lemma Astray.round
    (h : Astray c fileSize offset s) :
    (∃ r, readRound c (markAt image (countingPlace c offset)) u (countingInode fileSize) s = .done r ∧ r.buffer 0 = 0) ∨
      ∃ s', readRound c (markAt image (countingPlace c offset)) u (countingInode fileSize) s = .next s' ∧
        Astray c fileSize offset s' ∧ s'.size < s.size := by
  by_cases hsize : s.size = 0
  · refine .inl ⟨⟨s.readSize, s.offset, s.buffer⟩, ?_, h.ended hsize⟩
    rw [readRound, if_pos hsize]
  · have hplace := h.walk.place hsize
    have hinside := h.walk.inside
    have htwelve : s.relativeBlock < 12 :=
      Nat.lt_of_mul_lt_mul_right (Nat.lt_of_lt_of_le (by omega : s.relativeBlock * c.blockSize < fileSize) hfits)
    obtain ⟨s', hbuffer, -, hround⟩ := h.walk.round hc (markAt image (countingPlace c offset)) u
      (countingInode_file hfile hfits) hfits hsize
    have hzero : s'.buffer 0 = 0 := by
      rw [hbuffer, countingInode_pointer fileSize htwelve]
      exact markAt_other image (hc.behind _ _) h.apart
    rcases hround with ⟨hdone, -⟩ | ⟨hnext, hwalk, hless, -, hblock, hin⟩
    · exact .inl ⟨_, hdone, hzero⟩
    · refine .inr ⟨s', hnext, ⟨hwalk, ?_, fun _ => hzero⟩, hless⟩
      have hfirst := h.walk.block
      rw [hin]
      exact place_later hc (by omega)

/-- **The buffer is wrong** if the offset is behind the first quarter of its block, or the block is not the last
one: the loop reads another byte to the start of the buffer. -/
lemma ext2Read_overwritten (hoffset : offset < fileSize) (hsize : size < 2 ^ 64) (buffer : Mem)
    (hlong : (offset % c.fanout + size) % 2 ^ 64 > c.blockSize)
    (hwrong : c.fanout ≤ offset % c.blockSize ∨ (offset / c.blockSize + 1) * c.blockSize < fileSize) :
    ∃ r, ext2Read c (markAt image (countingPlace c offset)) u (countingInode fileSize) offset size buffer = some r ∧
      r.buffer 0 = 0 := by
  obtain ⟨hpos, hquarter⟩ := hc.fanout_bounds
  have hin : offset % c.fanout < c.fanout := Nat.mod_lt _ hpos
  have hm : offset % c.blockSize < c.blockSize := Nat.mod_lt _ hc.blockSize_pos
  have hblock := block_mod (by omega : offset < 2 ^ 32) c.blockSize
  have hwalk := walk_start hc buffer hfile hoffset hsize hlong
  have hsteps : ∀ n s, Astray c fileSize offset s → s.size < n →
      ∃ r, run (readRound c (markAt image (countingPlace c offset)) u (countingInode fileSize)) n s = some r ∧
        r.buffer 0 = 0 :=
    run_of_measure ReadState.size fun s hs => hs.round hc image hfile hfits
  rw [ext2Read_eq hc, if_pos hlong]
  by_cases hfirst : c.fanout ≤ offset % c.blockSize
  · refine hsteps (size + 1) _ ⟨hwalk, ?_, fun hzero => ?_⟩ (Nat.lt_succ_self _)
    · simp only [readStart, hblock, countingPlace]
      omega
    · have hsize0 : size = 0 := hzero
      omega
  · -- the first round reads the right byte, but there is a second one
    have hlast : (offset / c.blockSize + 1) * c.blockSize < fileSize := hwrong.resolve_left hfirst
    have hmod : offset % c.fanout = offset % c.blockSize := by rw [← hc.mod_fanout, Nat.mod_eq_of_lt (by omega)]
    have hdiv := Nat.div_add_mod offset c.blockSize
    rw [Nat.mul_comm] at hdiv
    rw [Nat.add_mul, Nat.one_mul] at hlast
    have hdata : (readStart c offset size buffer).dataToRead = c.blockSize - offset % c.blockSize := by
      rw [← hmod]
      rfl
    have hleft : (readStart c offset size buffer).size = size := rfl
    have hstart : (readStart c offset size buffer).offset = offset := rfl
    have hfirstBlock : (readStart c offset size buffer).relativeBlock = offset / c.blockSize := hblock
    obtain ⟨s', -, hend, hround⟩ := hwalk.round hc (markAt image (countingPlace c offset)) u
      (countingInode_file hfile hfits) hfits
      (by omega)
    rcases hround with ⟨-, hover⟩ | ⟨hnext, hwalk', hless, hsize', hblock', hin'⟩
    · omega
    · have hplace : (2 + s'.relativeBlock) * c.blockSize + s'.inBlockOffset ≠ countingPlace c offset := by
        rw [hin']
        exact place_later hc (by omega)
      obtain ⟨r, hr, hzero⟩ := hsteps size s' ⟨hwalk', hplace, fun hzero => by omega⟩ (by omega)
      refine ⟨r, ?_, hzero⟩
      rw [run, hnext]
      exact hr

end

end

/-- **A read is right** for every content of the file exactly if nothing is requested, or if the request is longer
than the block of the offset, which is the last one of the file, and the offset is in the first quarter of it. -/
theorem ext2_read_iff (c : CustomData) (hmount : ∃ image, ext2Mount image = some (some c))
    (hlog : c.superblock.log2BlockSize < 22) (u : ℕ → Uninit) {fileSize offset size : ℕ} (hfile : fileSize < 2 ^ 32)
    (hfits : fileSize ≤ 12 * c.blockSize) (hoffset : offset < fileSize) (hsize : size < 2 ^ 64) :
    (∀ image, ext2Mount image = some (some c) → ∀ inode, DirectFile c inode fileSize → ∀ buffer,
      ∃ r, ext2Read c image u inode offset size buffer = some r ∧
        ReadsRight c image inode fileSize offset size buffer r) ↔
    size = 0 ∨ (offset % c.blockSize < c.blockSize / 4 ∧ fileSize ≤ (offset / c.blockSize + 1) * c.blockSize ∧
      c.blockSize < offset % c.blockSize + size ∧ offset % c.blockSize + size < 2 ^ 64) := by
  obtain ⟨image, himage⟩ := hmount
  have hc := (ext2Mount_eq himage).sized hlog
  constructor
  · intro h
    by_contra hcond
    obtain ⟨hne, hcond⟩ := not_or.mp hcond
    obtain ⟨hpos, hquarter⟩ := hc.fanout_bounds
    have hin : offset % c.fanout < c.fanout := Nat.mod_lt _ hpos
    have hm : offset % c.blockSize < c.blockSize := Nat.mod_lt _ hc.blockSize_pos
    obtain ⟨r, hr, hright⟩ := h (markAt image (countingPlace c offset)) ((markAt_mount image _).trans himage)
      (countingInode fileSize) (countingInode_file hfile hfits) fun _ => 0
    by_cases hlong : (offset % c.fanout + size) % 2 ^ 64 > c.blockSize
    · have hwrong : c.fanout ≤ offset % c.blockSize ∨ (offset / c.blockSize + 1) * c.blockSize < fileSize := by
        have hfanout : c.fanout = c.blockSize / 4 := rfl
        rcases Nat.lt_or_ge (offset % c.blockSize) c.fanout with hfirst | hbehind
        · refine .inr (Nat.lt_of_not_le fun hlast => hcond ⟨hfirst, hlast, ?_⟩)
          rw [← hc.mod_fanout, Nat.mod_eq_of_lt hfirst] at hlong
          omega
        · exact .inl hbehind
      obtain ⟨r', hr', hzero⟩ :=
        ext2Read_overwritten (u := u) hc image hfile hfits hoffset hsize (fun _ => 0) hlong hwrong
      rw [hr', some_inj] at hr
      have hmark : markAt image (countingPlace c offset) (countingPlace c offset) = 1 :=
        markAt_self image (hc.behind _ _)
      have hone := hright.bytes 0 (by omega)
      rw [← hr, hzero, Nat.add_zero, countingInode_byte _ hoffset hfits, hmark] at hone
      exact absurd hone (by decide)
    · -- the short way does not advance the node
      obtain ⟨r', hr', hstay⟩ := readOne_some hc (markAt image (countingPlace c offset)) u (countingInode fileSize)
        (offset / c.blockSize % 2 ^ 32) (offset % c.fanout) offset size fun _ => 0
      rw [ext2Read_eq hc, if_neg hlong, hr'] at hr
      have hadvanced := hright.advanced
      rw [← some.inj hr, hstay] at hadvanced
      omega
  · rintro (rfl | ⟨hquarter, hlast, hlong, hless⟩) image _ inode hinode buffer
    · exact ext2Read_zero hc hinode hfits hoffset
    · exact ext2Read_last_block hc hinode hfits hoffset hquarter hlast hlong hless

theorem ext2_read_iff_small :
    ∃ r, ext2Read twoGroupsData twoGroups (fun _ => ⟨0, 0, 0⟩) (countingInode 100) 10 4096 (fun _ => 0) =
    some r ∧ ReadsRight twoGroupsData twoGroups (countingInode 100) 100 10 4096 (fun _ => 0) r :=
  (ext2_read_iff twoGroupsData ⟨twoGroups, by decide +kernel⟩ (by decide) (fun _ => ⟨0, 0, 0⟩) (by decide) (by decide)
    (by decide)
    (by decide)).mpr (.inr (by decide)) twoGroups (by decide +kernel) _ (countingInode_file (by decide) (by decide)) _

/-- **Reads that go wrong**, on a file in blocks 2 and 3 whose first byte is 1. A read of ten bytes does not advance
the node; a read of the whole file leaves the second block at the start of the buffer; a read at offset 256 gives the
first byte. -/
theorem reads_gone_wrong : ext2Mount (markAt twoGroups 2048) = some (some twoGroupsData) ∧
    DirectFile twoGroupsData (countingInode 2048) 2048 ∧
    ((List.range 2).map fun k => fileByte twoGroupsData (markAt twoGroups 2048) (countingInode 2048) (256 * k)) =
      [1, 0] ∧
    (ext2Read twoGroupsData (markAt twoGroups 2048) (fun _ => ⟨0, 0, 0⟩) (countingInode 2048) 0 10 fun _ => 0).map
      (fun r => (r.count, r.offset, r.buffer 0)) = some (10, 0, 1) ∧
    (ext2Read twoGroupsData (markAt twoGroups 2048) (fun _ => ⟨0, 0, 0⟩) (countingInode 2048) 0 2048 fun _ => 0).map
      (fun r => (r.count, r.offset, r.buffer 0)) = some (2048, 2048, 0) ∧
    (ext2Read twoGroupsData (markAt twoGroups 2048) (fun _ => ⟨0, 0, 0⟩) (countingInode 2048) 256 10 fun _ => 0).map
      (fun r => (r.count, r.offset, r.buffer 0)) = some (10, 256, 1) :=
  ⟨by decide +kernel, countingInode_file (by decide) (by decide), by decide +kernel, by decide +kernel, by decide +kernel,
    by decide +kernel⟩

end WivOS.Ext2
