/-
# Reading a FAT32 file

`fat32_mount` and `fat32_read` of `kernel/fs/fat32/fat32.c`, on the bytes of an image; a division by zero is `none`. A
read goes along the cluster chain and delivers the bytes of the file (`file_read`).
-/
import Mathlib.Logic.Function.Iterate
import WivOS.Fs.Fat32
import WivOS.Lib.ByteMem
import WivOS.Lib.Slice

namespace WivOS.Fat32

open ByteMem List Loop Option

/-! ### Mounting -/

structure CustomData where
  sectorsPerCluster : ℕ
  reservedSectors : ℕ
  fatCount : ℕ
  sectorsPerFat : ℕ
  rootDirCluster : ℕ
  beginCluster : ℕ
deriving DecidableEq

def fat32Mount (image : Mem) : Option CustomData :=
  if load image 0x1FE 2 ≠ 0xAA55 then none
  else some {
    sectorsPerCluster := load image 0x0D 1
    reservedSectors := load image 0x0E 2
    fatCount := load image 0x10 1
    sectorsPerFat := load image 0x24 4
    rootDirCluster := load image 0x2C 4
    beginCluster := (load image 0x0E 2 + load image 0x10 1 * load image 0x24 4) % 2 ^ 32 }

namespace CustomData

def fatLength (c : CustomData) : ℕ := c.sectorsPerFat * 512 % 2 ^ 32

def clusterSize (c : CustomData) : ℕ := c.sectorsPerCluster * 512

def volume (c : CustomData) (image : Mem) : Volume where
  sectorsPerCluster := c.sectorsPerCluster
  beginCluster := c.beginCluster
  rootDirCluster := c.rootDirCluster
  fatLength := c.fatLength
  fat k := load image (c.reservedSectors * 512 + 4 * k) 4
  disk k i := ⟨image (32 * k + i)⟩

def clusterToOffset (c : CustomData) (cluster : ℕ) : ℕ :=
  (c.beginCluster + (cluster + 2 ^ 64 - 2) * c.sectorsPerCluster) * 512 % 2 ^ 64

end CustomData

/-! ### Reading -/

def fileSize (e : Entry) : ℕ := (e 28).toNat + (e 29).toNat * 256 + (e 30).toNat * 65536 + (e 31).toNat * 16777216

def startCluster (e : Entry) : ℕ :=
  if firstCluster e < 2 ^ 31 then firstCluster e else firstCluster e + (2 ^ 64 - 2 ^ 32)

structure ReadState where
  cluster : ℕ
  savedOffset : ℕ
  index : ℕ
  buffer : Mem

def readRound (c : CustomData) (image : Mem) (readSize : ℕ) (s : ReadState) : Round ReadState Mem :=
  if s.index < readSize then
    let offset := (c.clusterToOffset s.cluster + s.savedOffset % c.clusterSize) % 2 ^ 64
    let readCount := min (c.clusterSize - s.savedOffset % c.clusterSize) (readSize - s.index)
    let buffer := write s.buffer s.index (read image offset readCount)
    let index := s.index + readCount
    if index < readSize then
      .next ⟨(c.volume image).getNextCluster (s.cluster % 2 ^ 32), 0, index, buffer⟩
    else .next ⟨s.cluster, 0, index, buffer⟩
  else .done s.buffer

def readSize (e : Entry) (offset size : ℕ) : ℕ :=
  if (offset + size) % 2 ^ 64 ≥ fileSize e then (fileSize e + 2 ^ 64 - offset) % 2 ^ 64 else size

structure ReadResult where
  count : ℕ
  offset : ℕ
  buffer : Mem

/-- `fat32_read`. A round reads at least one byte. -/
def fat32Read (c : CustomData) (image : Mem) (e : Entry) (offset size : ℕ) (buffer : Mem) : Option ReadResult :=
  if c.clusterSize = 0 then none
  else
    let cluster := (fun x => (c.volume image).getNextCluster (x % 2 ^ 32))^[offset / c.clusterSize] (startCluster e)
    (run (readRound c image (readSize e offset size)) (readSize e offset size + 1) ⟨cluster, offset, 0, buffer⟩).map
      fun buffer => ⟨readSize e offset size, (offset + readSize e offset size) % 2 ^ 64, buffer⟩

/-! ### The file -/

def CustomData.clusterStart (c : CustomData) (x : ℕ) : ℕ :=
  (c.reservedSectors + c.fatCount * c.sectorsPerFat + (x - 2) * c.sectorsPerCluster) * 512

/-- The file of the entry is stored in `chain`, which is long enough. The upper four bits of the
links are zero. -/
structure FileChain (c : CustomData) (image : Mem) (e : Entry) (chain : List ℕ) : Prop where
  start : ∀ x, chain[0]? = some x → firstCluster e = x
  next : ∀ t x y, chain[t]? = some x → chain[t + 1]? = some y → (c.volume image).fat x = y
  valid : ∀ x ∈ chain, 2 ≤ x ∧ x < 0x0FFFFFF8 ∧ x < c.fatLength / 4
  enough : fileSize e ≤ chain.length * c.clusterSize

def fileContent (c : CustomData) (image : Mem) (chain : List ℕ) : List (BitVec 8) :=
  chain.flatMap fun x => read image (c.clusterStart x) c.clusterSize

variable {x offset size : ℕ}

lemma fileContent_getElem? {c : CustomData} (image : Mem) (chain : List ℕ) (hsize : 0 < c.clusterSize) {t r : ℕ}
    (hx : chain[t]? = some x) (hr : r < c.clusterSize) :
    (fileContent c image chain)[t * c.clusterSize + r]? = some (image (c.clusterStart x + r)) := by
  rw [fileContent, Slice.getElem?_flatMap_uniform hsize _ fun y _ => length_read]
  have hdiv : (t * c.clusterSize + r) / c.clusterSize = t := by
    rw [Nat.mul_comm, Nat.mul_add_div hsize, Nat.div_eq_of_lt hr, Nat.add_zero]
  have hmod : (t * c.clusterSize + r) % c.clusterSize = r := by
    rw [Nat.mul_comm, Nat.mul_add_mod, Nat.mod_eq_of_lt hr]
  rw [hdiv, hmod, hx, bind_some, ByteMem.read, getElem?_map, getElem?_range hr]
  rfl

structure CustomData.Sized (c : CustomData) : Prop where
  cluster : 1 ≤ c.sectorsPerCluster
  cluster_lt : c.sectorsPerCluster < 2 ^ 8
  reserved_lt : c.reservedSectors < 2 ^ 16
  count_lt : c.fatCount < 2 ^ 8
  fat_lt : c.sectorsPerFat * 512 < 2 ^ 32
  begin_eq : c.beginCluster = c.reservedSectors + c.fatCount * c.sectorsPerFat

lemma fat32Mount_sized {image : Mem} {c : CustomData} (h : fat32Mount image = some c)
    (hcluster : 1 ≤ c.sectorsPerCluster) (hfat : c.sectorsPerFat * 512 < 2 ^ 32) : c.Sized := by
  rw [fat32Mount] at h
  split at h
  · cases h
  · cases h
    have hreserved : load image 0x0E 2 < 256 ^ 2 := load_lt
    have hcount : load image 0x10 1 < 256 ^ 1 := load_lt
    have hsectors : load image 0x0D 1 < 256 ^ 1 := load_lt
    refine ⟨hcluster, hsectors, hreserved, hcount, hfat, Nat.mod_eq_of_lt ?_⟩
    dsimp only at hfat
    have hmul : load image 0x10 1 * load image 0x24 4 ≤ 255 * 8388607 := Nat.mul_le_mul (by omega) (by omega)
    omega

section

variable {c : CustomData} {image : Mem} {e : Entry} {chain : List ℕ}

lemma CustomData.Sized.clusterSize_pos (hc : c.Sized) : 0 < c.clusterSize := by
  have := hc.cluster
  unfold CustomData.clusterSize
  omega

lemma CustomData.Sized.clusterToOffset (hc : c.Sized) (h2 : 2 ≤ x) (hmax : x < 0x0FFFFFF8) :
    c.clusterToOffset x = c.clusterStart x ∧ c.clusterStart x + c.clusterSize < 2 ^ 64 := by
  obtain ⟨y, rfl⟩ := Nat.exists_eq_add_of_le h2
  have hbegin : c.fatCount * c.sectorsPerFat ≤ 255 * 8388607 :=
    Nat.mul_le_mul (by have := hc.count_lt; omega) (by have := hc.fat_lt; omega)
  have hmul : y * c.sectorsPerCluster ≤ 0x0FFFFFF8 * 255 :=
    Nat.mul_le_mul (by omega) (by have := hc.cluster_lt; omega)
  have hreserved := hc.reserved_lt
  have hcluster := hc.cluster_lt
  have hsub : 2 + y + 2 ^ 64 - 2 = 2 ^ 64 + y := by omega
  rw [CustomData.clusterToOffset, CustomData.clusterStart, CustomData.clusterSize, hc.begin_eq, hsub,
    Nat.add_mul (2 ^ 64), Nat.add_sub_cancel_left]
  omega

lemma FileChain.getNextCluster (h : FileChain c image e chain) {t y : ℕ} (hx : chain[t]? = some x)
    (hy : chain[t + 1]? = some y) : (c.volume image).getNextCluster (x % 2 ^ 32) = y := by
  obtain ⟨-, hmax, hlen⟩ := h.valid x (mem_of_getElem? hx)
  obtain ⟨-, hmax', -⟩ := h.valid y (mem_of_getElem? hy)
  have hlen' : ¬ x ≥ (c.volume image).fatLength / 4 := Nat.not_le.mpr hlen
  rw [Nat.mod_eq_of_lt (by omega), Volume.getNextCluster, if_neg hlen', h.next t x y hx hy, if_neg (by omega)]

lemma FileChain.walk (h : FileChain c image e chain) : ∀ {t x : ℕ}, chain[t]? = some x →
    (fun x => (c.volume image).getNextCluster (x % 2 ^ 32))^[t] (startCluster e) = x
  | 0, x, hx => by
    obtain ⟨-, hmax, -⟩ := h.valid x (mem_of_getElem? hx)
    have hfirst := h.start x hx
    rw [Function.iterate_zero_apply, startCluster, if_pos (by omega), hfirst]
  | t + 1, x, hx => by
    have ht : t < chain.length := by
      have := (List.getElem?_eq_some_iff.mp hx).1
      omega
    have hprev : chain[t]? = some chain[t] := getElem?_eq_getElem ht
    rw [Function.iterate_succ_apply', h.walk hprev]
    exact h.getNextCluster hprev hx

/-! ### The loop -/

/-- What the loop has done: the buffer holds the bytes of the file from `offset` on, up to `index`. -/
structure Reading (c : CustomData) (image : Mem) (chain : List ℕ) (offset size : ℕ) (buffer : Mem) (s : ReadState) :
    Prop where
  index_le : s.index ≤ size
  place : s.index < size → chain[(offset + s.index) / c.clusterSize]? = some s.cluster ∧
    s.savedOffset % c.clusterSize = (offset + s.index) % c.clusterSize
  filled : ∀ i < s.index, (fileContent c image chain)[offset + i]? = some (s.buffer i)
  rest : ∀ i, s.index ≤ i → s.buffer i = buffer i

lemma Reading.round {buffer : Mem} (hc : c.Sized) (hchain : FileChain c image e chain)
    (hsize : offset + size ≤ chain.length * c.clusterSize) (s : ReadState)
    (h : Reading c image chain offset size buffer s) :
    (∃ r, readRound c image size s = .done r ∧ (∀ i < size, (fileContent c image chain)[offset + i]? = some (r i)) ∧
      ∀ i, size ≤ i → r i = buffer i) ∨
    ∃ s', readRound c image size s = .next s' ∧ Reading c image chain offset size buffer s' ∧
      size - s'.index < size - s.index := by
  have hpos := hc.clusterSize_pos
  have hle := h.index_le
  by_cases hlt : s.index < size
  case neg =>
    have heq : s.index = size := by omega
    refine .inl ⟨s.buffer, by rw [readRound, if_neg hlt], ?_, ?_⟩
    · rw [← heq]
      exact h.filled
    · rw [← heq]
      exact h.rest
  obtain ⟨hx, hsaved⟩ := h.place hlt
  obtain ⟨h2, hmax, -⟩ := hchain.valid s.cluster (mem_of_getElem? hx)
  obtain ⟨hstart, hover⟩ := hc.clusterToOffset h2 hmax
  have hr : (offset + s.index) % c.clusterSize < c.clusterSize := Nat.mod_lt _ hpos
  have hsplit := Nat.div_add_mod' (offset + s.index) c.clusterSize
  -- the bytes of this round
  have hnew : ∀ j, (offset + s.index) % c.clusterSize + j < c.clusterSize →
      (fileContent c image chain)[offset + (s.index + j)]? =
        some (image (c.clusterStart s.cluster + (offset + s.index) % c.clusterSize + j)) := by
    intro j hj
    have hplace : offset + (s.index + j) =
        (offset + s.index) / c.clusterSize * c.clusterSize + ((offset + s.index) % c.clusterSize + j) := by omega
    rw [hplace, fileContent_getElem? image chain hpos hx hj, Nat.add_assoc]
  simp only [readRound, if_pos hlt, hsaved, hstart,
    Nat.mod_eq_of_lt (by omega : c.clusterStart s.cluster + (offset + s.index) % c.clusterSize < 2 ^ 64)]
  obtain ⟨k, hk⟩ : ∃ k, min (c.clusterSize - (offset + s.index) % c.clusterSize) (size - s.index) = k := ⟨_, rfl⟩
  rw [hk]
  have hfilled : ∀ i < s.index + k, (fileContent c image chain)[offset + i]? = some (write s.buffer s.index
      (ByteMem.read image (c.clusterStart s.cluster + (offset + s.index) % c.clusterSize) k) i) := by
    intro i hi
    rcases Nat.lt_or_ge i s.index with hold | hge
    · rw [write_outside (.inl hold)]
      exact h.filled i hold
    · obtain ⟨j, rfl⟩ := Nat.exists_eq_add_of_le hge
      rw [hnew j (by omega), write_copied (by omega)]
  have hrest : ∀ i, s.index + k ≤ i → write s.buffer s.index
      (ByteMem.read image (c.clusterStart s.cluster + (offset + s.index) % c.clusterSize) k) i = buffer i := by
    intro i hi
    rw [write_outside (.inr (by rw [length_read]; exact hi))]
    exact h.rest i (by omega)
  by_cases hmore : s.index + k < size
  · rw [if_pos hmore]
    refine .inr ⟨_, rfl, ⟨by dsimp only; omega, fun _ => ?_, hfilled, hrest⟩, by dsimp only; omega⟩
    -- the cluster is read to its end
    have hend : offset + (s.index + k) = ((offset + s.index) / c.clusterSize + 1) * c.clusterSize := by
      rw [Nat.add_mul]
      omega
    have hnext : (offset + s.index) / c.clusterSize + 1 < chain.length := by
      by_contra hge
      have := Nat.mul_le_mul_right c.clusterSize (Nat.not_lt.mp hge)
      omega
    dsimp only
    rw [hend, Nat.mul_div_cancel _ hpos, Nat.mul_mod_left, Nat.zero_mod]
    refine ⟨?_, rfl⟩
    rw [getElem?_eq_getElem hnext]
    exact congrArg some (hchain.getNextCluster hx (getElem?_eq_getElem hnext)).symm
  · rw [if_neg hmore]
    exact .inr ⟨_, rfl, ⟨by dsimp only; omega, fun hlt' => absurd hlt' hmore, hfilled, hrest⟩, by dsimp only; omega⟩

lemma fileSize_lt (e : Entry) : fileSize e < 2 ^ 32 := by
  have h28 := (e 28).toNat_lt
  have h29 := (e 29).toNat_lt
  have h30 := (e 30).toNat_lt
  have h31 := (e 31).toNat_lt
  unfold fileSize
  omega

lemma readSize_eq (hoffset : offset ≤ fileSize e) (hsum : offset + size < 2 ^ 64) :
    readSize e offset size = min size (fileSize e - offset) := by
  have hlt := fileSize_lt e
  rw [readSize, Nat.mod_eq_of_lt hsum]
  by_cases hend : offset + size ≥ fileSize e
  · rw [if_pos hend, show fileSize e + 2 ^ 64 - offset = 2 ^ 64 + (fileSize e - offset) by omega, Nat.add_mod_left,
      Nat.mod_eq_of_lt (by omega)]
    omega
  · rw [if_neg hend]
    omega

lemma FileChain.reading (h : FileChain c image e chain) (buffer : Mem)
    (hsize : offset + size ≤ chain.length * c.clusterSize) : Reading c image chain offset size buffer
      ⟨(fun x => (c.volume image).getNextCluster (x % 2 ^ 32))^[offset / c.clusterSize] (startCluster e), offset, 0,
        buffer⟩ := by
  refine ⟨Nat.zero_le _, fun hpos => ⟨?_, rfl⟩, fun i hi => absurd hi (Nat.not_lt_zero i), fun i _ => rfl⟩
  have hin : offset / c.clusterSize < chain.length :=
    Nat.div_lt_of_lt_mul (by rw [Nat.mul_comm]; dsimp only at hpos; omega)
  have hx : chain[offset / c.clusterSize]? = some chain[offset / c.clusterSize] := getElem?_eq_getElem hin
  rw [h.walk hx]
  exact hx

end

/-- **A read delivers the bytes of the file.** On every volume with a table below 4 GiB, the call returns
the smaller of the request and what the file has left, the buffer holds these bytes and is unchanged
behind them, and the node has moved on behind them. -/
theorem file_read (image : Mem) (c : CustomData) (hmount : fat32Mount image = some c)
    (hcluster : 1 ≤ c.sectorsPerCluster) (hfat : c.sectorsPerFat * 512 < 2 ^ 32) (e : Entry) (chain : List ℕ)
    (hchain : FileChain c image e chain) (offset size : ℕ) (hoffset : offset ≤ fileSize e)
    (hsum : offset + size < 2 ^ 64) (buffer : Mem) :
    ∃ res, fat32Read c image e offset size buffer = some res ∧ res.count = min size (fileSize e - offset) ∧
      res.offset = offset + res.count ∧
      ByteMem.read res.buffer 0 res.count = ((fileContent c image chain).drop offset).take res.count ∧
      ∀ i, res.count ≤ i → res.buffer i = buffer i := by
  have hc := fat32Mount_sized hmount hcluster hfat
  have hlt := fileSize_lt e
  have henough := hchain.enough
  rw [fat32Read, if_neg (Nat.pos_iff_ne_zero.mp hc.clusterSize_pos), readSize_eq hoffset hsum]
  obtain ⟨n, hn⟩ : ∃ n, min size (fileSize e - offset) = n := ⟨_, rfl⟩
  rw [hn]
  have hsize : offset + n ≤ chain.length * c.clusterSize := by omega
  obtain ⟨buffer', hrun, hfilled, hrest⟩ := run_of_measure (fun s => n - s.index) (Reading.round hc hchain hsize)
    (n + 1) _
    (hchain.reading buffer hsize) (by dsimp only; omega)
  refine ⟨⟨n, offset + n, buffer'⟩, ?_, rfl, rfl, ?_, hrest⟩
  · simp only [hrun, map_some, Nat.mod_eq_of_lt (by omega : offset + n < 2 ^ 64)]
  · refine ext_getElem? fun i => ?_
    rcases Nat.lt_or_ge i n with hi | hi
    · rw [getElem?_take_of_lt hi, getElem?_drop, hfilled i hi, ByteMem.read, getElem?_map,
        getElem?_range hi, map_some, Nat.zero_add]
    · rw [getElem?_eq_none (by rw [length_read]; exact hi), getElem?_take_eq_none hi]

/-! ### A small volume -/

/-- One sector to a cluster, one reserved sector and one table of one sector, in which cluster 3 is
followed by cluster 2. The clusters start at byte 1024. -/
def smallImage : Mem := fun a =>
  if a = 0x1FE then 0x55 else if a = 0x1FF then 0xAA
  else if a = 0x0D ∨ a = 0x0E ∨ a = 0x10 ∨ a = 0x24 then 1
  else if a = 524 then 2
  else if 1024 ≤ a then .ofNat 8 (a / 512) else 0

def smallFile : Entry := fun i => if i = 26 then 3 else if i = 28 then 88 else if i = 29 then 2 else 0

def smallData : CustomData := ⟨1, 1, 1, 1, 0, 2⟩

lemma smallFile_chain : FileChain smallData smallImage smallFile [3, 2] := by
  refine ⟨fun x hx => ?_, fun t x y hx hy => ?_, by decide, by decide⟩
  · cases hx
    rfl
  · cases t with
    | zero =>
      cases hx
      cases hy
      decide
    | succ t => cases t <;> cases hy

theorem file_read_small :
    ∃ res, fat32Read smallData smallImage smallFile 502 20 (fun _ => 0) = some res ∧ res.count = 20 ∧
    res.offset = 522 ∧ ByteMem.read res.buffer 0 20 = List.replicate 10 3 ++ List.replicate 10 2 := by
  have hmount : fat32Mount smallImage = some smallData := by decide +kernel
  obtain ⟨res, hread, hcount, hoffset, hbytes, -⟩ := file_read smallImage smallData hmount (by decide)
    (by decide) smallFile [3, 2]
    smallFile_chain 502 20 (by decide) (by decide) (fun _ => 0)
  have h20 : res.count = 20 := hcount.trans (by decide)
  rw [h20] at hoffset hbytes
  refine ⟨res, hread, h20, hoffset, hbytes.trans ?_⟩
  decide +kernel

end WivOS.Fat32
