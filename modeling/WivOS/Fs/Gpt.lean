/-
# The partitions of a disk

`partfs_enumerate_gpt` of `kernel/fs/partfs/partfs.c`: it reads the header and the partition array, checks the two
checksums and mounts a node for each record that is used. The records are taken with a stride that is rounded down to
whole `gpt_partition_header_t`, and the last sector of a partition is left out. So what is mounted is right only where
another record is looked at instead, which ends one sector later (`enumerated_iff`).
-/
import WivOS.Fs.Partfs
import WivOS.Lib.ByteMem
import WivOS.Utils.Crc

namespace WivOS.Partfs

open List Option Utils
open ByteMem (Mem read toBytes)

/-! ### The tables -/

def fieldOf (bytes : List Byte) (offset k : ℕ) : ℕ := ByteMem.ofBytes ((bytes.drop offset).take k)

structure GptHeader where
  headerChecksum : ℕ
  startLba : ℕ
  count : ℕ
  entryLength : ℕ
  paritionTableChecksum : ℕ

def gptHeader (bytes : List Byte) : GptHeader :=
  ⟨fieldOf bytes 16 4, fieldOf bytes 72 8, fieldOf bytes 80 4, fieldOf bytes 84 4, fieldOf bytes 88 4⟩

structure GptPartition where
  firstGuidPart : ℕ
  secondGuidPart : ℕ
  startLba : ℕ
  endLba : ℕ

def gptPartition (bytes : List Byte) : GptPartition :=
  ⟨fieldOf bytes 0 8, fieldOf bytes 8 8, fieldOf bytes 32 8, fieldOf bytes 40 8⟩

def GptPartition.Used (p : GptPartition) : Prop := ¬ (p.firstGuidPart = 0 ∧ p.secondGuidPart = 0)

instance (p : GptPartition) : Decidable p.Used := inferInstanceAs (Decidable (¬ _))

def GptPartition.entry (p : GptPartition) : Part :=
  ⟨UInt64.ofNat p.startLba, UInt64.ofNat p.endLba - UInt64.ofNat p.startLba, true, none⟩

namespace GptHeader

variable (h : GptHeader)

def entryStride : ℕ := h.entryLength / 128

def paritionArraySize : ℕ := 128 * h.entryStride * h.count % 2 ^ 64

def table : ℕ := h.startLba * 0x200 % 2 ^ 64

end GptHeader

/-! ### The names -/

/-- The loop of `_ntoa_long`, with base 10 and `room` in the buffer: the lowest digit first. -/
def ntoa : ℕ → ℕ → List Char
  | 0, _ => []
  | room + 1, value =>
    Char.ofNat ('0'.toNat + value % 10) :: if value / 10 = 0 then [] else ntoa room (value / 10)

/-- What `%d` writes for a `size_t`, of which it takes an `int`. -/
def formatInt (i : ℕ) : List Char :=
  let value := (BitVec.ofNat 32 i).toInt
  let buf := ntoa 32 value.natAbs
  (if value < 0 ∧ buf.length < 32 then buf ++ ['-'] else buf).reverse

def partitionName (deviceName : List Char) (i : ℕ) : Option (List Char) :=
  let name := deviceName ++ 'p' :: formatInt i
  if name.length + 1 ≤ 256 then some name else none

/-! ### The loop over the records -/

structure Mounted where
  name : List Char
  entry : Part

def partitionAt (partitionArray : List Byte) (index : ℕ) : Option GptPartition :=
  if 128 * index + 128 ≤ partitionArray.length then some (gptPartition ((partitionArray.drop (128 * index)).take 128))
  else none

def mountPartition (deviceName : List Char) (partitionArray : List Byte) (entryStride : ℕ) (nodes : List Mounted)
    (i : ℕ) :
    Option (List Mounted) := do
  let parition ← partitionAt partitionArray (i * entryStride)
  if parition.Used then
    let name ← partitionName deviceName i
    some (nodes ++ [⟨name, parition.entry⟩])
  else some nodes

/-- `partfs_enumerate_gpt`: what it returns, and the nodes that it has mounted. -/
def partfsEnumerateGpt (disk : Mem) (deviceName : List Char) : Option (Bool × List Mounted) :=
  let bytes := read disk 0x200 92
  let header := gptHeader bytes
  if (crc32CalculateBuffer (Slice.splice bytes 16 (toBytes 4 0))).toNat ≠ header.headerChecksum then some (false, [])
  else
    let partitionArray := read disk header.table header.paritionArraySize
    if (crc32CalculateBuffer partitionArray).toNat ≠ header.paritionTableChecksum then some (false, [])
    else ((List.range header.count).foldlM (mountPartition deviceName partitionArray header.entryStride) []).map
      fun nodes => (true, nodes)

/-! ### What should be mounted -/

def headerOf (disk : Mem) : GptHeader := gptHeader (read disk 0x200 92)

structure Checked (disk : Mem) : Prop where
  header : (crc32CalculateBuffer (Slice.splice (read disk 0x200 92) 16 (toBytes 4 0))).toNat =
    (headerOf disk).headerChecksum
  array : (crc32CalculateBuffer (read disk (headerOf disk).table (headerOf disk).paritionArraySize)).toNat =
    (headerOf disk).paritionTableChecksum

def recordOf (disk : Mem) (i : ℕ) : GptPartition :=
  gptPartition (read disk ((headerOf disk).table + i * (headerOf disk).entryLength) 128)

def lookedAt (disk : Mem) (i : ℕ) : GptPartition :=
  gptPartition (read disk ((headerOf disk).table + 128 * (i * (headerOf disk).entryStride)) 128)

def Part.HasSector (p : Part) (s : ℕ) : Prop := p.firstLba.toNat ≤ s ∧ s < p.firstLba.toNat + p.lbaCount.toNat

/-- Each record that the loop looks at lies in the array, and each record that is used gets one node, with its sectors. -/
structure Enumerated (disk : Mem) (deviceName : List Char) : Prop where
  inside : ∀ i < (headerOf disk).count, 128 * (i * (headerOf disk).entryStride) + 128 ≤
    (headerOf disk).paritionArraySize
  mounted : ∃ nodes, partfsEnumerateGpt disk deviceName = some (true, nodes) ∧
    ∀ i < (headerOf disk).count, (recordOf disk i).Used → ∃ node,
      nodes.filter (fun node => node.name = deviceName ++ 'p' :: Nat.toDigits 10 i) = [node] ∧
        ∀ s, node.entry.HasSector s ↔ (recordOf disk i).startLba ≤ s ∧ s ≤ (recordOf disk i).endLba

/-- The first record has its sectors if an entry is made of the second one, which has to end one sector later. -/
def GptPartition.Replaces (looked record : GptPartition) : Prop :=
  (looked.endLba + 2 ^ 64 - looked.startLba) % 2 ^ 64 = record.endLba + 1 - record.startLba ∧
    (record.startLba ≤ record.endLba → looked.startLba = record.startLba)

/-- What the disk and the name of the device have to be like. -/
structure Suitable (disk : Mem) (deviceName : List Char) : Prop where
  stride : (headerOf disk).count = 0 ∨ 128 ≤ (headerOf disk).entryLength
  names : ∀ i < (headerOf disk).count, (lookedAt disk i).Used → (deviceName ++ 'p' :: formatInt i).length + 1 ≤ 256
  records : ∀ i < (headerOf disk).count, (recordOf disk i).Used →
    i < 2 ^ 31 ∧ (lookedAt disk i).Used ∧ (lookedAt disk i).Replaces (recordOf disk i)

/-! ### Numbers -/

lemma fieldOf_lt (bytes : List Byte) (offset k : ℕ) : fieldOf bytes offset k < 256 ^ k :=
  Nat.lt_of_lt_of_le (ByteMem.ofBytes_lt _) (Nat.pow_le_pow_right (by decide) (length_take_le _ _))

lemma digitChar_eq {d : ℕ} (h : d < 10) : Char.ofNat ('0'.toNat + d) = d.digitChar := by
  have hdigits : ∀ d < 10, Char.ofNat ('0'.toNat + d) = d.digitChar := by decide
  exact hdigits d h

lemma ntoa_eq : ∀ {room value : ℕ}, value < 10 ^ (room + 1) → (ntoa (room + 1) value).reverse = Nat.toDigits 10 value
  | room, value, h => by
    have hlast : Nat.toDigits 10 (value % 10) = [(value % 10).digitChar] :=
      Nat.toDigits_of_lt_base (Nat.mod_lt _ (by decide))
    rw [ntoa, digitChar_eq (Nat.mod_lt _ (by decide)), reverse_cons, ← hlast]
    by_cases hten : value / 10 = 0
    · rw [if_pos hten, reverse_nil, nil_append, Nat.mod_eq_of_lt (by omega)]
    · rw [if_neg hten]
      cases room with
      | zero => exact absurd (Nat.div_eq_of_lt h) hten
      | succ room =>
        have hrest : value / 10 < 10 ^ (room + 1) := Nat.div_lt_of_lt_mul (by rwa [Nat.mul_comm, ← Nat.pow_succ])
        rw [ntoa_eq hrest, Nat.toDigits_append_toDigits (by decide) (Nat.pos_of_ne_zero hten)
          (Nat.mod_lt _ (by decide)),
          Nat.div_add_mod]

lemma length_ntoa : ∀ {room value k : ℕ}, value < 10 ^ (k + 1) → (ntoa room value).length ≤ k + 1
  | 0, _, _, _ => Nat.zero_le _
  | room + 1, value, k, h => by
    rw [ntoa, length_cons]
    by_cases hten : value / 10 = 0
    · rw [if_pos hten, length_nil]
      omega
    · rw [if_neg hten]
      cases k with
      | zero => exact absurd (Nat.div_eq_of_lt h) hten
      | succ k =>
        have hrest : value / 10 < 10 ^ (k + 1) := Nat.div_lt_of_lt_mul (by rwa [Nat.mul_comm, ← Nat.pow_succ])
        exact Nat.succ_le_succ (length_ntoa hrest)

lemma formatInt_of_lt {i : ℕ} (h : i < 2 ^ 31) : formatInt i = Nat.toDigits 10 i := by
  have hvalue : (BitVec.ofNat 32 i).toInt = i := by
    rw [BitVec.toInt_eq_toNat_bmod, BitVec.toNat_ofNat, Int.bmod_def]
    omega
  rw [formatInt, hvalue, if_neg (by omega), Int.natAbs_natCast]
  exact ntoa_eq (Nat.lt_trans h (by decide))

lemma formatInt_of_le {i : ℕ} (h : 2 ^ 31 ≤ i) (hlt : i < 2 ^ 32) : '-' ∈ formatInt i := by
  have hvalue : (BitVec.ofNat 32 i).toInt = (i : ℤ) - 2 ^ 32 := by
    rw [BitVec.toInt_eq_toNat_bmod, BitVec.toNat_ofNat, Int.bmod_def]
    omega
  have hroom : (ntoa 32 ((i : ℤ) - 2 ^ 32).natAbs).length ≤ 10 := length_ntoa (by omega)
  rw [formatInt, hvalue, if_pos ⟨by omega, by omega⟩, mem_reverse]
  exact mem_append_right _ mem_cons_self

/-- **A number** is written as it should be exactly if it is one of an `int`. -/
lemma formatInt_eq_iff {i j : ℕ} (hj : j < 2 ^ 32) : formatInt j = Nat.toDigits 10 i ↔ j = i ∧ i < 2 ^ 31 := by
  by_cases hlow : j < 2 ^ 31
  · rw [formatInt_of_lt hlow]
    constructor
    · intro h
      have hvalue : Nat.ofDigitChars 10 (Nat.toDigits 10 j) 0 = Nat.ofDigitChars 10 (Nat.toDigits 10 i) 0 := by rw [h]
      rw [Nat.ofDigitChars_toDigits (by decide) (by decide), Nat.ofDigitChars_toDigits (by decide)
        (by decide)] at hvalue
      exact ⟨hvalue, hvalue ▸ hlow⟩
    · rintro ⟨rfl, -⟩
      rfl
  · refine iff_of_false (fun h => ?_) (by omega)
    have hsign := formatInt_of_le (Nat.le_of_not_lt hlow) hj
    rw [h] at hsign
    exact absurd (Nat.isDigit_of_mem_toDigits (by decide) (by decide) hsign) (by decide)

lemma hasSector_iff {looked record : GptPartition} (hstart : looked.startLba < 2 ^ 64) (hend : looked.endLba < 2 ^ 64) :
    (∀ s, looked.entry.HasSector s ↔ record.startLba ≤ s ∧ s ≤ record.endLba) ↔ looked.Replaces record := by
  have hfirst : looked.entry.firstLba.toNat = looked.startLba := UInt64.toNat_ofNat_of_lt' hstart
  have hcount : looked.entry.lbaCount.toNat = (looked.endLba + 2 ^ 64 - looked.startLba) % 2 ^ 64 := by
    rw [GptPartition.entry, UInt64.toNat_sub, UInt64.toNat_ofNat_of_lt' hstart, UInt64.toNat_ofNat_of_lt' hend]
    congr 1
    omega
  unfold Part.HasSector GptPartition.Replaces
  rw [hfirst, hcount]
  generalize (looked.endLba + 2 ^ 64 - looked.startLba) % 2 ^ 64 = n
  constructor
  · intro h
    have hs := h record.startLba
    have he := h record.endLba
    have hl := h looked.startLba
    have hn := h (looked.startLba + n - 1)
    have hb := h (record.endLba + 1)
    omega
  · rintro ⟨hn, hsame⟩ s
    omega

/-! ### The array -/

variable {disk : Mem} {deviceName : List Char} {i : ℕ}

lemma paritionArraySize_eq (disk : Mem) :
    (headerOf disk).paritionArraySize = 128 * ((headerOf disk).entryStride * (headerOf disk).count) := by
  have hcount : (headerOf disk).count < 2 ^ 32 := fieldOf_lt _ 80 4
  have hlength : (headerOf disk).entryLength < 2 ^ 32 := fieldOf_lt _ 84 4
  have hstride : 128 * (headerOf disk).entryStride < 2 ^ 32 := Nat.lt_of_le_of_lt (Nat.mul_div_le _ _) hlength
  rw [GptHeader.paritionArraySize, Nat.mod_eq_of_lt, Nat.mul_assoc]
  calc 128 * (headerOf disk).entryStride * (headerOf disk).count < 2 ^ 32 * 2 ^ 32 := Nat.mul_lt_mul'' hstride hcount
    _ = 2 ^ 64 := rfl

section

variable (hstride : 0 < (headerOf disk).count → 0 < (headerOf disk).entryStride) (hi : i < (headerOf disk).count)
include hstride hi

lemma inside_of_stride :
    128 * (i * (headerOf disk).entryStride) + 128 ≤ (headerOf disk).paritionArraySize := by
  have hnext : (i + 1) * (headerOf disk).entryStride ≤ (headerOf disk).count * (headerOf disk).entryStride :=
    Nat.mul_le_mul_right _ hi
  have hpos := hstride (Nat.zero_lt_of_lt hi)
  rw [Nat.add_mul, Nat.one_mul] at hnext
  rw [paritionArraySize_eq, Nat.mul_comm (headerOf disk).entryStride]
  omega

lemma partitionAt_eq :
    partitionAt (read disk (headerOf disk).table (headerOf disk).paritionArraySize) (i * (headerOf disk).entryStride) =
      some (lookedAt disk i) := by
  have hinside := inside_of_stride hstride hi
  rw [partitionAt, ByteMem.length_read, if_pos hinside, ByteMem.slice_read hinside]
  rfl

/-! ### The loop -/

end

def mountedFor (disk : Mem) (deviceName : List Char) (i : ℕ) : Option Mounted :=
  if (lookedAt disk i).Used then some ⟨deviceName ++ 'p' :: formatInt i, (lookedAt disk i).entry⟩ else none

def mountPartitions (disk : Mem) (deviceName : List Char) (n : ℕ) : Option (List Mounted) :=
  (List.range n).foldlM (mountPartition deviceName (read disk (headerOf disk).table (headerOf disk).paritionArraySize)
    (headerOf disk).entryStride) []

section

variable (hstride : 0 < (headerOf disk).count → 0 < (headerOf disk).entryStride)
include hstride

lemma mountPartition_eq (hi : i < (headerOf disk).count)
    (hname : (lookedAt disk i).Used → (deviceName ++ 'p' :: formatInt i).length + 1 ≤ 256) (nodes : List Mounted) :
    mountPartition deviceName (read disk (headerOf disk).table (headerOf disk).paritionArraySize)
      (headerOf disk).entryStride nodes i = some (nodes ++ (mountedFor disk deviceName i).toList) := by
  rw [mountPartition, partitionAt_eq hstride hi, bind_eq_bind, bind_some, mountedFor]
  by_cases hused : (lookedAt disk i).Used
  · rw [if_pos hused, if_pos hused, partitionName, if_pos (hname hused), bind_eq_bind, bind_some]
    rfl
  · rw [if_neg hused, if_neg hused, toList_none, append_nil]

/-- **The loop** mounts a node for each record it looks at that is used, if their names fit. -/
lemma mounted_run : ∀ {n : ℕ}, n ≤ (headerOf disk).count →
    (∀ i < n, (lookedAt disk i).Used → (deviceName ++ 'p' :: formatInt i).length + 1 ≤ 256) →
    mountPartitions disk deviceName n = some ((List.range n).filterMap (mountedFor disk deviceName))
  | 0, _, _ => rfl
  | n + 1, hn, hnames => by
    have hrun := mounted_run (Nat.le_of_succ_le hn) fun i hi => hnames i (Nat.lt_succ_of_lt hi)
    rw [mountPartitions] at hrun ⊢
    rw [range_succ, foldlM_append, hrun, bind_eq_bind, bind_some, foldlM_cons,
      mountPartition_eq hstride hn (hnames n (Nat.lt_succ_self n)), filterMap_append, filterMap_cons]
    cases mountedFor disk deviceName n <;> rfl

lemma names_of_run {nodes : List Mounted}
    (hrun : mountPartitions disk deviceName (headerOf disk).count = some nodes) :
    ∀ i < (headerOf disk).count, (lookedAt disk i).Used → (deviceName ++ 'p' :: formatInt i).length + 1 ≤ 256 := by
  intro i hi hused
  by_contra hname
  have hnone : ∀ nodes, mountPartition deviceName (read disk (headerOf disk).table (headerOf disk).paritionArraySize)
      (headerOf disk).entryStride nodes i = none := by
    intro nodes
    rw [mountPartition, partitionAt_eq hstride hi, bind_eq_bind, bind_some, if_pos hused, partitionName, if_neg hname]
    rfl
  have hfault := Machine.run_eq_none _ hnone [] (mem_range.mpr hi)
  cases hrun.symm.trans hfault

end

lemma filterMap_range {α : Type*} {g : ℕ → Option α} : ∀ {n : ℕ}, i < n → (∀ j < n, j ≠ i → g j = none) →
    (List.range n).filterMap g = (g i).toList
  | n + 1, hi, h => by
    rw [range_succ, filterMap_append, filterMap_cons, filterMap_nil]
    by_cases heq : i = n
    · have hbelow : (List.range n).filterMap g = [] :=
        filterMap_eq_nil_iff.mpr fun j hj => h j (Nat.lt_succ_of_lt (mem_range.mp hj))
          (Nat.ne_of_lt (heq ▸ mem_range.mp hj))
      rw [hbelow, heq]
      cases g n <;> rfl
    · rw [filterMap_range (by omega) fun j hj => h j (Nat.lt_succ_of_lt hj), h n (Nat.lt_succ_self n) (Ne.symm heq)]
      exact append_nil _

lemma filter_mounted (hi : i < (headerOf disk).count) :
    ((List.range (headerOf disk).count).filterMap (mountedFor disk deviceName)).filter
        (fun node => node.name = deviceName ++ 'p' :: Nat.toDigits 10 i) =
      if i < 2 ^ 31 then (mountedFor disk deviceName i).toList else [] := by
  have hcount : (headerOf disk).count < 2 ^ 32 := fieldOf_lt _ 80 4
  have hnamed : ∀ j < (headerOf disk).count, (mountedFor disk deviceName j).filter
      (fun node => node.name = deviceName ++ 'p' :: Nat.toDigits 10 i) =
        if j = i ∧ i < 2 ^ 31 then mountedFor disk deviceName j else none := by
    intro j hj
    have hname : deviceName ++ 'p' :: formatInt j = deviceName ++ 'p' :: Nat.toDigits 10 i ↔ j = i ∧ i < 2 ^ 31 := by
      rw [append_right_inj, cons_inj_right, formatInt_eq_iff (Nat.lt_trans hj hcount)]
    rw [mountedFor]
    by_cases hused : (lookedAt disk j).Used
    · rw [if_pos hused, filter_some]
      simp only [hname, decide_eq_true_eq]
    · rw [if_neg hused, filter_none, ite_self]
  rw [filter_filterMap, filterMap_range hi fun j hj hne => by rw [hnamed j hj, if_neg fun h => hne h.1], hnamed i hi]
  by_cases hlow : i < 2 ^ 31
  · rw [if_pos ⟨rfl, hlow⟩, if_pos hlow]
  · rw [if_neg fun h => hlow h.2, if_neg hlow, toList_none]

lemma partfsEnumerateGpt_eq (h : Checked disk) (deviceName : List Char) : partfsEnumerateGpt disk deviceName =
    (mountPartitions disk deviceName (headerOf disk).count).map fun nodes => (true, nodes) := by
  have hheader := h.header
  have harray := h.array
  rw [headerOf] at hheader harray
  rw [partfsEnumerateGpt]
  dsimp only
  rw [if_neg (not_not.mpr hheader), if_neg (not_not.mpr harray)]
  rfl

/-- **The partitions of a disk.** Whatever the table is like, what is mounted is right exactly if the records have
128 bytes or more, the names fit, and for each record that is used the one that is looked at stands for it. -/
theorem enumerated_iff (disk : Mem) (deviceName : List Char) (h : Checked disk) :
    Enumerated disk deviceName ↔ Suitable disk deviceName := by
  have hsector : ∀ i, (∀ s, (lookedAt disk i).entry.HasSector s ↔
    (recordOf disk i).startLba ≤ s ∧ s ≤ (recordOf disk i).endLba) ↔
      (lookedAt disk i).Replaces (recordOf disk i) :=
    fun i => hasSector_iff (fieldOf_lt _ 32 8) (fieldOf_lt _ 40 8)
  constructor
  · rintro ⟨hinside, nodes, hcall, hnodes⟩
    have hlength : 0 < (headerOf disk).count → 128 ≤ (headerOf disk).entryLength := by
      intro hpos
      have hfirst := hinside 0 hpos
      by_contra hlt
      have hstride : (headerOf disk).entryStride = 0 := Nat.div_eq_of_lt (Nat.lt_of_not_le hlt)
      rw [paritionArraySize_eq, hstride] at hfirst
      omega
    have hstride : 0 < (headerOf disk).count → 0 < (headerOf disk).entryStride :=
      fun hpos => Nat.div_pos (hlength hpos) (by decide)
    obtain ⟨nodes', hrun, hsame⟩ := map_eq_some_iff.mp ((partfsEnumerateGpt_eq h deviceName).symm.trans hcall)
    obtain rfl : nodes' = nodes := (Prod.mk.inj hsame).2
    have hnames := names_of_run hstride hrun
    obtain rfl := some.inj ((mounted_run hstride (Nat.le_refl _) hnames).symm.trans hrun)
    refine ⟨by omega, hnames, fun i hi hused => ?_⟩
    obtain ⟨node, hfilter, hsectors⟩ := hnodes i hi hused
    rw [filter_mounted hi] at hfilter
    split at hfilter
    · rename_i hlow
      rw [mountedFor] at hfilter
      split at hfilter
      · rename_i hlooked
        obtain rfl := singleton_inj.mp hfilter
        exact ⟨hlow, hlooked, (hsector i).mp hsectors⟩
      · cases hfilter
    · cases hfilter
  · rintro ⟨hlength, hnames, hrecords⟩
    have hstride : 0 < (headerOf disk).count → 0 < (headerOf disk).entryStride :=
      fun hpos => Nat.div_pos (hlength.resolve_left (Nat.ne_of_gt hpos)) (by decide)
    have hcall : partfsEnumerateGpt disk deviceName =
        some (true, (List.range (headerOf disk).count).filterMap (mountedFor disk deviceName)) := by
      rw [partfsEnumerateGpt_eq h, mounted_run hstride (Nat.le_refl _) hnames, map_some]
    refine ⟨fun i hi => inside_of_stride hstride hi, _, hcall, fun i hi hused => ?_⟩
    obtain ⟨hlow, hlooked, hreplaces⟩ := hrecords i hi hused
    refine ⟨⟨deviceName ++ 'p' :: formatInt i, (lookedAt disk i).entry⟩, ?_, (hsector i).mpr hreplaces⟩
    rw [filter_mounted hi, if_pos hlow, mountedFor, if_pos hlooked, toList_some]

def gptDisk (headerChecksum tableChecksum : ℕ) (record : List Byte) : Mem := fun x =>
  if x < 0x400 then (List.replicate 16 0 ++ toBytes 4 headerChecksum ++ List.replicate 52 0 ++ toBytes 8 2 ++
    toBytes 4 1 ++
    toBytes 4 128 ++ toBytes 4 tableChecksum).getD (x - 0x200) 0
  else record.getD (x - 0x400) 0

def usedRecord : List Byte := toBytes 32 1 ++ toBytes 8 34 ++ toBytes 8 100 ++ List.replicate 80 0

def usedDisk : Mem := gptDisk 0x2913ECBF 0x22439CE8 usedRecord

/-- The entry that is made of its record ends a sector too early. -/
theorem enumerated_iff_used : Checked usedDisk ∧ ¬ Enumerated usedDisk "nvme0".toList := by
  have h : Checked usedDisk := ⟨by decide +kernel, by decide +kernel⟩
  have hcount : ¬ (lookedAt usedDisk 0).Replaces (recordOf usedDisk 0) := by
    unfold GptPartition.Replaces
    decide +kernel
  refine ⟨h, fun henumerated => hcount ?_⟩
  exact (((enumerated_iff _ _ h).mp henumerated).records 0 (by decide +kernel) (by decide +kernel)).2.2

/-- The node has the sectors from 34 to 99 only. -/
theorem last_sector_lost : Checked usedDisk ∧
    ((partfsEnumerateGpt usedDisk "nvme0".toList).map fun r => (r.1, r.2.map fun node =>
      (node.name, node.entry.firstLba.toNat, node.entry.lbaCount.toNat))) = some (true, [("nvme0p0".toList, 34, 66)]) ∧
    (recordOf usedDisk 0).startLba = 34 ∧ (recordOf usedDisk 0).endLba = 100 ∧ ¬ Enumerated usedDisk "nvme0".toList := by
  have hcall : ((partfsEnumerateGpt usedDisk "nvme0".toList).map fun r => (r.1, r.2.map fun node =>
      (node.name, node.entry.firstLba.toNat, node.entry.lbaCount.toNat))) = some (true, [("nvme0p0".toList, 34, 66)]) := by
    decide +kernel
  have hend : (recordOf usedDisk 0).endLba = 100 := by decide +kernel
  have hstart : (recordOf usedDisk 0).startLba = 34 := by decide +kernel
  refine ⟨⟨by decide +kernel, by decide +kernel⟩, hcall, hstart, hend, ?_⟩
  rintro ⟨-, nodes, hnodes, hright⟩
  obtain ⟨node, hfilter, hsectors⟩ := hright 0 (by decide +kernel) (by decide +kernel)
  have hmem : node ∈ nodes := mem_of_mem_filter (hfilter ▸ mem_singleton_self node)
  rw [hnodes, map_some] at hcall
  have hnode := mem_map_of_mem (f := fun node : Mounted =>
    (node.name, node.entry.firstLba.toNat, node.entry.lbaCount.toNat))
    hmem
  rw [(Prod.mk.inj (some.inj hcall)).2, mem_singleton] at hnode
  obtain ⟨-, hsector⟩ := Prod.mk.inj hnode
  obtain ⟨hfirst, hcount⟩ := Prod.mk.inj hsector
  have hlast := (hsectors 100).mpr ⟨by omega, by omega⟩
  rw [Part.HasSector, hfirst, hcount] at hlast
  omega

end WivOS.Partfs
