/-
# Seeking on four kinds of nodes

`fat32_lseek`, `ext2_lseek`, `partfs_lseek` and `nvme_lseek` are copies of one function that differ in which operands
are signed: `fat32_lseek` takes negative offsets for `SEEK_SET`, `ext2_lseek` takes offsets from before the file for
`SEEK_END`, and the other two always fail there; `partfs_lseek` compares with the end of the partition on the disk.
`seeks_iff_agrees` says for each of them where it is right.
-/
import WivOS.Devices.NvmeCache
import WivOS.Fs.Partfs

namespace WivOS.Lseek

open Option

open Partfs (Whence)

abbrev Word := BitVec 64

/-! ### The four functions -/

/-- The switch in `fat32_lseek`: the new offset of the node. The length and the offset are `int64_t`,
and the offset of the node is unsigned. -/
def fat32Lseek (size : BitVec 32) (old offset : Word) : Whence → Option Word
  | .set => if (size.setWidth 64).sle offset then none else some offset
  | .fromEnd =>
    if (size.setWidth 64 + offset).slt 0 ∨ (0 : Word).sle offset then none else some (size.setWidth 64 + offset)
  | .cur => if old + offset ≥ size.setWidth 64 ∨ old + offset < 0 then none else some (old + offset)
  | .other => none

/-- The switch in `ext2_lseek`: the length is a `size_t`, the offset an `int64_t`. -/
def ext2Lseek (sizeLo : BitVec 32) (old offset : Word) : Whence → Option Word
  | .set => if offset ≥ sizeLo.setWidth 64 then none else some offset
  | .fromEnd =>
    if sizeLo.setWidth 64 + offset < 0 ∨ (0 : Word).sle offset then none else some (sizeLo.setWidth 64 + offset)
  | .cur => if old + offset ≥ sizeLo.setWidth 64 ∨ old + offset < 0 then none else some (old + offset)
  | .other => none

/-- A node of one of the four kinds, by what its function reads. -/
inductive Backend where
  | fat32 (size : BitVec 32)
  | ext2 (sizeLo : BitVec 32)
  | partfs (part : Partfs.Part)
  | nvme (geometry : Nvme.Geometry)

namespace Backend

def length : Backend → ℕ
  | fat32 size => size.toNat
  | ext2 sizeLo => sizeLo.toNat
  | partfs part => part.lbaCount.toNat * 0x200
  | nvme geometry => geometry.lbaCount * geometry.lbaSize

/-- `SEEK_SET`, `SEEK_CUR`, `SEEK_END`. -/
def code : Whence → ℕ
  | .set => 0
  | .cur => 1
  | .fromEnd => 2
  | .other => 3

def newOffset (old offset : Word) (type : Whence) : Backend → Option Word
  | fat32 size => fat32Lseek size old offset type
  | ext2 sizeLo => ext2Lseek sizeLo old offset type
  | partfs part => (part.lseek ⟨old⟩ ⟨offset⟩ type).map UInt64.toBitVec
  | nvme geometry => Nvme.nvmeLseek geometry old offset (code type)

def lseek (b : Backend) (old offset : Word) (type : Whence) : Word × Word :=
  match b.newOffset old offset type with
  | none => (-1, old)
  | some new => (new, new)

def target (b : Backend) (old offset : Word) : Whence → ℤ
  | .set => offset.toInt
  | .cur => old.toNat + offset.toInt
  | .fromEnd => b.length + offset.toInt
  | .other => -1

/-- The seek goes to its target and returns it, or it returns -1 and the target is not in the file. -/
def Seeks (b : Backend) (old offset : Word) (type : Whence) : Prop :=
  (0 ≤ b.target old offset type ∧ b.target old offset type < b.length →
    b.lseek old offset type = (.ofInt 64 (b.target old offset type), .ofInt 64 (b.target old offset type))) ∧
  (¬ (0 ≤ b.target old offset type ∧ b.target old offset type < b.length) → b.lseek old offset type = (-1, old))

def Agrees (b : Backend) (old offset : Word) (type : Whence) : Prop :=
  match b, type with
  | fat32 _, .set => 0 ≤ offset.toInt
  | ext2 sizeLo, .fromEnd => 0 ≤ sizeLo.toNat + offset.toInt
  | partfs part, .set => ((part.firstLba + part.lbaCount) * 0x200).toNat ≤ offset.toNat ↔ b.length ≤ offset.toNat
  | partfs part, .cur =>
    ((part.firstLba + part.lbaCount) * 0x200).toNat ≤ (old + offset).toNat ↔ b.length ≤ (old + offset).toNat
  | partfs _, .fromEnd => 0 ≤ offset.toInt ∨ b.length + offset.toInt < 0
  | nvme _, .fromEnd => 0 ≤ offset.toInt ∨ b.length + offset.toInt < 0
  | _, _ => True

def expected (b : Backend) (old offset : Word) (type : Whence) : Option Word :=
  if 0 ≤ b.target old offset type ∧ b.target old offset type < b.length
  then some (.ofInt 64 (b.target old offset type)) else none

variable {b : Backend} {old offset : Word} {type : Whence}

lemma seeks_iff_expected (hlength : b.length < 2 ^ 62) (hold : old.toNat ≤ b.length) :
    b.Seeks old offset type ↔ b.newOffset old offset type = b.expected old offset type := by
  have hne : old ≠ -1 := by
    rintro rfl
    rw [show (-1 : Word).toNat = 2 ^ 64 - 1 from rfl] at hold
    omega
  unfold Seeks expected lseek
  by_cases hin : 0 ≤ b.target old offset type ∧ b.target old offset type < b.length
  · rw [if_pos hin]
    have htarget : (-1 : Word) ≠ .ofInt 64 (b.target old offset type) := by
      intro h
      have := congrArg BitVec.toNat h
      rw [show (-1 : Word).toNat = 2 ^ 64 - 1 from rfl, BitVec.toNat_ofInt] at this
      omega
    cases b.newOffset old offset type with
    | none =>
      simp only [hin, and_self, true_imp_iff, Prod.mk.injEq, htarget, false_and, reduceCtorEq, not_true_eq_false,
        false_imp_iff, and_true]
    | some new => simp [hin]
  · rw [if_neg hin]
    cases b.newOffset old offset type with
    | none => simp [hin]
    | some new =>
      simp only [hin, false_imp_iff, true_and, not_false_eq_true, true_imp_iff, Prod.mk.injEq, reduceCtorEq, iff_false]
      rintro ⟨rfl, h⟩
      exact hne h.symm

end Backend

/-! ### Comparing as unsigned numbers -/

lemma ofInt_lt_iff {t : ℤ} {length : ℕ} (hlow : -2 ^ 63 ≤ t) (hhigh : t < 2 ^ 64) (hlength : length < 2 ^ 62) :
    (BitVec.ofInt 64 t).toNat < length ↔ 0 ≤ t ∧ t < length := by
  rw [BitVec.toNat_ofInt]
  omega

lemma ofInt_add_toInt (n : ℕ) (offset : Word) :
    (BitVec.ofInt 64 (n + offset.toInt) : Word) = .ofNat 64 n + offset := by
  rw [BitVec.ofInt_add, BitVec.ofInt_toInt]
  rfl

lemma toInt_lt (offset : Word) : -2 ^ 63 ≤ offset.toInt ∧ offset.toInt < 2 ^ 63 := by
  have hle := @BitVec.le_two_mul_toInt _ offset
  have hlt := @BitVec.two_mul_toInt_lt _ offset
  omega

lemma setWidth_eq (size : BitVec 32) : size.setWidth 64 = BitVec.ofNat 64 size.toNat := by
  apply BitVec.eq_of_toNat_eq
  simp

lemma toInt_setWidth (size : BitVec 32) : (size.setWidth 64).toInt = size.toNat := by
  have hlt := size.isLt
  have hnat : (size.setWidth 64).toNat = size.toNat := by
    rw [BitVec.toNat_setWidth, Nat.mod_eq_of_lt (by omega)]
  rw [BitVec.toInt_eq_toNat_of_lt (by rw [hnat]; omega), hnat]

lemma unsigned_check {t : ℤ} {length : ℕ} (hlow : -2 ^ 63 ≤ t) (hhigh : t < 2 ^ 64) (hlength : length < 2 ^ 62) :
    (if length ≤ (BitVec.ofInt 64 t).toNat then none else some (BitVec.ofInt 64 t)) =
      if 0 ≤ t ∧ t < length then some (BitVec.ofInt 64 t) else none := by
  have hiff := ofInt_lt_iff hlow hhigh hlength
  by_cases hin : 0 ≤ t ∧ t < length
  · rw [if_pos hin, if_neg (Nat.not_le.mpr (hiff.mpr hin))]
  · rw [if_neg hin, if_pos (Nat.not_lt.mp fun h => hin (hiff.mp h))]

namespace Backend

variable {b : Backend} {old offset : Word}

lemma expected_set (hlength : b.length < 2 ^ 62) :
    b.expected old offset .set = if b.length ≤ offset.toNat then none else some offset := by
  obtain ⟨hlow, hhigh⟩ := toInt_lt offset
  have hcheck := unsigned_check (t := offset.toInt) hlow (by omega) hlength
  rw [BitVec.ofInt_toInt] at hcheck
  rw [expected, target, BitVec.ofInt_toInt, hcheck]

lemma expected_cur (hlength : b.length < 2 ^ 62) (hold : old.toNat ≤ b.length) :
    b.expected old offset .cur = if b.length ≤ (old + offset).toNat then none else some (old + offset) := by
  obtain ⟨hlow, hhigh⟩ := toInt_lt offset
  have hcheck := unsigned_check (t := old.toNat + offset.toInt) (by omega) (by omega) hlength
  rw [ofInt_add_toInt, BitVec.ofNat_toNat, BitVec.setWidth_eq] at hcheck
  rw [expected, target, ofInt_add_toInt, BitVec.ofNat_toNat, BitVec.setWidth_eq, hcheck]

lemma expected_end : b.expected old offset .fromEnd =
    if 0 ≤ offset.toInt ∨ b.length + offset.toInt < 0 then none else some (.ofNat 64 b.length + offset) := by
  rw [expected, target, ofInt_add_toInt]
  by_cases hin : 0 ≤ (b.length : ℤ) + offset.toInt ∧ (b.length : ℤ) + offset.toInt < b.length
  · rw [if_pos hin, if_neg (by omega)]
  · rw [if_neg hin, if_pos (by omega)]

lemma cur_check {length : Word} : (if old + offset ≥ length ∨ old + offset < 0 then none else some (old + offset)) =
    if length.toNat ≤ (old + offset).toNat then none else some (old + offset) := by
  have hzero : ¬ old + offset < 0 := Nat.not_lt_zero _
  simp only [ge_iff_le, hzero, or_false, BitVec.le_def]

lemma ite_none_eq_iff {p q : Prop} [Decidable p] [Decidable q] (x : Word) :
    ((if p then none else some x) = if q then none else some x) ↔ (p ↔ q) := by
  by_cases hp : p
  · by_cases hq : q
    · simp [hp, hq]
    · simp [hp, hq]
  · by_cases hq : q
    · simp [hp, hq]
    · simp [hp, hq]

lemma toNat_setWidth_size (size : BitVec 32) : (size.setWidth 64).toNat = size.toNat := by
  rw [setWidth_eq, BitVec.toNat_ofNat, Nat.mod_eq_of_lt (by omega)]

/-! ### Where each is right -/

lemma fat32_agrees (size : BitVec 32) (hold : old.toNat ≤ size.toNat) (type : Whence) :
    (fat32 size).newOffset old offset type = (fat32 size).expected old offset type ↔
      (fat32 size).Agrees old offset type := by
  have hlength : (fat32 size).length < 2 ^ 62 := by
    show size.toNat < 2 ^ 62
    omega
  have hsigned := toInt_setWidth size
  obtain ⟨hlow, hhigh⟩ := toInt_lt offset
  cases type with
  | set =>
    have hcheck := @ofInt_lt_iff offset.toInt size.toNat hlow (by omega) hlength
    rw [BitVec.ofInt_toInt] at hcheck
    rw [expected_set hlength, newOffset, fat32Lseek, ite_none_eq_iff, BitVec.sle_iff_toInt_le, hsigned, Agrees, length]
    omega
  | cur =>
    rw [expected_cur hlength hold, newOffset, fat32Lseek, cur_check, toNat_setWidth_size]
    exact iff_of_true rfl trivial
  | fromEnd =>
    -- below zero the sum does not overflow
    have hsum : offset.toInt < 0 → (size.setWidth 64 + offset).toInt = size.toNat + offset.toInt := by
      intro hneg
      rw [BitVec.toInt_add, hsigned]
      exact Int.bmod_eq_of_le (by omega) (by omega)
    rw [expected_end, newOffset, fat32Lseek, setWidth_eq, length, ite_none_eq_iff]
    rw [← setWidth_eq, BitVec.slt_iff_toInt_lt, BitVec.sle_iff_toInt_le]
    refine iff_of_true ?_ trivial
    show _ < (0 : ℤ) ∨ (0 : ℤ) ≤ _ ↔ _
    omega
  | other => exact iff_of_true rfl trivial

lemma ext2_agrees (sizeLo : BitVec 32) (hold : old.toNat ≤ sizeLo.toNat) (type : Whence) :
    (ext2 sizeLo).newOffset old offset type = (ext2 sizeLo).expected old offset type ↔
      (ext2 sizeLo).Agrees old offset type := by
  have hlength : (ext2 sizeLo).length < 2 ^ 62 := by
    show sizeLo.toNat < 2 ^ 62
    omega
  cases type with
  | set =>
    rw [expected_set hlength, newOffset, ext2Lseek, ite_none_eq_iff, ge_iff_le, BitVec.le_def, toNat_setWidth_size]
    exact iff_of_true Iff.rfl trivial
  | cur =>
    rw [expected_cur hlength hold, newOffset, ext2Lseek, cur_check, toNat_setWidth_size]
    exact iff_of_true rfl trivial
  | fromEnd =>
    have hzero : ¬ sizeLo.setWidth 64 + offset < 0 := Nat.not_lt_zero _
    rw [expected_end, newOffset, ext2Lseek, setWidth_eq, length, ite_none_eq_iff, ← setWidth_eq,
      BitVec.sle_iff_toInt_le, Agrees]
    simp only [hzero, false_or]
    show ((0 : ℤ) ≤ _ ↔ _) ↔ _
    omega
  | other => exact iff_of_true rfl trivial

lemma partfs_agrees (part : Partfs.Part) (hlength : (partfs part).length < 2 ^ 62)
    (hold : old.toNat ≤ (partfs part).length) (type : Whence) :
    (partfs part).newOffset old offset type = (partfs part).expected old offset type ↔
      (partfs part).Agrees old offset type := by
  cases type with
  | set =>
    have hnew : (partfs part).newOffset old offset .set =
        if ((part.firstLba + part.lbaCount) * 0x200).toNat ≤ offset.toNat then none else some offset := by
      rw [newOffset, Partfs.Part.lseek]
      by_cases hle : ((part.firstLba + part.lbaCount) * 0x200).toNat ≤ offset.toNat
      · rw [if_pos hle, if_pos (UInt64.le_iff_toNat_le.mpr hle), map_none]
      · rw [if_neg hle, if_neg (fun h => hle (UInt64.le_iff_toNat_le.mp h)), map_some]
    rw [expected_set hlength, hnew, ite_none_eq_iff]
    rfl
  | cur =>
    have hnew : (partfs part).newOffset old offset .cur =
        if ((part.firstLba + part.lbaCount) * 0x200).toNat ≤ (old + offset).toNat then none
        else some (old + offset) := by
      have hzero : ¬ ((⟨old⟩ : UInt64) + ⟨offset⟩ < 0) := Nat.not_lt_zero _
      rw [newOffset, Partfs.Part.lseek]
      by_cases hle : ((part.firstLba + part.lbaCount) * 0x200).toNat ≤ (old + offset).toNat
      · rw [if_pos hle, if_pos (.inl (UInt64.le_iff_toNat_le.mpr hle)), map_none]
      · have hlt : ¬ ((⟨old⟩ : UInt64) + ⟨offset⟩ ≥ (part.firstLba + part.lbaCount) * 0x200) :=
          fun h => hle (UInt64.le_iff_toNat_le.mp h)
        rw [if_neg hle, if_neg (not_or.mpr ⟨hlt, hzero⟩), map_some]
        rfl
    rw [expected_cur hlength hold, hnew, ite_none_eq_iff]
    rfl
  | fromEnd =>
    have hnew : (partfs part).newOffset old offset .fromEnd = none := by
      have hzero : (⟨offset⟩ : UInt64) ≥ 0 := Nat.zero_le _
      simp only [newOffset, Partfs.Part.lseek, hzero, or_true, if_true, map_none]
    rw [expected_end, hnew, Agrees]
    by_cases hout : 0 ≤ offset.toInt ∨ ((partfs part).length : ℤ) + offset.toInt < 0
    · simp [hout]
    · simp [hout]
  | other => exact iff_of_true rfl trivial

lemma nvme_agrees (g : Nvme.Geometry) (hlength : (nvme g).length < 2 ^ 62) (hold : old.toNat ≤ (nvme g).length)
    (type : Whence) :
    (nvme g).newOffset old offset type = (nvme g).expected old offset type ↔ (nvme g).Agrees old offset type := by
  have hsize : (BitVec.ofNat 64 (g.lbaCount * g.lbaSize)).toNat = (nvme g).length := by
    rw [BitVec.toNat_ofNat, length]
    rw [length] at hlength
    exact Nat.mod_eq_of_lt (by omega)
  cases type with
  | set =>
    rw [expected_set hlength]
    simp only [newOffset, code, Nvme.nvmeLseek, BitVec.le_def, hsize]
    exact iff_of_true trivial trivial
  | cur =>
    rw [expected_cur hlength hold]
    simp only [newOffset, code, Nvme.nvmeLseek, BitVec.le_def, hsize]
    exact iff_of_true trivial trivial
  | fromEnd =>
    have hnew : (nvme g).newOffset old offset .fromEnd = none := rfl
    rw [expected_end, hnew, Agrees]
    by_cases hout : 0 ≤ offset.toInt ∨ ((nvme g).length : ℤ) + offset.toInt < 0
    · simp [hout]
    · simp [hout]
  | other => exact iff_of_true rfl trivial

end Backend

open Backend

/-- **Where a seek is right**, for each of the four functions, every offset of the node within the file
and every argument. -/
theorem seeks_iff_agrees (b : Backend) (old offset : Word) (type : Whence) (hlength : b.length < 2 ^ 62)
    (hold : old.toNat ≤ b.length) : b.Seeks old offset type ↔ b.Agrees old offset type := by
  rw [seeks_iff_expected hlength hold]
  cases b with
  | fat32 size => exact fat32_agrees size hold type
  | ext2 sizeLo => exact ext2_agrees sizeLo hold type
  | partfs part => exact partfs_agrees part hlength hold type
  | nvme g => exact nvme_agrees g hlength hold type

theorem seeks_iff_agrees_back : (fat32 100).lseek 10 (-4) .cur = (6, 6) :=
  ((seeks_iff_agrees (fat32 100) 10 (-4) .cur (by decide) (by decide)).mpr trivial).1 (by decide)

/-- **Seeks that leave the file.** On a file of 100 bytes, `fat32_lseek` goes to byte -5 and `ext2_lseek` to byte -1
from the end; on a partition of 100 sectors from sector 1 on, `partfs_lseek` goes behind the last byte; `nvme_lseek`
does not go back from the end. -/
theorem seek_before_file : (fat32 100).lseek 0 (-5) .set = (-5, -5) ∧ (ext2 100).lseek 0 (-101) .fromEnd = (-1, -1) ∧
    (partfs ⟨1, 100, false, none⟩).lseek 0 51200 .set = (51200, 51200) ∧
    (nvme ⟨0, 0, 100, by decide, by decide, by decide⟩).lseek 0 (-1) .fromEnd = (-1, 0) := by
  decide

end WivOS.Lseek
