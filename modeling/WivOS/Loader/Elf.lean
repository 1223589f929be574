/-
# ELF files

The records that `module_load_node` and `elf_load` of `kernel/modules/modules.c` read from a file, byte for byte. A
read puts the bytes of the file over those of the memory; what lies outside of a block is a fault (`none`). The loader
does not look at what `vfs_lseek` returns: where it fails, the next read goes on behind the last one.
-/
import WivOS.Lib.ByteMem
import WivOS.Utils.Memory

namespace WivOS.Elf

open List Option

open Utils (Byte)
open ByteMem (ofBytes)

def field (bytes : List Byte) (offset k : ℕ) : Option ℕ :=
  if offset + k ≤ bytes.length then some (ofBytes ((bytes.drop offset).take k)) else none

/-- `node->offset` after `vfs_lseek`, which fails at the end of the file and behind it. Offsets from `2 ^ 63` on are behind
it, as for `ext2_lseek`. -/
def seek (file : List Byte) (pos offset : ℕ) : ℕ := if offset < file.length then offset else pos

def dataAt (file : List Byte) (pos offset size : ℕ) : List Byte := (file.drop (seek file pos offset)).take size

def readEnd (file : List Byte) (pos offset size : ℕ) : ℕ := seek file pos offset + (dataAt file pos offset size).length

/-- `vfs_lseek` and `vfs_read`, into memory that has the bytes `old`: the bytes, and `node->offset`, that was `pos`. -/
def readAt (file : List Byte) (pos offset size : ℕ) (old : List Byte) : Option (List Byte × ℕ) :=
  let data := dataAt file pos offset size
  if data.length ≤ old.length then some (Slice.splice old 0 data, readEnd file pos offset size) else none

def readBlock (file : List Byte) (pos offset size : ℕ) : Option (List Byte × ℕ) := do
  let block ← Utils.kmalloc true size
  readAt file pos offset size block.bytes

structure Header where
  magic : ℕ
  x8664Flag : ℕ
  bigEndianFlag : ℕ
  instructionSet : ℕ
  entryAddress : ℕ
  programHeaderTableAddress : ℕ
  sectionHeaderTableAddress : ℕ
  programHeaderEntrySize : ℕ
  programHeaderEntryCount : ℕ
  sectionHeaderEntrySize : ℕ
  sectionHeaderEntryCount : ℕ
  sectionNamesIndex : ℕ

def headerAt (bytes : List Byte) : Option Header := do
  let magic ← field bytes 0 4
  let x8664Flag ← field bytes 4 1
  let bigEndianFlag ← field bytes 5 1
  let instructionSet ← field bytes 18 2
  let entryAddress ← field bytes 24 8
  let programHeaderTableAddress ← field bytes 32 8
  let sectionHeaderTableAddress ← field bytes 40 8
  let programHeaderEntrySize ← field bytes 54 2
  let programHeaderEntryCount ← field bytes 56 2
  let sectionHeaderEntrySize ← field bytes 58 2
  let sectionHeaderEntryCount ← field bytes 60 2
  let sectionNamesIndex ← field bytes 62 2
  some { magic, x8664Flag, bigEndianFlag, instructionSet, entryAddress, programHeaderTableAddress
         sectionHeaderTableAddress, programHeaderEntrySize, programHeaderEntryCount, sectionHeaderEntrySize
         sectionHeaderEntryCount, sectionNamesIndex }

/-- The header of a file that has just been opened; `stack` is what the variable for it had before. -/
def readHeader (file stack : List Byte) : Option Header := (readAt file 0 0 64 stack).bind fun r => headerAt r.1

def headerEnd (file : List Byte) : ℕ := readEnd file 0 0 64

def Header.Valid (h : Header) : Prop :=
  ¬ (h.magic ≠ 0x464C457F ∨ h.x8664Flag ≠ 0x2 ∨ h.bigEndianFlag ≠ 0x1 ∨ h.instructionSet ≠ 0x3E)

instance (h : Header) : Decidable h.Valid := inferInstanceAs (Decidable (¬ _))

/-- A table of `count` entries; the product of the two 16 bit fields is an `int`. -/
def readTable (file : List Byte) (pos offset count size : ℕ) : Option (List Byte × ℕ) :=
  if count * size < 2 ^ 31 then readBlock file pos offset (count * size) else none

structure SectionHeader where
  name : ℕ
  type : ℕ
  flags : ℕ
  address : ℕ
  fileOffset : ℕ
  size : ℕ
  info : ℕ

def sectionAt (table : List Byte) (i : ℕ) : Option SectionHeader := do
  let name ← field table (64 * i) 4
  let type ← field table (64 * i + 4) 4
  let flags ← field table (64 * i + 8) 8
  let address ← field table (64 * i + 16) 8
  let fileOffset ← field table (64 * i + 24) 8
  let size ← field table (64 * i + 32) 8
  let info ← field table (64 * i + 44) 4
  some { name, type, flags, address, fileOffset, size, info }

structure Symbol where
  name : ℕ
  info : ℕ
  sectionTableIndex : ℕ
  value : ℕ

def symbolAt (table : List Byte) (i : ℕ) : Option Symbol := do
  let name ← field table (24 * i) 4
  let info ← field table (24 * i + 4) 1
  let sectionTableIndex ← field table (24 * i + 6) 2
  let value ← field table (24 * i + 8) 8
  some { name, info, sectionTableIndex, value }

structure Rela where
  offset : ℕ
  info : ℕ
  addend : ℕ

def relaAt (table : List Byte) (i : ℕ) : Option Rela := do
  let offset ← field table (24 * i) 8
  let info ← field table (24 * i + 8) 8
  let addend ← field table (24 * i + 16) 8
  some { offset, info, addend }

structure ProgramHeader where
  type : ℕ
  flags : ℕ
  fileOffset : ℕ
  virtualAddress : ℕ
  fileSize : ℕ
  memorySize : ℕ

def programHeaderAt (table : List Byte) (i : ℕ) : Option ProgramHeader := do
  let type ← field table (56 * i) 4
  let flags ← field table (56 * i + 4) 4
  let fileOffset ← field table (56 * i + 8) 8
  let virtualAddress ← field table (56 * i + 16) 8
  let fileSize ← field table (56 * i + 32) 8
  let memorySize ← field table (56 * i + 40) 8
  some { type, flags, fileOffset, virtualAddress, fileSize, memorySize }

/-! ### What a record depends on -/

section

variable {bytes bytes' : List Byte} {offset k i : ℕ}

lemma field_of_le (h : offset + k ≤ bytes.length) : ∃ v, field bytes offset k = some v := ⟨_, if_pos h⟩

lemma field_lt {v : ℕ} (h : field bytes offset k = some v) : v < 256 ^ k := by
  rw [field] at h
  split at h
  · cases h
    refine Nat.lt_of_lt_of_le (ByteMem.ofBytes_lt _) (Nat.pow_le_pow_right (by decide) ?_)
    rw [length_take]
    exact Nat.min_le_left ..
  · cases h

lemma field_congr (hk : 0 < k) (h : ∀ j, offset ≤ j → j < offset + k → bytes[j]? = bytes'[j]?) :
    field bytes offset k = field bytes' offset k := by
  have hlast := h (offset + k - 1) (by omega) (by omega)
  have hlen : offset + k ≤ bytes.length ↔ offset + k ≤ bytes'.length := by
    have hiff : bytes[offset + k - 1]? = none ↔ bytes'[offset + k - 1]? = none := by rw [hlast]
    rw [getElem?_eq_none_iff, getElem?_eq_none_iff] at hiff
    omega
  rw [field, field, Slice.slice_congr h]
  simp only [hlen]

lemma symbolAt_of_le (h : 24 * i + 24 ≤ bytes.length) : ∃ s, symbolAt bytes i = some s := by
  unfold symbolAt field
  simp (disch := omega) only [if_pos, bind_eq_bind, bind_some]
  exact ⟨_, rfl⟩

lemma relaAt_of_le (h : 24 * i + 24 ≤ bytes.length) : ∃ rela, relaAt bytes i = some rela := by
  unfold relaAt field
  simp (disch := omega) only [if_pos, bind_eq_bind, bind_some]
  exact ⟨_, rfl⟩

lemma fields_congr {w : ℕ} (h : ∀ j, w * i ≤ j → j < w * i + w → bytes[j]? = bytes'[j]?) (o k : ℕ) (hk : 0 < k)
    (ho : o + k ≤ w) : field bytes (w * i + o) k = field bytes' (w * i + o) k :=
  field_congr hk fun j hj hj' => h j (by omega) (by omega)

lemma sectionAt_congr (h : ∀ j, 64 * i ≤ j → j < 64 * i + 64 → bytes[j]? = bytes'[j]?) :
    sectionAt bytes i = sectionAt bytes' i := by
  have hname := fields_congr h 0 4
  simp only [sectionAt, Nat.add_zero] at hname ⊢
  simp [hname, fields_congr h]

section

variable (h : ∀ j, 24 * i ≤ j → j < 24 * i + 24 → bytes[j]? = bytes'[j]?)
include h

lemma symbolAt_congr :
    symbolAt bytes i = symbolAt bytes' i := by
  have hname := fields_congr h 0 4
  simp only [symbolAt, Nat.add_zero] at hname ⊢
  simp [hname, fields_congr h]

lemma relaAt_congr :
    relaAt bytes i = relaAt bytes' i := by
  have hoffset := fields_congr h 0 8
  simp only [relaAt, Nat.add_zero] at hoffset ⊢
  simp [hoffset, fields_congr h]

end

lemma sectionAt_setAddress {address : List Byte} {s : SectionHeader} {j : ℕ} (haddress : address.length = 8)
    (hlen : 64 * i + 64 ≤ bytes.length) (hs : sectionAt bytes j = some s) :
    ∃ a, sectionAt (Slice.splice bytes (64 * i + 16) address) j = some { s with address := a } := by
  have houtside : ∀ j', j' < 64 * i + 16 ∨ 64 * i + 24 ≤ j' → (Slice.splice bytes (64 * i + 16) address)[j']? = bytes[j']? := by
    rintro j' (hj' | hj')
    · exact Slice.getElem?_splice_of_lt (by omega) hj'
    · exact Slice.getElem?_splice_of_le (by omega) (by omega)
  by_cases hij : j = i
  · subst hij
    have hfield : ∀ o k, 0 < k → o + k ≤ 16 ∨ 24 ≤ o →
        field (Slice.splice bytes (64 * j + 16) address) (64 * j + o) k = field bytes (64 * j + o) k :=
      fun o k hk ho => field_congr hk fun j' hj' hj'' => houtside j' (by omega)
    obtain ⟨a, ha⟩ : ∃ a, field (Slice.splice bytes (64 * j + 16) address) (64 * j + 16) 8 = some a :=
      field_of_le (by rw [Slice.length_splice (by omega)]; omega)
    have hname := hfield 0 4 (by decide) (by decide)
    simp only [Nat.add_zero] at hname
    simp only [sectionAt, bind_eq_bind, bind_eq_some_iff] at hs
    obtain ⟨name, h1, type, h2, flags, h3, old, -, fileOffset, h5, size, h6, info, h7, he⟩ := hs
    cases he
    refine ⟨a, ?_⟩
    simp only [sectionAt, hname, hfield 4 4, hfield 8 8, ha, hfield 24 8, hfield 32 8, hfield 44 4, h1, h2, h3, h5, h6, h7,
      Nat.reduceLT, Nat.reduceAdd, Nat.reduceLeDiff, true_or, or_true, bind_eq_bind, bind_some]
  · refine ⟨s.address, ?_⟩
    rw [sectionAt_congr fun j' hj' hj'' => houtside j' (by omega), hs]

end

end WivOS.Elf
