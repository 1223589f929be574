/-
# The tables of a module

The blocks that `module_load_node` of `kernel/modules/modules.c` reads the tables of a file into; an access outside of
its block is a fault. The block for the relocations has the size of one entry, rounded up to a page: for a well-formed
file the accesses stay inside exactly if no section of more than a page is come to.
-/
import WivOS.Loader.Relocations

namespace WivOS.Loader

open Elf Hashmaps List Option Utils Machine
open ByteMem (Mem toBytes)

/-! ### The files -/

def sectionData (file : List Byte) (s : SectionHeader) : List Byte := (file.drop s.fileOffset).take s.size

/-- A relocatable file with 64-byte section headers, in which all section, symbol and string indices and all
ranges are in bounds. The last section `.strtab` and the last symbol table have the numbers `strtab` and `symtab`. -/
structure ModuleFile (input : Input) where
  header : Header
  sections : ℕ → SectionHeader
  strtab : ℕ
  symtab : ℕ
  readHeader : Elf.readHeader input.file input.stack = some header
  valid : header.Valid
  entrySize : header.sectionHeaderEntrySize = 64
  tableInside : header.sectionHeaderTableAddress + header.sectionHeaderEntryCount * 64 ≤ input.file.length
  sectionOf : ∀ i < header.sectionHeaderEntryCount,
    sectionAt (input.file.drop header.sectionHeaderTableAddress) i = some (sections i)
  inside : ∀ i < header.sectionHeaderEntryCount, (sections i).type ≠ 0x8 →
    (sections i).fileOffset + (sections i).size ≤ input.file.length
  namesIndex : header.sectionNamesIndex < header.sectionHeaderEntryCount
  namesType : (sections header.sectionNamesIndex).type ≠ 0x8
  names : ∀ i < header.sectionHeaderEntryCount,
    0 ∈ (sectionData input.file (sections header.sectionNamesIndex)).drop (sections i).name
  strtabIndex : 0 < strtab ∧ strtab < header.sectionHeaderEntryCount
  isStrtab : (sections strtab).type = 0x3 ∧
    chars ((sectionData input.file (sections header.sectionNamesIndex)).drop (sections strtab).name) = chars dotStrtab
  lastStrtab : ∀ i < header.sectionHeaderEntryCount, strtab < i → (sections i).type = 0x3 →
    chars ((sectionData input.file (sections header.sectionNamesIndex)).drop (sections i).name) ≠ chars dotStrtab
  symtabIndex : 0 < symtab ∧ symtab < header.sectionHeaderEntryCount
  isSymtab : (sections symtab).type = 0x2
  lastSymtab : ∀ i < header.sectionHeaderEntryCount, symtab < i → (sections i).type ≠ 0x2
  wholeSymbols : (sections symtab).size % 24 = 0
  symbols : ∀ k < (sections symtab).size / 24, ∀ symbol ∈ symbolAt (input.file.drop (sections symtab).fileOffset) k,
    0 ∈ (sectionData input.file (sections strtab)).drop symbol.name ∧
      (symbol.info &&& 0xF = 0x3 → symbol.sectionTableIndex < header.sectionHeaderEntryCount)
  relas : ∀ i < header.sectionHeaderEntryCount, (sections i).type = 0x4 →
    (sections i).size % 24 = 0 ∧ (sections i).info < header.sectionHeaderEntryCount ∧
      ∀ k < (sections i).size / 24, ∀ rela ∈ relaAt (input.file.drop (sections i).fileOffset) k,
        rela.info >>> 32 < (sections symtab).size / 24

/-! ### The accesses -/

/-- No access of a call to the tables lies outside of its block. -/
def TablesInside (input : Input) (table : Hashmap) : Prop :=
  (moduleLoadNode input table).isSome

def Relocating.Relocatable (r : Relocating) (rela : Rela) : Prop :=
  ∀ symbol S, symbolAt r.image.symbolTable (rela.info >>> 32) = some symbol →
    r.image.symbolAddress r.localSymbols r.kernelSymbols symbol = some S →
    (symbol.info &&& 0xF = 0x3 ∨ S ≠ 0) ∧ (rela.info % 2 ^ 32 = 10 → (rela.addend + S) % 2 ^ 64 < 2 ^ 32) ∧
      (rela.info % 2 ^ 32 = 11 → -2 ^ 31 ≤ (BitVec.ofNat 64 (rela.addend + S)).toInt ∧
        (BitVec.ofNat 64 (rela.addend + S)).toInt < 2 ^ 31)

def ModuleFile.Relocated {input : Input} (f : ModuleFile input) (r : Relocating) (i : ℕ) : Prop :=
  (f.sections i).type = 0x4 → ∀ k < (f.sections i).size / 24,
    ∀ rela ∈ relaAt (input.file.drop (f.sections i).fileOffset) k, r.Relocatable rela

/-- Each section of relocations that the call comes to, as those before it can be made, has at most a page. -/
def ModuleFile.Small {input : Input} (f : ModuleFile input) (r : Relocating) : Prop :=
  ∀ before i behind, indices f.header.sectionHeaderEntryCount = before ++ i :: behind →
    (∀ j ∈ before, f.Relocated r j) → (f.sections i).type = 0x4 → (f.sections i).size ≤ 0x1000

/-! ### Blocks and strings -/

lemma dataAt_inside {file : List Byte} {offset size : ℕ} (h : offset + size ≤ file.length) (pos : ℕ) :
    dataAt file pos offset size = (file.drop offset).take size := by
  rw [dataAt, seek]
  split
  · rfl
  · obtain rfl : size = 0 := by omega
    rw [take_zero, take_zero]

lemma readBlock_spec (file : List Byte) (pos offset size : ℕ) :
    ∃ block pos', readBlock file pos offset size = some (block, pos') ∧
    size ≤ block.length ∧ (offset + size ≤ file.length → ∀ j < size, block[j]? = (file.drop offset)[j]?) := by
  obtain ⟨b, hb, hok, hsize⟩ := kmalloc_spec size
  have hle := hok.size_le
  have hdata : (dataAt file pos offset size).length ≤ b.bytes.length := by
    rw [dataAt, length_take]
    omega
  have hread : readBlock file pos offset size =
      some (Slice.splice b.bytes 0 (dataAt file pos offset size), readEnd file pos offset size) := by
    rw [readBlock, hb, bind_eq_bind, bind_some, readAt, if_pos hdata]
  refine ⟨_, _, hread, ?_, fun hinside j hj => ?_⟩
  · rw [Slice.length_splice (by omega)]
    omega
  · have hlen : ((file.drop offset).take size).length = size := by
      rw [length_take, length_drop]
      omega
    rw [dataAt_inside hinside, Slice.splice, take_zero, nil_append, getElem?_append_left (by omega),
      getElem?_take_of_lt hj]

lemma string_of_part {data block : List Byte} {size name : ℕ} (hblock : ∀ j < size, block[j]? = data[j]?)
    (h : 0 ∈ (data.take size).drop name) :
    0 ∈ block.drop name ∧ chars (block.drop name) = chars ((data.take size).drop name) := by
  have htake : block.take size = data.take size := by
    have hslice : (block.drop 0).take size = (data.drop 0).take size :=
      Slice.slice_congr fun j _ hj => hblock j (by omega)
    rwa [drop_zero, drop_zero] at hslice
  have hname : name ≤ (data.take size).length := by
    by_contra hlt
    rw [drop_of_length_le (by omega)] at h
    cases h
  have hdrop : block.drop name = (data.take size).drop name ++ block.drop size := by
    rw [← htake] at hname ⊢
    rw [← drop_append_of_le_length hname, take_append_drop]
  obtain ⟨hchars, rest, hrest⟩ := exists_eq_chars_append h
  refine ⟨by rw [hdrop]; exact mem_append_left _ h, ?_⟩
  rw [hdrop]
  nth_rewrite 1 [hrest]
  rw [append_assoc, cons_append, chars_append hchars]

lemma headerAt_count {bytes : List Byte} {header : Header} (h : headerAt bytes = some header) :
    header.sectionHeaderEntryCount < 2 ^ 16 := by
  simp only [headerAt, bind_eq_bind, bind_eq_some_iff] at h
  obtain ⟨_, -, _, -, _, -, _, -, _, -, _, -, _, -, _, -, _, -, _, -, count, hcount, _, -, he⟩ := h
  cases he
  exact field_lt hcount

variable {i k : ℕ} {ι : Type*}

namespace ModuleFile

variable {input : Input} (f : ModuleFile input) {round : ι → Mem → Option (Bool × Mem)}

lemma count_lt : f.header.sectionHeaderEntryCount < 2 ^ 16 := by
  obtain ⟨bytes, -, h⟩ := bind_eq_some_iff.mp f.readHeader
  exact headerAt_count h

/-- A block with the section table, or with what has become of it: the addresses may differ. -/
def HasSections (table : List Byte) : Prop :=
  f.header.sectionHeaderEntryCount * 64 ≤ table.length ∧
    ∀ i < f.header.sectionHeaderEntryCount, ∃ a, sectionAt table i = some { f.sections i with address := a }

def HasNames (shstrtab : List Byte) : Prop :=
  ∀ i < f.header.sectionHeaderEntryCount, 0 ∈ shstrtab.drop (f.sections i).name ∧
    chars (shstrtab.drop (f.sections i).name) =
      chars ((sectionData input.file (f.sections f.header.sectionNamesIndex)).drop (f.sections i).name)

lemma readTable (pos : ℕ) : ∃ table pos', Elf.readTable input.file pos f.header.sectionHeaderTableAddress
    f.header.sectionHeaderEntryCount f.header.sectionHeaderEntrySize = some (table, pos') ∧
    f.header.sectionHeaderEntryCount * 64 ≤ table.length ∧
    ∀ i < f.header.sectionHeaderEntryCount, sectionAt table i = some (f.sections i) := by
  have hcount := f.count_lt
  obtain ⟨table, pos', htable, hlen, hsame⟩ := readBlock_spec input.file pos f.header.sectionHeaderTableAddress
    (f.header.sectionHeaderEntryCount * 64)
  refine ⟨table, pos', ?_, hlen, fun i hi => ?_⟩
  · rw [Elf.readTable, f.entrySize, if_pos (by omega), htable]
  · rw [← f.sectionOf i hi]
    exact sectionAt_congr fun j _ hj => hsame f.tableInside j (by omega)

lemma readNames (pos : ℕ) : ∃ shstrtab pos', readBlock input.file pos
    (f.sections f.header.sectionNamesIndex).fileOffset (f.sections f.header.sectionNamesIndex).size =
      some (shstrtab, pos') ∧ f.HasNames shstrtab := by
  obtain ⟨shstrtab, pos', hread, -, hsame⟩ := readBlock_spec input.file pos
    (f.sections f.header.sectionNamesIndex).fileOffset (f.sections f.header.sectionNamesIndex).size
  exact ⟨shstrtab, pos', hread, fun i hi =>
    string_of_part (hsame (f.inside _ f.namesIndex f.namesType)) (f.names i hi)⟩

/-! ### The loops over the sections -/

lemma lt_of_mem_indices {count : ℕ} (h : i ∈ indices count) : i < count := by
  obtain ⟨hle, hlt⟩ := mem_range'_1.mp h
  omega

def IsStrtab (i : ℕ) : Prop :=
  (f.sections i).type = 0x3 ∧
    chars ((sectionData input.file (f.sections f.header.sectionNamesIndex)).drop (f.sections i).name) = chars dotStrtab

def HasData (i : ℕ) (block : List Byte) : Prop :=
  (f.sections i).size ≤ block.length ∧ ((f.sections i).fileOffset + (f.sections i).size ≤ input.file.length →
    ∀ j < (f.sections i).size, block[j]? = (input.file.drop (f.sections i).fileOffset)[j]?)

lemma readSection (pos i : ℕ) : ∃ block pos',
    readBlock input.file pos (f.sections i).fileOffset (f.sections i).size = some (block, pos') ∧ f.HasData i block :=
  readBlock_spec input.file pos _ _

variable {f} {table shstrtab : List Byte}

section

variable (htable : ∀ i < f.header.sectionHeaderEntryCount, sectionAt table i = some (f.sections i))
  (hnames : f.HasNames shstrtab)
include htable hnames

lemma findTables_step (hi : i < f.header.sectionHeaderEntryCount) (found : Found) :
    ∃ found', findTables input.file table shstrtab found i = some found' ∧
      (f.IsStrtab i → ∃ block, found'.symstrtab = some block ∧ f.HasData i block) ∧
      (¬ f.IsStrtab i → found'.symstrtab = found.symstrtab) ∧
      ((f.sections i).type = 0x2 → found'.symShdr = some (f.sections i)) ∧
      ((f.sections i).type ≠ 0x2 → found'.symShdr = found.symShdr) := by
  obtain ⟨hterm, hchars⟩ := hnames i hi
  have hdot : (0 : Byte) ∈ dotStrtab := by decide
  obtain ⟨order, horder, hzero⟩ := strcmp_spec hterm hdot
  rw [hchars] at hzero
  simp only [findTables, bind_eq_bind, htable i hi, bind_some]
  by_cases h3 : (f.sections i).type = 0x3
  · rw [if_pos h3, horder, bind_some]
    by_cases hname : order = 0
    · obtain ⟨block, pos, hblock, hdata⟩ := f.readSection found.pos i
      rw [if_pos hname, hblock]
      refine ⟨_, rfl, fun _ => ⟨block, rfl, hdata⟩, fun hnot => absurd ⟨h3, hzero.mp hname⟩ hnot, fun h2 => ?_, fun _ =>
        rfl⟩
      rw [h3] at h2
      cases h2
    · rw [if_neg hname]
      refine ⟨found, rfl, fun hstrtab => absurd (hzero.mpr hstrtab.2) hname, fun _ => rfl, fun h2 => ?_, fun _ => rfl⟩
      rw [h3] at h2
      cases h2
  · rw [if_neg h3]
    by_cases h2 : (f.sections i).type = 0x2
    · rw [if_pos h2]
      exact ⟨_, rfl, fun hstrtab => absurd hstrtab.1 h3, fun _ => rfl, fun _ => rfl, fun hnot => absurd h2 hnot⟩
    · rw [if_neg h2]
      exact ⟨found, rfl, fun hstrtab => absurd hstrtab.1 h3, fun _ => rfl, fun htype => absurd htype h2, fun _ => rfl⟩

lemma findTables_run (pos : ℕ) : ∀ n < f.header.sectionHeaderEntryCount, ∃ found,
      (List.range' 1 n).foldlM (findTables input.file table shstrtab) ⟨none, none, pos⟩ = some found ∧
      (f.strtab ≤ n → ∃ block, found.symstrtab = some block ∧ f.HasData f.strtab block) ∧
      (f.symtab ≤ n → found.symShdr = some (f.sections f.symtab))
  | 0, _ => by
    refine ⟨⟨none, none, pos⟩, rfl, fun h => ?_, fun h => ?_⟩
    · exact absurd h (Nat.not_le.mpr f.strtabIndex.1)
    · exact absurd h (Nat.not_le.mpr f.symtabIndex.1)
  | n + 1, hn => by
    obtain ⟨found, hfound, hstrtab, hsymtab⟩ := findTables_run pos n (Nat.lt_of_succ_lt hn)
    obtain ⟨found', hfound', hyes, hno, hsym, hnosym⟩ := findTables_step htable hnames hn found
    refine ⟨found', ?_, fun hle => ?_, fun hle => ?_⟩
    · rw [List.range'_concat, foldlM_append, hfound, Nat.mul_comm, Nat.mul_one, Nat.add_comm 1 n]
      simp only [foldlM_cons, foldlM_nil, bind_eq_bind, bind_some, hfound']
      rfl
    · by_cases heq : f.strtab = n + 1
      · rw [heq]
        exact hyes (heq ▸ f.isStrtab)
      · rw [hno fun h => f.lastStrtab (n + 1) hn (by omega) h.1 h.2]
        exact hstrtab (by omega)
    · by_cases heq : f.symtab = n + 1
      · rw [heq]
        exact hsym (heq ▸ f.isSymtab)
      · rw [hnosym (f.lastSymtab (n + 1) hn (by omega))]
        exact hsymtab (by omega)

lemma findModdeps_step (hi : i < f.header.sectionHeaderEntryCount) (pos : ℕ) :
    ∃ pos', findModdeps input.file table shstrtab pos i = some pos' := by
  have hmod : (0 : Byte) ∈ moddepsName := by decide
  obtain ⟨order, horder, -⟩ := strcmp_spec (hnames i hi).1 hmod
  obtain ⟨block, pos', hblock, -⟩ := f.readSection pos i
  simp only [findModdeps, bind_eq_bind, htable i hi, bind_some, horder, hblock]
  split
  · split
    · exact ⟨_, rfl⟩
    · exact ⟨_, rfl⟩
  · exact ⟨_, rfl⟩

lemma findModdeps_run (pos : ℕ) : ∃ pos',
    (indices f.header.sectionHeaderEntryCount).foldlM (findModdeps input.file table shstrtab) pos = some pos' := by
  obtain ⟨pos', hrun, -⟩ := run_total (findModdeps input.file table shstrtab) (I := fun _ => True) (fun pos i hi _ =>
    (findModdeps_step htable hnames (lt_of_mem_indices hi) pos).imp fun _ h => ⟨h, trivial⟩) pos trivial
  exact ⟨pos', hrun⟩

end

lemma HasSections.setAddress (h : f.HasSections table) (hi : i < f.header.sectionHeaderEntryCount) (v : ℕ) :
    f.HasSections (Slice.splice table (64 * i + 16) (toBytes 8 v)) := by
  have hlen := h.1
  have hbytes : (toBytes 8 v).length = 8 := ByteMem.length_toBytes 8 v
  refine ⟨?_, fun j hj => ?_⟩
  · rw [Slice.length_splice (by omega)]
    exact hlen
  · obtain ⟨a, ha⟩ := h.2 j hj
    obtain ⟨a', ha'⟩ := sectionAt_setAddress (i := i) hbytes (by omega) ha
    exact ⟨a', ha'⟩

lemma placeSection_step {placed : Placed} (h : f.HasSections placed.sectionTable)
    (hi : i < f.header.sectionHeaderEntryCount) :
    ∃ placed', placeSection input placed i = some placed' ∧ f.HasSections placed'.sectionTable := by
  obtain ⟨a, ha⟩ := h.2 i hi
  simp only [placeSection, bind_eq_bind, ha, bind_some]
  split
  · obtain ⟨b, hb, -⟩ := kmalloc_spec (f.sections i).size
    rw [hb]
    exact ⟨_, rfl, h.setAddress hi _⟩
  · split
    · obtain ⟨block, pos, hblock, -⟩ := f.readSection placed.pos i
      rw [hblock]
      exact ⟨_, rfl, h.setAddress hi _⟩
    · exact ⟨placed, rfl, h⟩

/-! ### The image -/

structure Read (f : ModuleFile input) (image : Image) : Prop where
  count : image.count = f.header.sectionHeaderEntryCount
  sections : f.HasSections image.sectionTable
  symbolsSize : image.symbolsSize = (f.sections f.symtab).size
  symbols : ∃ symstrtab, image.symstrtab = some symstrtab ∧ ∀ k < (f.sections f.symtab).size / 24, ∃ symbol,
    symbolAt image.symbolTable k = some symbol ∧ 0 ∈ symstrtab.drop symbol.name ∧
      (symbol.info &&& 0xF = 0x3 → symbol.sectionTableIndex < f.header.sectionHeaderEntryCount)

lemma readImage (f : ModuleFile input) :
    ∃ image mem, Loader.readImage input f.header = some (image, mem) ∧ f.Read image := by
  obtain ⟨table, pos1, htable, hlen, hsections⟩ := f.readTable (headerEnd input.file)
  obtain ⟨shstrtab, pos2, hshstrtab, hnames⟩ := f.readNames pos1
  have hcount : 0 < f.header.sectionHeaderEntryCount := Nat.zero_lt_of_lt f.namesIndex
  obtain ⟨⟨str, sym, pos3⟩, hfound, hstr, hsym⟩ :=
    findTables_run hsections hnames pos2 (f.header.sectionHeaderEntryCount - 1) (by omega)
  have hstrtab := f.strtabIndex.2
  have hsymtab := f.symtabIndex.2
  obtain ⟨symstrtab, hstr, -, hstrings⟩ := hstr (by omega)
  have hsym : sym = some (f.sections f.symtab) := hsym (by omega)
  obtain ⟨pos4, hmoddeps⟩ := findModdeps_run hsections hnames pos3
  obtain ⟨⟨table', mem, pos5⟩, hplaced, hsections'⟩ := run_total (placeSection input)
    (I := fun placed => f.HasSections placed.sectionTable) (fun _ i hi h => placeSection_step h (lt_of_mem_indices hi))
    ⟨table, input.mem, pos4⟩ ⟨hlen, fun i hi => ⟨_, hsections i hi⟩⟩
  obtain ⟨symbolTable, pos6, hsymbolTable, hsymlen, hsymbols⟩ := f.readSection pos5 f.symtab
  let image : Image :=
    { count := f.header.sectionHeaderEntryCount, sectionTable := table', shstrtab, symstrtab := str, symbolTable
      symbolsSize := (f.sections f.symtab).size, pos := pos6 }
  have himage : Loader.readImage input f.header = some (image, mem) := by
    simp only [Loader.readImage, bind_eq_bind, htable, bind_some, hsections _ f.namesIndex, hshstrtab]
    rw [run, indices] at hplaced
    rw [indices] at hmoddeps ⊢
    rw [hfound, bind_some, hmoddeps, bind_some, hplaced, bind_some]
    dsimp only
    rw [hsym, map_some, map_some, getD_some, getD_some, hsymbolTable, bind_some]
  refine ⟨image, mem, himage, rfl, hsections', rfl, symstrtab, hstr, fun k hk => ?_⟩
  have hinside : ∀ i < f.header.sectionHeaderEntryCount, (f.sections i).type = 0x2 ∨ (f.sections i).type = 0x3 →
      (f.sections i).fileOffset + (f.sections i).size ≤ input.file.length := by
    rintro i hi (h2 | h3)
    · exact f.inside i hi (by rw [h2]; decide)
    · exact f.inside i hi (by rw [h3]; decide)
  obtain ⟨symbol, hsymbol⟩ : ∃ symbol, symbolAt symbolTable k = some symbol := symbolAt_of_le (by omega)
  have hfile : symbolAt (input.file.drop (f.sections f.symtab).fileOffset) k = some symbol := by
    rw [← hsymbol]
    exact symbolAt_congr fun j _ hj => (hsymbols (hinside f.symtab hsymtab (.inl f.isSymtab)) j (by omega)).symm
  obtain ⟨hname, hindex⟩ := f.symbols k hk symbol hfile
  exact ⟨symbol, hsymbol, (string_of_part (hstrings (hinside f.strtab hstrtab (.inr f.isStrtab.1))) hname).1, hindex⟩

/-! ### The symbols -/

variable {image : Image}

def BothStand (localSymbols kernelSymbols : Hashmap) : Prop :=
  (∃ m, Stands localSymbols m) ∧ ∃ m, Stands kernelSymbols m

lemma lt_of_mem_entries {size : ℕ} (hsize : size % 24 = 0) (h : k ∈ entries size) : k < size / 24 := by
  have hlt := mem_range.mp h
  omega

lemma Read.publishSymbol (h : f.Read image) {maps : Hashmap × Hashmap} (hmaps : BothStand maps.1 maps.2)
    (hk : k < (f.sections f.symtab).size / 24) :
    ∃ maps', image.publishSymbol maps k = some maps' ∧ BothStand maps'.1 maps'.2 := by
  obtain ⟨symstrtab, hsymstrtab, hsymbols⟩ := h.symbols
  obtain ⟨symbol, hsymbol, hname, -⟩ := hsymbols k hk
  simp only [Image.publishSymbol, Image.definition, bind_eq_bind, hsymbol, bind_some]
  split
  · rename_i hdefines
    obtain ⟨a, ha⟩ := h.sections.2 symbol.sectionTableIndex (h.count ▸ hdefines.2.2.2)
    obtain ⟨⟨m, chains, hholds, hagrees⟩, m', chains', hholds', hagrees'⟩ := hmaps
    obtain ⟨localSet, hset, hlocal⟩ := (hholds.set hagrees hname ((a + symbol.value) % 2 ^ 64)).stands
    obtain ⟨kernelSet, hset', hkernel⟩ := (hholds'.set hagrees' hname ((a + symbol.value) % 2 ^ 64)).stands
    simp only [hsymstrtab, ha, bind_some, hset, hset']
    exact ⟨_, rfl, ⟨_, hlocal⟩, _, hkernel⟩
  · exact ⟨maps, rfl, hmaps⟩

structure Ready (f : ModuleFile input) (r : Relocating) : Prop where
  read : f.Read r.image
  maps : BothStand r.localSymbols r.kernelSymbols

lemma relocating (f : ModuleFile input) {table : Hashmap} {m : List Byte → Option ℕ} (htable : Stands table m) :
    ∃ r, input.relocating table = some r ∧ f.Ready r := by
  obtain ⟨image, mem, himage, hread⟩ := f.readImage
  obtain ⟨new, hnew, hstands⟩ := @stands_create 20 (by decide) (by decide)
  obtain ⟨maps, hrun, hmaps⟩ := run_total image.publishSymbol (I := fun maps => BothStand maps.1 maps.2)
    (fun maps k hk h => hread.publishSymbol h (lt_of_mem_entries f.wholeSymbols (hread.symbolsSize ▸ hk))) (new, table)
    ⟨⟨_, hstands⟩, m, htable⟩
  refine ⟨⟨image, maps.1, maps.2, mem⟩, ?_, hread, hmaps⟩
  rw [run] at hrun
  simp only [Input.relocating, bind_eq_bind, f.readHeader, bind_some, not_not.mpr f.valid, if_false, himage, hnew,
    Image.publish, hrun]

/-! ### The relocations -/

variable {r : Relocating}

lemma Ready.symbolAddress (h : f.Ready r) (hk : k < (f.sections f.symtab).size / 24) :
    ∃ symbol S, symbolAt r.image.symbolTable k = some symbol ∧
      r.image.symbolAddress r.localSymbols r.kernelSymbols symbol = some S := by
  obtain ⟨symstrtab, hsymstrtab, hsymbols⟩ := h.read.symbols
  obtain ⟨symbol, hsymbol, hname, hindex⟩ := hsymbols k hk
  have haddress : ∃ S, r.image.symbolAddress r.localSymbols r.kernelSymbols symbol = some S := by
    rw [Image.symbolAddress]
    split
    · rename_i hsection
      obtain ⟨a, ha⟩ := h.read.sections.2 symbol.sectionTableIndex (hindex hsection)
      exact ⟨a, by rw [ha, map_some]⟩
    · obtain ⟨⟨m, hlocal⟩, m', hkernel⟩ := h.maps
      have hget := hlocal.get ⟨symstrtab.drop symbol.name, hname⟩
      have hget' := hkernel.get ⟨symstrtab.drop symbol.name, hname⟩
      simp only [bind_eq_bind, hsymstrtab, bind_some, hget, hget']
      split
      · exact ⟨_, rfl⟩
      · exact ⟨_, rfl⟩
  obtain ⟨S, hS⟩ := haddress
  exact ⟨symbol, S, hsymbol, hS⟩

lemma ofNat_mod_64 (x : ℕ) : BitVec.ofNat 64 (x % 2 ^ 64) = BitVec.ofNat 64 x := by
  apply BitVec.eq_of_toNat_eq
  simp

lemma ofNat_mod_32 (x : ℕ) : BitVec.ofNat 32 (x % 2 ^ 64) = (BitVec.ofNat 64 x).setWidth 32 := by
  apply BitVec.eq_of_toNat_eq
  simp

lemma Ready.relocateEntry (h : f.Ready r) {e : Entry} (he : e.2.info >>> 32 < (f.sections f.symtab).size / 24)
    (mem : Mem) :
    ∃ made mem', r.relocateEntry e mem = some (made, mem') ∧ (made = true ↔ r.Relocatable e.2) := by
  obtain ⟨symbol, S, hsymbol, hS⟩ := h.symbolAddress he
  have hiff : r.Relocatable e.2 ↔ (symbol.info &&& 0xF = 0x3 ∨ S ≠ 0) ∧
      (e.2.info % 2 ^ 32 = 10 → (e.2.addend + S) % 2 ^ 64 < 2 ^ 32) ∧
      (e.2.info % 2 ^ 32 = 11 → -2 ^ 31 ≤ (BitVec.ofNat 64 (e.2.addend + S)).toInt ∧
        (BitVec.ofNat 64 (e.2.addend + S)).toInt < 2 ^ 31) := by
    refine ⟨fun h => h symbol S hsymbol hS, fun h symbol' S' hsymbol' hS' => ?_⟩
    obtain rfl : symbol = symbol' := some.inj (hsymbol.symm.trans hsymbol')
    obtain rfl : S = S' := some.inj (hS.symm.trans hS')
    exact h
  simp only [Relocating.relocateEntry, Image.relocateEntry, bind_eq_bind, hsymbol, hS, bind_some, hiff]
  by_cases hnone : symbol.info &&& 0xF ≠ 0x3 ∧ S = 0
  · rw [if_pos hnone]
    exact ⟨false, mem, rfl, iff_of_false Bool.false_ne_true fun h => h.1.elim hnone.1 fun hne => hne hnone.2⟩
  · rw [if_neg hnone]
    have hfound : symbol.info &&& 0xF = 0x3 ∨ S ≠ 0 := by
      rw [not_and_or, not_not] at hnone
      exact hnone
    split
    case h_1 h1 => exact ⟨true, _, rfl, iff_of_true rfl ⟨hfound, by omega, by omega⟩⟩
    case h_2 h2 => exact ⟨true, _, rfl, iff_of_true rfl ⟨hfound, by omega, by omega⟩⟩
    case h_3 h10 =>
      by_cases hfits : (e.2.addend + S) % 2 ^ 64 < 2 ^ 32
      · rw [if_neg (not_not.mpr (Nat.mod_eq_of_lt hfits).symm)]
        exact ⟨true, _, rfl, iff_of_true rfl ⟨hfound, fun _ => hfits, by omega⟩⟩
      · rw [if_pos (by omega)]
        exact ⟨false, mem, rfl, iff_of_false Bool.false_ne_true fun h => hfits (h.2.1 h10)⟩
    case h_4 h11 =>
      rw [ofNat_mod_64, ofNat_mod_32]
      have hiff := signExtend_setWidth_iff (BitVec.ofNat 64 (e.2.addend + S))
      by_cases hfits : ((BitVec.ofNat 64 (e.2.addend + S)).setWidth 32).signExtend 64 = BitVec.ofNat 64 (e.2.addend + S)
      · rw [if_neg (not_not.mpr hfits.symm)]
        exact ⟨true, _, rfl, iff_of_true rfl ⟨hfound, by omega, fun _ => hiff.mp hfits⟩⟩
      · rw [if_pos (Ne.symm hfits)]
        exact ⟨false, mem, rfl, iff_of_false Bool.false_ne_true fun h => hfits (hiff.mpr (h.2.2 h11))⟩
    case h_5 h1 h2 h10 h11 =>
      exact ⟨true, _, rfl, iff_of_true rfl ⟨hfound, fun h => absurd h h10, fun h => absurd h h11⟩⟩

lemma readRelas_spec (file : List Byte) (pos : ℕ) {s : SectionHeader} (hinside : s.fileOffset + s.size ≤ file.length) :
    if s.size ≤ 0x1000 then ∃ relas, readRelas file pos s = some relas ∧ relas.length = 0x1000 ∧
      ∀ j < s.size, relas[j]? = (file.drop s.fileOffset)[j]? else readRelas file pos s = none := by
  obtain ⟨b, hb, hok, hsize⟩ := kmalloc_spec 24
  have hpage : b.bytes.length = 0x1000 := by rw [hok.length_eq, hok.pages_eq, hsize]
  have hdata : ((file.drop s.fileOffset).take s.size).length = s.size := by
    rw [length_take, length_drop]
    omega
  rw [readRelas, hb, bind_eq_bind, bind_some, readAt, dataAt_inside hinside, hdata, hpage]
  split
  · rename_i hle
    refine ⟨_, rfl, ?_, fun j hj => ?_⟩
    · rw [Slice.length_splice (by omega), hpage]
    · rw [Slice.splice, take_zero, nil_append, getElem?_append_left (by omega), getElem?_take_of_lt hj]
  · rfl

lemma untilFailed_eq {i : ι} {mem mem' : Mem} {made : Bool}
    (h : round i mem = some (made, mem')) (is : List ι) :
    untilFailed round (i :: is) mem = if made then untilFailed round is mem' else some (false, mem') := by
  rw [untilFailed, h]
  rfl

lemma untilFailed_made {good : ι → Prop} : ∀ {is : List ι} (mem : Mem),
    (∀ i ∈ is, ∀ mem, ∃ made mem', round i mem = some (made, mem') ∧ (made = true ↔ good i)) →
    ∃ made mem', untilFailed round is mem = some (made, mem') ∧ (made = true ↔ ∀ i ∈ is, good i)
  | [], mem, _ => ⟨true, mem, rfl, iff_of_true rfl fun _ hi => absurd hi not_mem_nil⟩
  | i :: is, mem, h => by
    obtain ⟨hi, his⟩ := forall_mem_cons.mp h
    obtain ⟨made, mem1, hround, hgood⟩ := hi mem
    rw [untilFailed_eq hround, forall_mem_cons, ← hgood]
    cases made with
    | false => exact ⟨false, mem1, rfl, iff_of_false Bool.false_ne_true fun hall => Bool.false_ne_true hall.1⟩
    | true =>
      obtain ⟨made, mem', hrest, hmade⟩ := untilFailed_made mem1 his
      exact ⟨made, mem', hrest, by rw [hmade, eq_self, true_and]⟩

lemma untilFailed_isSome {good ok : ι → Prop} :
    ∀ {is : List ι} {mem : Mem}, (∀ i ∈ is, ∀ mem, (ok i → ∃ made mem', round i mem = some (made, mem') ∧
      (made = true ↔ good i)) ∧ (¬ ok i → round i mem = none)) →
    ((untilFailed round is mem).isSome ↔ ∀ a i b, is = a ++ i :: b → (∀ j ∈ a, good j) → ok i)
  | [], mem, _ => by
    refine iff_of_true rfl fun a i b h => ?_
    exact absurd h.symm (append_ne_nil_of_right_ne_nil a (cons_ne_nil i b))
  | j :: is, mem, h => by
    obtain ⟨hj, his⟩ := forall_mem_cons.mp h
    by_cases hok : ok j
    · obtain ⟨made, mem1, hround, hgood⟩ := (hj mem).1 hok
      rw [untilFailed_eq hround]
      cases made with
      | false =>
        refine iff_of_true rfl fun a i b hsplit ha => ?_
        cases a with
        | nil =>
          obtain ⟨rfl, -⟩ := List.cons.inj hsplit
          exact hok
        | cons _ a =>
          obtain ⟨rfl, -⟩ := List.cons.inj hsplit
          exact absurd (hgood.mpr (ha j mem_cons_self)) Bool.false_ne_true
      | true =>
        rw [if_pos rfl, untilFailed_isSome his]
        constructor
        · intro hrest a i b hsplit ha
          cases a with
          | nil =>
            obtain ⟨rfl, -⟩ := List.cons.inj hsplit
            exact hok
          | cons _ a => exact hrest a i b (List.cons.inj hsplit).2 fun k hk => ha k (mem_cons_of_mem _ hk)
        · intro hall a i b hsplit ha
          refine hall (j :: a) i b (by rw [hsplit, cons_append]) ?_
          exact forall_mem_cons.mpr ⟨hgood.mp rfl, ha⟩
    · rw [untilFailed, (hj mem).2 hok]
      exact iff_of_false Bool.false_ne_true fun hall =>
        hok (hall [] j is rfl fun k hk => absurd hk not_mem_nil)

lemma Ready.relocateSection (h : f.Ready r) (hi : i < f.header.sectionHeaderEntryCount) (mem : Mem) :
    (((f.sections i).type = 0x4 → (f.sections i).size ≤ 0x1000) →
      ∃ made mem', r.relocateSection input.file i mem = some (made, mem') ∧ (made = true ↔ f.Relocated r i)) ∧
    (¬ ((f.sections i).type = 0x4 → (f.sections i).size ≤ 0x1000) → r.relocateSection input.file i mem = none) := by
  obtain ⟨a, ha⟩ := h.read.sections.2 i hi
  rw [Relocating.relocateSection, ha, bind_some]
  dsimp only
  by_cases htype : (f.sections i).type = 0x4
  · rw [if_pos htype]
    obtain ⟨hwhole, hinfo, hrelas⟩ := f.relas i hi htype
    have hread := readRelas_spec input.file (r.image.posAt input.file i) (s := { f.sections i with address := a })
      (f.inside i hi (by rw [htype]; decide))
    dsimp only at hread
    split at hread
    · rename_i hle
      obtain ⟨relas, hread, hlen, hsame⟩ := hread
      refine ⟨fun _ => ?_, fun hgt => absurd (fun _ => hle) hgt⟩
      -- the block has the entries of the file
      have hentries : ∀ k ∈ entries (f.sections i).size, ∀ mem, ∃ made mem',
          ((r.image.entryAt relas (f.sections i).info k).bind fun e => r.relocateEntry e mem) = some (made, mem') ∧
            (made = true ↔ ∀ rela ∈ relaAt (input.file.drop (f.sections i).fileOffset) k, r.Relocatable rela) := by
        intro k hk mem
        have hk : k < (f.sections i).size / 24 := lt_of_mem_entries hwhole hk
        obtain ⟨rela, hrela⟩ : ∃ rela, relaAt relas k = some rela := relaAt_of_le (by omega)
        obtain ⟨b, hb⟩ := h.read.sections.2 (f.sections i).info hinfo
        have hfile : relaAt (input.file.drop (f.sections i).fileOffset) k = some rela := by
          rw [← hrela]
          exact relaAt_congr fun j _ hj => (hsame j (by omega)).symm
        obtain ⟨made, mem', hmade, hiff⟩ := h.relocateEntry (e := ({ f.sections _ with address := b }, rela))
          (hrelas k hk rela (mem_def.mpr hfile)) mem
        refine ⟨made, mem', ?_, ?_⟩
        · simp only [Image.entryAt, bind_eq_bind, hrela, hb, bind_some]
          exact hmade
        · rw [hiff, hfile]
          exact ⟨fun h rela' hrela' => some.inj hrela' ▸ h, fun h => h rela rfl⟩
      obtain ⟨made, mem', hmade, hiff⟩ := untilFailed_made mem hentries
      refine ⟨made, mem', by rw [hread, bind_some]; exact hmade, hiff.trans ?_⟩
      refine ⟨fun hall _ k hk => hall k (mem_range.mpr (by omega)), fun hall k hk => ?_⟩
      exact hall htype k (lt_of_mem_entries hwhole hk)
    · rename_i hgt
      exact ⟨fun hle => absurd (hle htype) hgt, fun _ => by rw [hread, bind_none]⟩
  · rw [if_neg htype]
    refine ⟨fun _ => ⟨true, mem, rfl, iff_of_true rfl fun h4 => absurd h4 htype⟩, fun hgt => ?_⟩
    exact absurd (fun h4 => absurd h4 htype) hgt

lemma Ready.relocate_isSome (h : f.Ready r) :
    (r.image.relocate input.file r.localSymbols r.kernelSymbols r.mem).isSome ↔ f.Small r := by
  rw [relocate_eq, h.read.count]
  exact untilFailed_isSome fun i hi mem => h.relocateSection (lt_of_mem_indices hi) mem

end ModuleFile

/-! ### The end of a call -/

lemma strncmp_isSome : ∀ {k : ℕ} {s1 s2 : List Byte}, 0 ∈ s1 → k ≤ s2.length → (strncmp k s1 s2).isSome
  | 0, _, _, _, _ => by rw [strncmp, isSome_some]
  | k + 1, a :: s1, b :: s2, h, hle => by
    have hle : k ≤ s2.length := Nat.le_of_succ_le_succ hle
    rw [strncmp]
    by_cases ha : a = 0
    · rw [if_neg fun heq => heq.2 ha, if_pos (.inl ha : a = 0 ∨ b = 0)]
      split
      · rfl
      · split <;> rfl
    · have hrest := strncmp_isSome ((mem_cons.mp h).resolve_left (Ne.symm ha)) hle
      repeat' split
      all_goals first | exact hrest | rfl

lemma loop_moduleInfo : ∀ {xs : List (ℕ × List Byte)}, (∀ x ∈ xs, 0 ∈ x.2) → ∃ found,
    Lists.loop (fun (_ : Unit) _ key => (strncmp 12 key moduleInfoName).map fun order =>
      if order = 0 then .inl key else .inr ()) xs () = some found ∧ ∀ key, found = .inl key → 0 ∈ key
  | [], _ => ⟨.inr (), rfl, fun key h => by cases h⟩
  | x :: xs, h => by
    obtain ⟨hx, hxs⟩ := forall_mem_cons.mp h
    obtain ⟨order, horder⟩ := isSome_iff_exists.mp (@strncmp_isSome 12 x.2 moduleInfoName hx (by decide))
    rw [Lists.loop, horder, map_some, bind_some]
    by_cases hzero : order = 0
    · rw [if_pos hzero]
      refine ⟨.inl x.2, rfl, fun key hkey => ?_⟩
      cases hkey
      exact hx
    · rw [if_neg hzero]
      exact loop_moduleInfo hxs

lemma moduleInfo_isSome {map : Hashmap} {m : List Byte → Option ℕ} (h : Stands map m) : (moduleInfo map).isSome := by
  obtain ⟨chains, hholds, hagrees⟩ := h
  obtain ⟨list, ys, hlist, hrep, hys⟩ := hholds.toList_range map.hashSize (Nat.le_refl _)
  have hkeys : ∀ y ∈ ys, 0 ∈ y.2 := by
    intro y hy
    have hmem : y.2 ∈ (List.range map.hashSize).flatMap fun i => (chains i).map fun x => x.2.key :=
      hys ▸ mem_map_of_mem hy
    obtain ⟨i, hi, hkey⟩ := mem_flatMap.mp hmem
    obtain ⟨x, hx, hkey⟩ := mem_map.mp hkey
    rw [← hkey]
    exact (hholds.bucket i (mem_range.mp hi)).terminated x hx
  obtain ⟨found, hfound, hzero⟩ := loop_moduleInfo hkeys
  rw [moduleInfo, Hashmap.toList, hlist, bind_eq_bind, bind_some, hrep.forEach, hfound, bind_eq_bind, bind_some]
  cases found with
  | inl key =>
    dsimp only
    rw [hholds.get hagrees (hzero key rfl)]
    rfl
  | inr _ => rfl

/-- **The tables of a well-formed file** are accessed inside of their blocks exactly if no section of relocations that
the call comes to is larger than the page it is read into. -/
theorem tables_inside_iff {input : Input} (f : ModuleFile input) {new table : Hashmap} {ops : List Op}
    (hnew : Hashmap.create 20 = some new) (hrun : run Hashmaps.step new ops = some table) :
    ∃ r, input.relocating table = some r ∧ (TablesInside input table ↔ f.Small r) := by
  obtain ⟨m, hs⟩ := stands_run (by decide) (by decide) hnew hrun
  obtain ⟨r, hr, hready⟩ := f.relocating hs
  refine ⟨r, hr, ?_⟩
  rw [← hready.relocate_isSome, TablesInside, moduleLoadNode_eq f.readHeader f.valid, hr, bind_some]
  obtain ⟨symstrtab, hsymstrtab, -⟩ := hready.read.symbols
  obtain ⟨_, hlocal⟩ := hready.maps.1
  obtain ⟨info, hinfo⟩ := isSome_iff_exists.mp (moduleInfo_isSome hlocal)
  constructor
  · intro hfinish
    cases hrelocate : r.image.relocate input.file r.localSymbols r.kernelSymbols r.mem with
    | none =>
      rw [Relocating.finish, hrelocate] at hfinish
      cases hfinish
    | some _ => rfl
  · intro hrelocate
    obtain ⟨⟨made, mem⟩, hrelocate⟩ := isSome_iff_exists.mp hrelocate
    rw [Relocating.finish, hrelocate, bind_eq_bind, bind_some]
    cases made with
    | true =>
      simp only [if_true, hinfo, hsymstrtab, bind_eq_bind, bind_some]
      rfl
    | false =>
      simp only [Bool.false_eq_true, if_false, hsymstrtab, bind_eq_bind, bind_some]
      rfl

def relaBytes : List Byte := toBytes 8 0 ++ toBytes 8 1 ++ toBytes 8 0

/-- The header and the section headers of a module, up to the size of its last section. -/
def relasHeaders : List Byte :=
  toBytes 4 0x464C457F ++ [2, 1] ++ toBytes 12 0 ++ toBytes 2 0x3E ++ toBytes 20 0 ++ toBytes 8 64 ++ toBytes 10 0 ++
    toBytes 2 64 ++ toBytes 2 5 ++ toBytes 2 1 ++
  sectionBytes 0 0 0 0 ++ sectionBytes 1 3 384 22 ++ sectionBytes 0 2 406 24 ++ sectionBytes 0 8 0 8 ++
  toBytes 4 0 ++ toBytes 4 4 ++ toBytes 16 0 ++ toBytes 8 430

/-- The rest of the last section header, the names and the symbol `module_info_`, in a section of no data. -/
def relasNames : List Byte :=
  toBytes 4 0 ++ toBytes 4 3 ++ toBytes 16 0 ++ [0] ++ dotStrtab ++ moduleInfoName ++
    toBytes 4 9 ++ [0x10, 0] ++ toBytes 2 3 ++ toBytes 16 0

def relasFile (count : ℕ) : List Byte :=
  relasHeaders ++ toBytes 8 (24 * count) ++ relasNames ++ (List.replicate count relaBytes).flatten

def relasInput (count : ℕ) : Input := ⟨relasFile count, List.replicate 64 0, fun _ => 0xFFFF800000005000, fun _ => 0⟩

deriving instance DecidableEq for Header, SectionHeader

def relasHeader : Header := ⟨0x464C457F, 2, 1, 0x3E, 0, 0, 64, 0, 0, 64, 5, 1⟩

def relasSection (count : ℕ) : ℕ → SectionHeader
  | 1 => ⟨1, 0x3, 0, 0, 384, 22, 0⟩
  | 2 => ⟨0, 0x2, 0, 0, 406, 24, 0⟩
  | 3 => ⟨0, 0x8, 0, 0, 0, 8, 0⟩
  | 4 => ⟨0, 0x4, 0, 0, 430, 24 * count, 3⟩
  | _ => ⟨0, 0, 0, 0, 0, 0, 0⟩

lemma relaAt_append {first rest : List Byte} (hfirst : first.length = 24) (k : ℕ) :
    relaAt (first ++ rest) (k + 1) = relaAt rest k := by
  have hfield : ∀ o n, field (first ++ rest) (24 * (k + 1) + o) n = field rest (24 * k + o) n := by
    intro o n
    have hoffset : 24 * (k + 1) + o = first.length + (24 * k + o) := by omega
    rw [hoffset, field, field, length_append, drop_length_add_append, Nat.add_assoc]
    simp only [Nat.add_le_add_iff_left]
  have hoffset := hfield 0 8
  simp only [Nat.add_zero] at hoffset
  rw [relaAt, relaAt, hoffset, hfield, hfield]

lemma relaAt_replicate : ∀ {count k : ℕ}, k < count → relaAt (List.replicate count relaBytes).flatten k = some ⟨0, 1, 0⟩
  | 0, _, h => absurd h (Nat.not_lt_zero _)
  | count + 1, 0, _ => by
    have hfirst : relaAt relaBytes 0 = some ⟨0, 1, 0⟩ := rfl
    rw [replicate_succ, flatten_cons, ← hfirst]
    exact relaAt_congr fun j _ hj => getElem?_append_left hj
  | count + 1, k + 1, h => by
    rw [replicate_succ, flatten_cons, relaAt_append rfl]
    exact relaAt_replicate (Nat.lt_of_succ_lt_succ h)

lemma relaAt_relasFile {count : ℕ} (h : k < count) : relaAt ((relasFile count).drop 430) k = some ⟨0, 1, 0⟩ := by
  have hheaders : relasHeaders.length = 352 := by decide +kernel
  have hnames : relasNames.length = 70 := by decide +kernel
  have hlength : (relasHeaders ++ toBytes 8 (24 * count) ++ relasNames).length = 430 := by
    rw [length_append, length_append, ByteMem.length_toBytes, hheaders, hnames]
  rw [relasFile, drop_left' hlength]
  exact relaAt_replicate h

lemma relas_relasFile (count : ℕ) : ∀ i < 5, (relasSection count i).type = 0x4 → (relasSection count i).size % 24 = 0 ∧
    (relasSection count i).info < 5 ∧ ∀ k < (relasSection count i).size / 24,
      ∀ rela ∈ relaAt ((relasFile count).drop (relasSection count i).fileOffset) k, rela.info >>> 32 < 1 := by
  intro i hi htype
  obtain rfl : i = 4 := by
    obtain rfl | rfl | rfl | rfl | rfl : i = 0 ∨ i = 1 ∨ i = 2 ∨ i = 3 ∨ i = 4 := by omega
    all_goals simp [relasSection] at htype ⊢
  refine ⟨Nat.mul_mod_right 24 count, Nat.lt_add_one_of_lt (Nat.lt_add_one 3), fun k hk rela hrela => ?_⟩
  have hk : k < 24 * count / 24 := hk
  have hone : relaAt ((relasFile count).drop 430) k = some ⟨0, 1, 0⟩ := relaAt_relasFile (by omega)
  obtain rfl : (⟨0, 1, 0⟩ : Rela) = rela := some.inj (hone.symm.trans (mem_def.mp hrela))
  decide

/-- One relocation more than a page can hold. -/
def manyRelas : ModuleFile (relasInput 171) where
  header := relasHeader
  sections := relasSection 171
  strtab := 1
  symtab := 2
  readHeader := by decide +kernel
  valid := by decide +kernel
  entrySize := by decide +kernel
  tableInside := by decide +kernel
  sectionOf := by decide +kernel
  inside := by decide +kernel
  namesIndex := by decide +kernel
  namesType := by decide +kernel
  names := by decide +kernel
  strtabIndex := by decide +kernel
  isStrtab := by decide +kernel
  lastStrtab := by decide +kernel
  symtabIndex := by decide +kernel
  isSymtab := by decide +kernel
  lastSymtab := by decide +kernel
  wholeSymbols := by decide +kernel
  symbols := by decide +kernel
  relas := relas_relasFile 171

theorem tables_inside_iff_many : ∃ r, (relasInput 171).relocating noSymbols = some r ∧ ¬ manyRelas.Small r := by
  obtain ⟨r, hr, hiff⟩ := tables_inside_iff manyRelas rfl (run_nil Hashmaps.step noSymbols)
  have hload : ¬ (moduleLoadNode (relasInput 171) noSymbols).isSome := by decide +kernel
  exact ⟨r, hr, fun hsmall => hload (hiff.mpr hsmall)⟩

/-- The file is well-formed, and its relocations are written over the end of their block. -/
theorem relas_overflow : Nonempty (ModuleFile (relasInput 171)) ∧ moduleLoadNode (relasInput 171) noSymbols = none ∧
    ¬ TablesInside (relasInput 171) noSymbols := by
  have hload : (moduleLoadNode (relasInput 171) noSymbols).isNone := by decide +kernel
  refine ⟨⟨manyRelas⟩, isNone_iff_eq_none.mp hload, fun h => ?_⟩
  rw [TablesInside, isNone_iff_eq_none.mp hload] at h
  cases h

end WivOS.Loader
