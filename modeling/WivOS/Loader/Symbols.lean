/-
# The table of the kernel's symbols

`generate_symbols.py` writes an assembler file with a record for each symbol of the kernel, and `modules_init` of
`kernel/modules/modules.c` puts the records into `KernelSymbolsHashmap`. Both align the start of a record to 8 bytes;
the end of the table is not aligned, but the walk stops there. The table does not reach to the end of the address
space.
-/
import WivOS.Lib.Loop
import WivOS.Loader.Elf
import WivOS.Utils.HashmapRun

namespace WivOS.Loader

open Function Hashmaps List Option Utils
open Elf (field)
open ByteMem (toBytes ofBytes)

/-! ### The script -/

def ascii (s : String) : List Byte := s.toList.map fun c => BitVec.ofNat 8 c.toNat

structure KernelSymbol where
  name : List Byte
  addr : BitVec 64
  size : BitVec 64
  nonempty : name ≠ []
  noNul : 0 ∉ name
  noQuote : 0x27 ∉ name

/-- The names that `formatLine` does not leave out. -/
def Keeps (name : List Byte) : Prop :=
  name ≠ ascii "abs" ∧ name ≠ ascii "kernel_symbols_start" ∧ name ≠ ascii "kernel_symbols_end"

instance (name : List Byte) : Decidable (Keeps name) := inferInstanceAs (Decidable (_ ∧ _))

def align8 (offset : ℕ) : ℕ := (offset + 7) / 8 * 8

/-- What the assembler makes of the lines of `formatLine`, at an offset of the section; `pad` is what it
aligns with. -/
def formatLine (pad : Byte) (offset : ℕ) (symbol : KernelSymbol) : List Byte :=
  List.replicate (align8 offset - offset) pad ++
    (toBytes 8 symbol.addr.toNat ++ (toBytes 8 symbol.size.toNat ++ (symbol.name ++ [0])))

def emit (pad : Byte) : ℕ → List KernelSymbol → List Byte
  | _, [] => []
  | offset, symbol :: symbols =>
    formatLine pad offset symbol ++ emit pad (offset + (formatLine pad offset symbol).length) symbols

def records (pad : Byte) (start : ℕ) : ℕ → List KernelSymbol → List (ℕ × List Byte × ℕ)
  | _, [] => []
  | offset, symbol :: symbols => (start + align8 offset, symbol.name, symbol.addr.toNat) ::
      records pad start (offset + (formatLine pad offset symbol).length) symbols

/-! ### The kernel -/

/-- The image of the kernel, from `kernel_symbols_start` on: the table, and what the linker puts behind it. The
next section has a number of 8 bytes. -/
structure SymbolImage where
  start : ℕ
  table : List Byte
  rest : List Byte
  aligned : start % 8 = 0
  room : start + table.length + 8 ≤ 2 ^ 64

def SymbolImage.stop (image : SymbolImage) : ℕ := image.start + image.table.length

def SymbolImage.memory (image : SymbolImage) : List Byte := image.table ++ image.rest

structure Walk where
  map : Hashmap
  symbol : ℕ
  visited : List (ℕ × List Byte × ℕ)

def visit (image : SymbolImage) (w : Walk) : Option Walk := do
  let offset ← if image.start ≤ w.symbol then some (w.symbol - image.start) else none
  let addr ← field image.memory offset 8
  let name := image.memory.drop (offset + 16)
  let r ← w.map.set name addr
  let length ← strlen name
  let newAddress := w.symbol + 16 + length + 1
  some ⟨r.2, roundUp newAddress 8, w.visited ++ [(w.symbol, chars name, addr)]⟩

def walkRound (image : SymbolImage) (w : Walk) : Loop.Round Walk Walk :=
  if w.symbol < image.stop then
    match visit image w with
    | some w' => .next w'
    | none => .fault
  else .done w

/-- `modules_init`, with a number of rounds that is enough. -/
def modulesInit (image : SymbolImage) (n : ℕ) : Option Walk := do
  let map ← Hashmap.create 20
  let w ← Loop.run (walkRound image) n ⟨map, image.start, []⟩
  let r ← w.map.set (ascii "kernel_symbols_start" ++ [0]) image.start
  let r ← r.2.set (ascii "kernel_symbols_end" ++ [0]) image.stop
  some { w with map := r.2 }

/-! ### A record -/

variable {pad : Byte} {image : SymbolImage} {symbol : KernelSymbol} {m : List Byte → Option ℕ} {w : Walk}
  {before after : List Byte} {name : List Byte} {offset : ℕ}

lemma length_formatLine (offset : ℕ) :
    (formatLine pad offset symbol).length = align8 offset - offset + (16 + symbol.name.length + 1) := by
  simp only [formatLine, length_append, length_replicate, ByteMem.length_toBytes, length_singleton]
  omega

lemma drop_record (hbefore : before.length = offset) (k : ℕ) :
    (before ++ (formatLine pad offset symbol ++ after)).drop (align8 offset + k) =
      (toBytes 8 symbol.addr.toNat ++ (toBytes 8 symbol.size.toNat ++ (symbol.name ++ 0 :: after))).drop k := by
  have hle : offset ≤ align8 offset := by
    unfold align8
    omega
  have hsplit : align8 offset + k = before.length + ((align8 offset - offset) + k) := by omega
  have hpad : (List.replicate (align8 offset - offset) pad).length = align8 offset - offset := length_replicate
  rw [hsplit, ← drop_drop, drop_left, formatLine, append_assoc, ← drop_drop, drop_left' hpad]
  simp only [append_assoc, singleton_append]

lemma visit_record (hbefore : before.length = offset)
    (hmem : image.memory = before ++ (formatLine pad offset symbol ++ after))
    (hroom : image.start + (offset + (formatLine pad offset symbol).length) + 8 ≤ 2 ^ 64)
    (hw : w.symbol = image.start + align8 offset) (hm : Stands w.map m) :
    ∃ map, visit image w = some ⟨map, image.start + align8 (offset + (formatLine pad offset symbol).length),
        w.visited ++ [(image.start + align8 offset, symbol.name, symbol.addr.toNat)]⟩ ∧
      Stands map (update m symbol.name (some symbol.addr.toNat)) := by
  have hdrop : ∀ k, image.memory.drop (align8 offset + k) =
      (toBytes 8 symbol.addr.toNat ++ (toBytes 8 symbol.size.toNat ++ (symbol.name ++ 0 :: after))).drop k := by
    intro k
    rw [hmem]
    exact drop_record hbefore k
  have haddr : field image.memory (align8 offset) 8 = some symbol.addr.toNat := by
    have hfirst := hdrop 0
    rw [Nat.add_zero, drop_zero] at hfirst
    have hlen := congrArg List.length hfirst
    simp only [length_drop, length_append, ByteMem.length_toBytes] at hlen
    rw [field, if_pos (by omega), hfirst, take_left' (ByteMem.length_toBytes 8 _),
      ByteMem.ofBytes_toBytes symbol.addr.isLt]
  have hname : image.memory.drop (align8 offset + 16) = symbol.name ++ 0 :: after := by
    rw [hdrop 16, ← append_assoc]
    exact drop_left' (by rw [length_append, ByteMem.length_toBytes, ByteMem.length_toBytes])
  have hterm : (0 : Byte) ∈ symbol.name ++ 0 :: after := by simp
  have hchars : chars (symbol.name ++ 0 :: after) = symbol.name := chars_append symbol.noNul after
  obtain ⟨chains, hholds, hagrees⟩ := hm
  obtain ⟨map, hset, hstands⟩ := (hholds.set hagrees hterm symbol.addr.toNat).stands
  rw [hchars] at hstands
  have hnext : roundUp (image.start + align8 offset + 16 + symbol.name.length + 1) 8 =
      image.start + align8 (offset + (formatLine pad offset symbol).length) := by
    have haligned := image.aligned
    rw [length_formatLine] at hroom ⊢
    unfold roundUp
    unfold align8 at hroom ⊢
    omega
  refine ⟨map, ?_, hstands⟩
  have hle : image.start ≤ w.symbol := by omega
  have hoffset : w.symbol - image.start = align8 offset := by omega
  rw [visit, if_pos hle, hoffset]
  simp only [bind_eq_bind, bind_some]
  rw [haddr, bind_some, hname, hset, bind_some, strlen_eq hterm, bind_some, hchars, hw, hnext]

/-! ### The table -/

def symbolMap (m : List Byte → Option ℕ) (symbols : List KernelSymbol) : List Byte → Option ℕ :=
  symbols.foldl (fun m symbol => update m symbol.name (some symbol.addr.toNat)) m

/-- **The walk over the table** comes to each record once, in their order, and ends at its end. -/
lemma walk_table : ∀ (symbols : List KernelSymbol) {before : List Byte} {offset n : ℕ} {w : Walk}
    {m : List Byte → Option ℕ},
    before.length = offset → image.table = before ++ emit pad offset symbols → symbols.length < n →
    w.symbol = image.start + align8 offset → Stands w.map m →
    ∃ map, Loop.run (walkRound image) n w = some ⟨map, image.start + align8 image.table.length,
        w.visited ++ records pad image.start offset symbols⟩ ∧ Stands map (symbolMap m symbols)
  | [], before, offset, n + 1, w, m, hbefore, htable, _, hw, hm => by
    rw [emit, append_nil] at htable
    have hle : ¬ w.symbol < image.stop := by
      rw [hw, SymbolImage.stop, htable, hbefore]
      unfold align8
      omega
    refine ⟨w.map, ?_, hm⟩
    rw [Loop.run, walkRound, if_neg hle, records, append_nil, htable, hbefore, ← hw]
  | symbol :: symbols, before, offset, n + 1, w, m, hbefore, htable, hn, hw, hm => by
    have hlen := congrArg List.length htable
    have hroom := image.room
    rw [emit, length_append, length_append] at hlen
    have hlt : w.symbol < image.stop := by
      rw [hw, SymbolImage.stop, hlen, length_formatLine]
      unfold align8
      omega
    have hmem : image.memory = before ++ (formatLine pad offset symbol ++
        (emit pad (offset + (formatLine pad offset symbol).length) symbols ++ image.rest)) := by
      rw [SymbolImage.memory, htable, emit]
      simp only [append_assoc]
    obtain ⟨map, hvisit, hstands⟩ := visit_record hbefore hmem (by omega) hw hm
    have htable' : image.table = (before ++ formatLine pad offset symbol) ++
        emit pad (offset + (formatLine pad offset symbol).length) symbols := by
      rw [htable, emit, append_assoc]
    obtain ⟨map', hrun, hstands'⟩ := walk_table symbols (by rw [length_append, hbefore]) htable'
      (Nat.lt_of_succ_lt_succ hn) (w := ⟨map, _, _⟩) rfl hstands
    refine ⟨map', ?_, hstands'⟩
    rw [Loop.run, walkRound, if_pos hlt, hvisit]
    dsimp only
    rw [hrun, records, append_assoc, singleton_append]

lemma symbolMap_not_mem : ∀ {symbols : List KernelSymbol} {m : List Byte → Option ℕ},
    name ∉ symbols.map KernelSymbol.name → symbolMap m symbols name = m name
  | [], _, _ => rfl
  | first :: symbols, m, hname => by
    rw [map_cons, mem_cons, not_or] at hname
    have hrest := symbolMap_not_mem (m := update m first.name (some first.addr.toNat)) hname.2
    exact hrest.trans (update_of_ne hname.1 ..)

lemma symbolMap_mem : ∀ {symbols : List KernelSymbol} {m : List Byte → Option ℕ},
    (symbols.map KernelSymbol.name).Nodup →
    ∀ symbol ∈ symbols, symbolMap m symbols symbol.name = some symbol.addr.toNat
  | first :: symbols, m, hnodup, symbol, hmem => by
    rw [map_cons, nodup_cons] at hnodup
    rcases mem_cons.mp hmem with rfl | hmem
    · have hrest := symbolMap_not_mem (m := update m symbol.name (some symbol.addr.toNat)) hnodup.1
      exact hrest.trans (update_self ..)
    · exact symbolMap_mem hnodup.2 symbol hmem

lemma stands_set {map : Hashmap} (hm : Stands map m) (hname : 0 ∉ name) (value : ℕ) :
    ∃ r, map.set (name ++ [0]) value = some r ∧ Stands r.2 (update m name (some value)) := by
  obtain ⟨chains, hholds, hagrees⟩ := hm
  obtain ⟨map', hset, hstands⟩ := (hholds.set hagrees (mem_append_right name mem_cons_self) value).stands
  rw [chars_append hname] at hstands
  exact ⟨_, hset, hstands⟩

/-- **The symbols of the kernel.** For every list of different names that the script keeps, and their table at an
aligned address, the loop comes to exactly the records of the table, and the hash map then has the address of each
name. -/
theorem symbols_mapped (pad : Byte) (symbols : List KernelSymbol) (hnames : (symbols.map KernelSymbol.name).Nodup)
    (hkeeps : ∀ symbol ∈ symbols, Keeps symbol.name) (image : SymbolImage) (htable : image.table = emit pad 0 symbols)
    (n : ℕ) (hn : symbols.length < n) : ∃ w, modulesInit image n = some w ∧
      w.visited = records pad image.start 0 symbols ∧ w.symbol = image.start + align8 image.table.length ∧
      ∀ symbol ∈ symbols, ∀ key : CString, chars key.bytes = symbol.name →
        w.map.get key.bytes = some symbol.addr.toNat := by
  obtain ⟨new, hcreate, hnew⟩ := @stands_create 20 (by decide) (by decide)
  obtain ⟨map, hrun, hstands⟩ := walk_table symbols (w := ⟨new, image.start, []⟩) length_nil htable hn rfl hnew
  have hstart : 0 ∉ ascii "kernel_symbols_start" := by decide
  have hstop : 0 ∉ ascii "kernel_symbols_end" := by decide
  obtain ⟨r1, hset1, hstands1⟩ := stands_set hstands hstart image.start
  obtain ⟨r2, hset2, hstands2⟩ := stands_set hstands1 hstop image.stop
  have hinit : modulesInit image n = some ⟨r2.2, image.start + align8 image.table.length,
      records pad image.start 0 symbols⟩ := by
    rw [modulesInit, hcreate, bind_eq_bind, bind_some, hrun]
    simp only [bind_eq_bind, bind_some]
    rw [hset1, bind_some, hset2]
    rfl
  refine ⟨_, hinit, rfl, rfl, fun symbol hsymbol key hkey => ?_⟩
  obtain ⟨-, hstart, hend⟩ := hkeeps symbol hsymbol
  -- the two names of the table itself are not among its names
  rw [hstands2.get key, hkey, update_of_ne hend, update_of_ne hstart, symbolMap_mem hnames symbol hsymbol]
  rfl

/-- Two symbols, `a` and `bc`, in a table at the start of the kernel. -/
def twoSymbols : List KernelSymbol :=
  [⟨ascii "a", 0xFFFFFFFF81000010, 4, by decide, by decide, by decide⟩,
    ⟨ascii "bc", 0xFFFFFFFF81000020, 8, by decide, by decide, by decide⟩]

theorem symbols_mapped_two : ∃ image : SymbolImage, image.table = emit 0x90 0 twoSymbols ∧
    ∃ w, modulesInit image 3 = some w ∧
      w.visited = [(image.start, ascii "a", 0xFFFFFFFF81000010), (image.start + 24, ascii "bc", 0xFFFFFFFF81000020)] ∧
      ∀ symbol ∈ twoSymbols, ∀ key : CString, chars key.bytes = symbol.name →
        w.map.get key.bytes = some symbol.addr.toNat := by
  let image : SymbolImage := ⟨0xFFFFFFFF81000000, emit 0x90 0 twoSymbols, [], by decide, by decide +kernel⟩
  obtain ⟨w, hinit, hvisited, -, hget⟩ := symbols_mapped 0x90 twoSymbols (by decide) (by decide) image rfl 3 (by decide)
  exact ⟨image, rfl, w, hinit, hvisited, hget⟩

end WivOS.Loader
