/-
# One directory of ext2

One call of `find_file_inode_recursive` of `kernel/fs/ext2/ext2.c`, with what it does with its buffer `tempData`. It is
a part of the loop of `Fs/Ext2Find.lean` (`findRound_enter`, `findRound_scan`).

In a well-formed directory the loop comes to the records one after another (`At.next`). It takes the first one with
the name, also if it is unused; where the path goes on, it frees the buffer there and then reads from it
(`lookup_right_iff`).
-/
import Mathlib.Algebra.Ring.Nat
import WivOS.Fs.Ext2Find
import WivOS.Lib.Lifetime

namespace WivOS.Ext2

open ByteMem List Loop Option
open Lifetime (Event Safe)

/-! ### The call -/

/-- The variables at a record, what `*inPath` and `*should_continue` are, and what was done with `tempData`, the latest
first. -/
structure Lookup where
  scan : DirScan
  inPath : Path
  shouldContinue : Bool
  log : List Event

structure Returned where
  inode : ℕ
  inPath : Path
  shouldContinue : Bool
  log : List Event

/-- The call, up to the loop. The name is copied to `subPath`, with room for 1023 bytes and the end. -/
def findFileInodeRecursive (c : CustomData) (image : Mem) (l : Leftover) (inode : ℕ) (path : Path) :
    Round Lookup Returned :=
  if (subPath path).length ≥ 1024 then .fault
  else if subPath path = [dot] then
    if pathIsAFile path then .done ⟨inode, path, false, []⟩ else .done ⟨inode, restPath path, true, []⟩
  else match ext2ReadInodeStruct c image inode (fun _ => 0) with
    | none => .fault
    | some inodeData =>
      if inodeData.isDirectory then
        match readDirBlock c image (l.uninit path 0) inodeData 0 inodeData.sizeLo (l.heap path) with
        | none => .fault
        | some tempData => .next ⟨⟨path, inodeData, inodeData.sizeLo, 0, 0, 0, tempData⟩, path, false, [.use 0]⟩
      else .done ⟨0, path, false, []⟩

def Lookup.matched (s : Lookup) : Lookup :=
  if s.scan.name = subPath s.scan.path ∧ pathIsAFile s.scan.path = false then
    { s with inPath := restPath s.scan.path, shouldContinue := true, log := .free 0 :: s.log }
  else s

def lookupRound (c : CustomData) (image : Mem) (l : Leftover) (s : Lookup) : Round Lookup Returned :=
  if s.scan.Running then
    match ext2ReadInodeStruct c image s.scan.entryInode (fun _ => 0) with
    | none => .fault
    | some child =>
      let s := { s with log := .use 0 :: s.log }.matched
      if s.scan.Taken child then .done ⟨s.scan.entryInode, s.inPath, s.shouldContinue, .use 0 :: s.log⟩
      else match s.scan.advance c image l with
        | none => .fault
        | some scan => .next { s with scan, log := .use 0 :: s.log }
  else .done ⟨0, s.inPath, s.shouldContinue, .free 0 :: s.log⟩

def Returns (c : CustomData) (image : Mem) (l : Leftover) (inode : ℕ) (path : Path) (r : Returned) : Prop :=
  After (lookupRound c image l) (findFileInodeRecursive c image l inode path) r

/-! ### The loop over the names -/

section

variable {c : CustomData} {image : Mem} {l : Leftover}

def afterCall : Round Lookup Returned → Round FindState ℕ
  | .done r => if r.shouldContinue then continueWith r.inode r.inPath else .done r.inode
  | .fault => .fault
  | .next s => .next (.scan s.scan)

lemma findRound_enter (inode : ℕ) {path : Path} (h : (subPath path).length < 1024) :
    findRound c image l (.enter inode path) = afterCall (findFileInodeRecursive c image l inode path) := by
  rw [findRound, enterRound, findFileInodeRecursive, if_neg (Nat.not_le.mpr h)]
  by_cases hdot : subPath path = [dot]
  · rw [if_pos hdot, if_pos hdot]
    cases pathIsAFile path <;> rfl
  · rw [if_neg hdot, if_neg hdot]
    cases ext2ReadInodeStruct c image inode fun _ => 0 with
    | none => rfl
    | some inodeData =>
      dsimp only
      cases inodeData.isDirectory with
      | false => rfl
      | true =>
        rw [if_pos rfl, if_pos rfl]
        cases readDirBlock c image (l.uninit path 0) inodeData 0 inodeData.sizeLo (l.heap path) <;> rfl

def Lookup.Stops (s : Lookup) : Prop := pathIsAFile s.scan.path = true → s.shouldContinue = false

lemma Lookup.scan_matched (s : Lookup) : s.matched.scan = s.scan := by
  unfold Lookup.matched
  split <;> rfl

lemma Lookup.matched_of_other {s : Lookup}
    (h : ¬ (s.scan.name = subPath s.scan.path ∧ pathIsAFile s.scan.path = false)) :
    s.matched = s := if_neg h

lemma Lookup.matched_of_match {s : Lookup} (h : s.scan.name = subPath s.scan.path ∧ pathIsAFile s.scan.path = false) :
    s.matched = { s with inPath := restPath s.scan.path, shouldContinue := true, log := .free 0 :: s.log } := if_pos h

lemma Lookup.Stops.matched {s : Lookup} (h : s.Stops) : s.matched.Stops := by
  unfold Lookup.matched
  split
  · rename_i hmatch
    intro hfile
    rw [hmatch.2] at hfile
    cases hfile
  · exact h

/-- **A round of a call** is one of the loop of `ext2_finddir`. -/
lemma findRound_scan {s : Lookup} (h : s.Stops) :
    findRound c image l (.scan s.scan) = afterCall (lookupRound c image l s) := by
  rw [findRound, scanRound, lookupRound]
  by_cases hrunning : s.scan.Running
  · rw [if_pos hrunning, if_pos hrunning]
    cases ext2ReadInodeStruct c image s.scan.entryInode fun _ => 0 with
    | none => rfl
    | some child =>
      dsimp only
      have hstops : Lookup.Stops { s with log := .use 0 :: s.log } := h
      have hscan := Lookup.scan_matched { s with log := .use 0 :: s.log }
      have hmatched := hstops.matched
      rw [hscan]
      by_cases htaken : s.scan.Taken child
      · rw [if_pos htaken, if_pos htaken, afterCall]
        cases hfile : pathIsAFile s.scan.path with
        | true =>
          rw [hmatched (by rw [hscan]; exact hfile)]
          rfl
        | false =>
          rw [Lookup.matched_of_match (s := { s with log := .use 0 :: s.log }) ⟨htaken.1, hfile⟩]
          rfl
      · rw [if_neg htaken, if_neg htaken]
        cases s.scan.advance c image l <;> rfl
  · rw [if_neg hrunning, if_neg hrunning, afterCall]
    cases s.shouldContinue <;> rfl

end

/-! ### Directories -/

structure DirRecord where
  inode : ℕ
  size : ℕ
  name : Path

def DirRecord.Named (r : DirRecord) (path : Path) : Prop := r.name.takeWhile (· ≠ 0) = subPath path

instance (r : DirRecord) (path : Path) : Decidable (r.Named path) := inferInstanceAs (Decidable (_ = _))

/-- The records stand one behind another from `a` on, each with room for its name. -/
def Tiled (image : Mem) : ℕ → List DirRecord → Prop
  | _, [] => True
  | a, r :: rs => load image a 4 = r.inode ∧ load image (a + 4) 2 = r.size ∧ load image (a + 6) 1 = r.name.length ∧
      read image (a + 8) r.name.length = r.name ∧ 8 + r.name.length ≤ r.size ∧ Tiled image (a + r.size) rs

def total (rs : List DirRecord) : ℕ := (rs.map DirRecord.size).sum

/-- A directory of at most 12 blocks, each of them full of records. A record with inode 0 is unused, and the names of
the others do not have a zero in them. -/
structure Directory (c : CustomData) (image : Mem) (inodes : ℕ → InodeData) (inode : ℕ) where
  blocks : List (List DirRecord)
  few : blocks.length ≤ 12
  size : (inodes inode).sizeLo = blocks.length * c.blockSize
  isDirectory : (inodes inode).typeAndPerms &&& 0xF000 = 0x4000
  tiled : ∀ b rs, blocks[b]? = some rs → Tiled image ((inodes inode).directBlockPointer b * c.blockSize) rs
  full : ∀ rs ∈ blocks, total rs = c.blockSize
  names : ∀ r ∈ blocks.flatten, r.inode ≠ 0 → 0 ∉ r.name
  number : inode ≠ 0

namespace Directory

variable {c : CustomData} {image : Mem} {inodes : ℕ → InodeData} {inode : ℕ} (d : Directory c image inodes inode)

def records : List DirRecord := d.blocks.flatten

/-- The live record with the next name of the path; one that the path leads through has to be a directory. -/
def wanted (path : Path) : Option DirRecord :=
  (d.records.find? fun r => r.inode ≠ 0 ∧ r.name = subPath path).filter fun r =>
    pathIsAFile path ∨ (inodes r.inode).typeAndPerms &&& 0xF000 = 0x4000

def first (path : Path) : Option DirRecord := d.records.find? fun r => r.Named path

/-- A call finds the record that is wanted, and does nothing with its buffer after it has freed it. -/
structure Right (path : Path) (r : Returned) : Prop where
  safe : Safe r.log
  inode : r.inode = ((d.wanted path).map DirRecord.inode).getD 0
  path : pathIsAFile path = false → (d.wanted path).isSome → r.inPath = restPath path ∧ r.shouldContinue = true

def Findable (path : Path) : Prop :=
  (subPath path).length < 1024 ∧ if subPath path = [dot] then (d.wanted path).map DirRecord.inode = some inode
    else if 2 ^ 31 ≤ d.blocks.length * c.blockSize then d.wanted path = none
    else if pathIsAFile path then ∀ r, d.first path = some r → r.inode = 0 → d.wanted path = none
    else d.first path = none

end Directory

/-! ### The records -/

section

variable {c : CustomData} {image : Mem} {l : Leftover} {inodes : ℕ → InodeData} {inode : ℕ}
  {d : Directory c image inodes inode} {path : Path}

@[simp] lemma total_nil : total [] = 0 := rfl

@[simp] lemma total_cons (r : DirRecord) (rs : List DirRecord) : total (r :: rs) = r.size + total rs := rfl

lemma total_append (rs rs' : List DirRecord) : total (rs ++ rs') = total rs + total rs' := by
  rw [total, map_append, sum_append, total, total]

lemma total_flatten {size : ℕ} : ∀ {blocks : List (List DirRecord)}, (∀ rs ∈ blocks, total rs = size) →
    total blocks.flatten = blocks.length * size
  | [], _ => by rw [flatten_nil, total_nil, length_nil, Nat.zero_mul]
  | rs :: blocks, h => by
    obtain ⟨hrs, hblocks⟩ := forall_mem_cons.mp h
    rw [flatten_cons, total_append, hrs, total_flatten hblocks, length_cons, Nat.succ_mul, Nat.add_comm]

lemma Directory.total_drop (d : Directory c image inodes inode) (b : ℕ) :
    total (d.blocks.drop b).flatten = (d.blocks.length - b) * c.blockSize := by
  rw [total_flatten fun rs hrs => d.full rs (mem_of_mem_drop hrs), length_drop]

/-- The loop is at the first of the records `rest`, the last of the directory: these are records of block `b` and
the blocks behind it. -/
structure InBlock (d : Directory c image inodes inode) (s : DirScan) (rest : List DirRecord) (b : ℕ)
    (rs : List DirRecord) :
    Prop where
  rest : rest = rs ++ (d.blocks.drop (b + 1)).flatten
  block : s.currentBlock = b
  lt : b < d.blocks.length
  entry : s.entry = s.offset
  room : s.offset + total rs = c.blockSize
  tiled : Tiled image ((inodes inode).directBlockPointer b * c.blockSize + s.offset) rs
  bytes : ∀ x < c.blockSize, s.tempData x = image ((inodes inode).directBlockPointer b * c.blockSize + x)

structure At (d : Directory c image inodes inode) (path : Path) (s : DirScan) (rest : List DirRecord) : Prop where
  path : s.path = path
  inodeData : s.inodeData = inodes inode
  dataToRead : s.dataToRead = total rest
  inBlock : rest ≠ [] → ∃ b rs, rs ≠ [] ∧ InBlock d s rest b rs

lemma readDirBlock_block (hc : c.Sized) (d : Directory c image inodes inode) {b left : ℕ} (hb : b < d.blocks.length)
    (hleft : c.blockSize ≤ left) (u : Uninit) (tempData : Mem) : readDirBlock c image u (inodes inode) b left tempData =
      some (write tempData 0 (read image ((inodes inode).directBlockPointer b * c.blockSize) c.blockSize)) := by
  have hpointer : (inodes inode).directBlockPointer b < 2 ^ 32 := load_lt (k := 4)
  have hsize : (if left > c.blockSize then c.blockSize else left) = c.blockSize := by
    split <;> omega
  rw [readDirBlock, getBlock_direct hc (Nat.lt_of_lt_of_le hb d.few), bind_eq_bind, bind_some,
    hc.blockAddress hpointer (by decide), bind_some, hsize, Nat.add_zero]
  rfl

lemma At.of_block (hc : c.Sized) (d : Directory c image inodes inode) {b : ℕ} {rs : List DirRecord}
    (hb : d.blocks[b]? = some rs) {s : DirScan} {tempData : Mem} (hpath : s.path = path)
    (hdata : s.inodeData = inodes inode)
    (hleft : s.dataToRead = total (d.blocks.drop b).flatten) (hblock : s.currentBlock = b) (hentry : s.entry = 0)
    (hoffset : s.offset = 0) (htemp : s.tempData =
      write tempData 0 (read image ((inodes inode).directBlockPointer b * c.blockSize) c.blockSize)) :
    At d path s (d.blocks.drop b).flatten := by
  obtain ⟨hlt, hrs⟩ := List.getElem?_eq_some_iff.mp hb
  have hfull : total rs = c.blockSize := d.full rs (mem_of_getElem? hb)
  have hne : rs ≠ [] := by
    rintro rfl
    exact Nat.ne_of_lt hc.blockSize_pos hfull
  have hdrop : (d.blocks.drop b).flatten = rs ++ (d.blocks.drop (b + 1)).flatten := by
    rw [drop_eq_getElem_cons hlt, flatten_cons, hrs]
  refine ⟨hpath, hdata, hleft, fun _ => ⟨b, rs, hne, hdrop, hblock,
    hlt, by rw [hentry, hoffset], ?_, ?_, fun x hx => ?_⟩⟩
  · rw [hoffset, Nat.zero_add, hfull]
  · rw [hoffset, Nat.add_zero]
    exact d.tiled b rs hb
  · rw [htemp]
    nth_rewrite 1 [← Nat.zero_add x]
    exact write_copied hx

variable {s : DirScan} {r : DirRecord} {rs rest : List DirRecord} {b : ℕ}

lemma InBlock.read (h : InBlock d s rest b rs) {x k : ℕ} (hx : x + k ≤ c.blockSize) :
    read s.tempData x k = read image ((inodes inode).directBlockPointer b * c.blockSize + x) k := by
  refine map_congr_left fun i hi => ?_
  have hi := mem_range.mp hi
  rw [h.bytes (x + i) (by omega), Nat.add_assoc]

lemma InBlock.load (h : InBlock d s rest b rs) {x k : ℕ} (hx : x + k ≤ c.blockSize) :
    load s.tempData x k = load image ((inodes inode).directBlockPointer b * c.blockSize + x) k := by
  rw [ByteMem.load, h.read hx, ByteMem.load]

lemma At.entry (h : At d path s (r :: rest)) :
    s.entryInode = r.inode ∧ s.entrySize = r.size ∧ s.name = r.name.takeWhile (· ≠ 0) := by
  obtain ⟨b, rs, hne, hin⟩ := h.inBlock (cons_ne_nil r rest)
  obtain ⟨r', rs, rfl⟩ := exists_cons_of_ne_nil hne
  obtain rfl : r = r' := (List.cons.inj hin.rest).1
  obtain ⟨hinode, hsize, hlength, hname, hroom, -⟩ := hin.tiled
  have hfits := hin.room
  rw [total_cons] at hfits
  rw [DirScan.entryInode, DirScan.entrySize, DirScan.name, hin.entry, hin.load (by omega), hin.load (by omega),
    hin.load (by omega), ← Nat.add_assoc, ← Nat.add_assoc, hinode, hsize, hlength, hin.read (by omega), ← Nat.add_assoc,
      hname]
  exact ⟨rfl, rfl, rfl⟩

lemma At.next (hc : c.Sized) (h : At d path s (r :: rest)) (hlt : total (r :: rest) < 2 ^ 32) (l : Leftover) :
    ∃ s', s.advance c image l = some s' ∧ At d path s' rest := by
  obtain ⟨-, hsize, -⟩ := h.entry
  obtain ⟨b, rs, hne, hin⟩ := h.inBlock (cons_ne_nil r rest)
  obtain ⟨r', rs, rfl⟩ := exists_cons_of_ne_nil hne
  obtain ⟨rfl, hrest⟩ := List.cons.inj hin.rest
  have hrest : rest = rs ++ (d.blocks.drop (b + 1)).flatten := hrest
  have hfits := hin.room
  have hbound := hc.blockSize_bounds.2
  rw [total_cons] at hfits hlt
  have hleft : (s.dataToRead + 2 ^ 32 - s.entrySize) % 2 ^ 32 = total rest := by
    rw [h.dataToRead, hsize, total_cons]
    omega
  have hoffset : (s.offset + s.entrySize) % 2 ^ 32 = s.offset + r.size := by
    rw [hsize]
    omega
  unfold DirScan.advance
  dsimp only
  rw [hleft, hoffset]
  cases rs with
  | nil =>
    rw [total_nil] at hfits
    have hfew := d.few
    have hb := hin.lt
    have hblock : (s.currentBlock + 1) % 2 ^ 32 = b + 1 := by
      rw [hin.block]
      omega
    rw [if_pos (by omega), hblock, h.inodeData, hrest, nil_append]
    by_cases hlast : b + 1 < d.blocks.length
    · have htotal := d.total_drop (b + 1)
      have hle : c.blockSize ≤ total (d.blocks.drop (b + 1)).flatten := by
        rw [htotal]
        exact Nat.le_mul_of_pos_left _ (by omega)
      rw [readDirBlock_block hc d hlast hle, map_some]
      exact ⟨_, rfl, At.of_block hc d (getElem?_eq_getElem hlast) h.path rfl rfl rfl rfl rfl rfl⟩
    · have hnone : (d.blocks.drop (b + 1)).flatten = [] := by
        rw [drop_of_length_le (by omega), flatten_nil]
      obtain ⟨data, hdata⟩ := readDirBlock_some hc image (l.uninit s.path (b + 1)) (inodes inode) (b + 1)
        (total (d.blocks.drop (b + 1)).flatten) s.tempData
      rw [hdata, map_some, hnone]
      exact ⟨_, rfl, h.path, rfl, rfl, fun hne => absurd rfl hne⟩
  | cons r2 rs =>
    have hpos : 0 < r2.size := by
      obtain ⟨-, -, -, -, -, -, -, -, -, hroom, -⟩ := hin.tiled
      omega
    rw [total_cons] at hfits
    rw [if_neg (by omega)]
    refine ⟨_, rfl, h.path, h.inodeData, rfl, fun _ =>
      ⟨b, r2 :: rs, cons_ne_nil _ _, hrest, hin.block, hin.lt, ?_, ?_, ?_,
      hin.bytes⟩⟩
    · dsimp only
      rw [hin.entry, hsize]
    · dsimp only
      rw [total_cons]
      omega
    · obtain ⟨-, -, -, -, -, htiled⟩ := hin.tiled
      rw [Nat.add_assoc] at htiled
      exact htiled

/-! ### Rounds -/

variable {log : List Event}

lemma At.running (h : At d path s (r :: rest)) (hlt : total (r :: rest) < 2 ^ 31) : s.Running := by
  have hsize : 0 < total (r :: rest) := by
    obtain ⟨b, rs, hne, hin⟩ := h.inBlock (cons_ne_nil r rest)
    obtain ⟨r', rs, rfl⟩ := exists_cons_of_ne_nil hne
    obtain ⟨rfl, -⟩ := List.cons.inj hin.rest
    obtain ⟨-, -, -, -, hroom, -⟩ := hin.tiled
    rw [total_cons]
    omega
  rw [DirScan.Running, h.dataToRead]
  exact ⟨hsize, hlt⟩

lemma At.pass (hc : c.Sized) (h : At d path s (r :: rest)) (hlt : total (r :: rest) < 2 ^ 31) (hname : ¬ r.Named path)
    (l : Leftover) (log : List Event) : ∃ s', At d path s' rest ∧
      lookupRound c image l ⟨s, path, false, log⟩ = .next ⟨s', path, false, .use 0 :: .use 0 :: log⟩ := by
  obtain ⟨child, hchild⟩ := ext2ReadInodeStruct_some hc image s.entryInode fun _ => 0
  obtain ⟨s', hadvance, hat⟩ := h.next hc (Nat.lt_trans hlt (by decide)) l
  have hother : s.name ≠ subPath s.path := by
    rw [h.entry.2.2, h.path]
    exact hname
  refine ⟨s', hat, ?_⟩
  rw [lookupRound, if_pos (h.running hlt), hchild]
  dsimp only
  rw [Lookup.matched_of_other fun hmatch => hother hmatch.1, if_neg fun htaken => hother htaken.1, hadvance]

lemma At.passes (hc : c.Sized) (l : Leftover) : ∀ {before : List DirRecord} {s : DirScan} {log : List Event},
    At d path s (before ++ rest) → total (before ++ rest) < 2 ^ 31 → (∀ r ∈ before, ¬ r.Named path) →
      (∀ e ∈ log, e = .use 0) →
    ∃ s' log', At d path s' rest ∧ (∀ e ∈ log', e = .use 0) ∧
      Reaches (lookupRound c image l) ⟨s, path, false, log⟩ ⟨s', path, false, log'⟩
  | [], s, log, h, _, _, hlog => ⟨s, log, h, hlog, .refl⟩
  | r :: before, s, log, h, hlt, hnames, hlog => by
    obtain ⟨hr, hbefore⟩ := forall_mem_cons.mp hnames
    obtain ⟨s1, h1, hround⟩ := At.pass hc h hlt hr l log
    rw [cons_append, total_cons] at hlt
    have hlog1 : ∀ e ∈ Event.use 0 :: Event.use 0 :: log, e = .use 0 :=
      forall_mem_cons.mpr ⟨rfl, forall_mem_cons.mpr ⟨rfl, hlog⟩⟩
    obtain ⟨s', log', h', hlog', hreach⟩ := At.passes hc l h1 (by omega) hbefore hlog1
    exact ⟨s', log', h', hlog', .head hround hreach⟩

lemma At.finish (h : At d path s []) (l : Leftover) (log : List Event) :
    lookupRound c image l ⟨s, path, false, log⟩ = .done ⟨0, path, false, .free 0 :: log⟩ := by
  have hstop : ¬ s.Running := by
    rw [DirScan.Running, h.dataToRead, total_nil]
    omega
  rw [lookupRound, if_neg hstop]

lemma At.take (hc : c.Sized) (h : At d path s (r :: rest)) (hlt : total (r :: rest) < 2 ^ 31) (hname : r.Named path)
    (hfile : pathIsAFile path = true) (l : Leftover) (log : List Event) :
    lookupRound c image l ⟨s, path, false, log⟩ = .done ⟨r.inode, path, false, .use 0 :: .use 0 :: log⟩ := by
  obtain ⟨child, hchild⟩ := ext2ReadInodeStruct_some hc image s.entryInode fun _ => 0
  have htaken : s.Taken child := by
    rw [DirScan.Taken, h.entry.2.2, h.path]
    exact ⟨hname, .inl hfile⟩
  have hother : ¬ (s.name = subPath s.path ∧ pathIsAFile s.path = false) := by
    rw [h.path, hfile]
    exact fun hmatch => Bool.noConfusion hmatch.2
  rw [lookupRound, if_pos (h.running hlt), hchild]
  dsimp only
  rw [Lookup.matched_of_other hother, if_pos htaken, h.entry.1]

lemma Lookup.log_matched (s : Lookup) : s.log <:+ s.matched.log := by
  unfold Lookup.matched
  split
  · exact suffix_cons _ _
  · exact suffix_refl _

lemma lookupRound_uses {s : Lookup} (h : s.scan.Running) :
    (∀ s', lookupRound c image l s = .next s' →
      s'.log = .use 0 :: (Lookup.matched { s with log := .use 0 :: s.log }).log) ∧
      ∀ r, lookupRound c image l s = .done r →
        r.log = .use 0 :: (Lookup.matched { s with log := .use 0 :: s.log }).log := by
  rw [lookupRound, if_pos h]
  split
  · simp
  · dsimp only
    split
    · simp +contextual [eq_comm]
    · split <;> simp +contextual [eq_comm]

lemma lookupRound_log {s : Lookup} : (∀ s', lookupRound c image l s = .next s' → s.log <:+ s'.log) ∧
      ∀ r, lookupRound c image l s = .done r → s.log <:+ r.log := by
  by_cases h : s.scan.Running
  · have hmatched : s.log <:+ .use 0 :: (Lookup.matched { s with log := .use 0 :: s.log }).log :=
      (suffix_cons _ _).trans ((Lookup.log_matched { s with log := .use 0 :: s.log }).trans (suffix_cons _ _))
    exact ⟨fun s' hnext => (lookupRound_uses h).1 s' hnext ▸ hmatched, fun r hdone =>
      (lookupRound_uses h).2 r hdone ▸ hmatched⟩
  · rw [lookupRound, if_neg h]
    simp +contextual [eq_comm]

lemma unsafe_of_suffix {log' : List Event} (h : ¬ Safe log) (hsuffix : log <:+ log') : ¬ Safe log' :=
  fun hsafe => h (List.Pairwise.sublist hsuffix.sublist hsafe)

/-- **A record with a name that the path leads through**: the buffer is freed, and then the inode or the size of the
record is read from it. -/
lemma At.misuse (h : At d path s (r :: rest)) (hlt : total (r :: rest) < 2 ^ 31) (hname : r.Named path)
    (hfile : pathIsAFile path = false) {res : Returned}
    (hends : Ends (lookupRound c image l) ⟨s, path, false, log⟩ res) :
    ¬ Safe res.log := by
  have hunsafe : ¬ Safe (.use 0 :: .free 0 :: .use 0 :: log) :=
    fun hsafe => (rel_of_pairwise_cons hsafe mem_cons_self 0 rfl).1 rfl
  have hmatch : s.name = subPath s.path ∧ pathIsAFile s.path = false := by
    rw [h.entry.2.2, h.path]
    exact ⟨hname, hfile⟩
  have huses := @lookupRound_uses c image l ⟨s, path, false, log⟩ (h.running hlt)
  rw [Lookup.matched_of_match (s := ⟨s, path, false, .use 0 :: log⟩) hmatch] at huses
  refine hends.invariant (I := fun t => t = ⟨s, path, false, log⟩ ∨ ¬ Safe t.log)
    (P := fun r => ¬ Safe r.log) ?_ ?_ (.inl rfl)
  · rintro t t' (rfl | ht) hnext
    · rw [huses.1 t' hnext]
      exact .inr hunsafe
    · exact .inr (unsafe_of_suffix ht (lookupRound_log.1 t' hnext))
  · rintro t r' (rfl | ht) hdone
    · rw [huses.2 r' hdone]
      exact hunsafe
    · exact unsafe_of_suffix ht (lookupRound_log.2 r' hdone)

/-! ### Whole calls -/

lemma safe_of_uses (h : ∀ e ∈ log, e = .use 0) (e : Event) : Safe (e :: log) := by
  refine pairwise_cons.mpr ⟨fun f hf n hfree => ?_, ?_⟩
  · rw [h f hf] at hfree
    cases hfree
  · refine pairwise_iff_forall_sublist.mpr fun {f g} hsub n hfree => ?_
    have hg := h g (hsub.subset (mem_cons_of_mem _ mem_cons_self))
    rw [hg] at hfree
    cases hfree

lemma findFileInodeRecursive_eq (hc : c.Sized) (d : Directory c image inodes inode)
    (hread : ext2ReadInodeStruct c image inode (fun _ => 0) = some (inodes inode)) (l : Leftover)
    (hlength : (subPath path).length < 1024) (hdot : subPath path ≠ [dot]) :
    ∃ s, findFileInodeRecursive c image l inode path = .next ⟨s, path, false, [.use 0]⟩ ∧ At d path s d.records := by
  have hdir : (inodes inode).isDirectory = true := by
    have hmask : (inodes inode).typeAndPerms &&& 0x4000 = 0x4000 := by
      have hand : (inodes inode).typeAndPerms &&& 0xF000 &&& 0x4000 = 0x4000 &&& 0x4000 := by rw [d.isDirectory]
      rwa [Nat.and_assoc] at hand
    rw [InodeData.isDirectory, hmask]
    decide
  have htotal : (inodes inode).sizeLo = total d.records := by
    rw [d.size, Directory.records, total_flatten d.full]
  have hstart : ∀ tempData, readDirBlock c image (l.uninit path 0)
    (inodes inode) 0 (inodes inode).sizeLo (l.heap path) =
      some tempData → findFileInodeRecursive c image l inode path =
        .next ⟨⟨path, inodes inode, (inodes inode).sizeLo, 0, 0, 0, tempData⟩, path, false, [.use 0]⟩ := by
    intro tempData htemp
    rw [findFileInodeRecursive, if_neg (Nat.not_le.mpr hlength), if_neg hdot, hread]
    dsimp only
    rw [if_pos hdir, htemp]
  by_cases hempty : d.blocks = []
  · obtain ⟨tempData, htemp⟩ := readDirBlock_some hc image (l.uninit path 0)
      (inodes inode) 0 (inodes inode).sizeLo (l.heap path)
    refine ⟨_, hstart tempData htemp, rfl, rfl, htotal, fun hne => absurd ?_ hne⟩
    rw [Directory.records, hempty, flatten_nil]
  · have hpos : 0 < d.blocks.length := length_pos_iff.mpr hempty
    have hle : c.blockSize ≤ (inodes inode).sizeLo := by
      rw [d.size]
      exact Nat.le_mul_of_pos_left _ hpos
    refine ⟨_, hstart _ (readDirBlock_block hc d hpos hle _ _), ?_⟩
    exact At.of_block (b := 0) hc d (getElem?_eq_getElem hpos) rfl rfl htotal rfl rfl rfl rfl

lemma Directory.wanted_inode {w : DirRecord} (h : d.wanted path = some w) : w.inode ≠ 0 := by
  obtain ⟨hfind, -⟩ := filter_eq_some_iff.mp h
  have hlive := find?_some hfind
  exact (of_decide_eq_true hlive).1

lemma Directory.wanted_eq_none_iff (d : Directory c image inodes inode) (path : Path) :
    0 = ((d.wanted path).map DirRecord.inode).getD 0 ↔ d.wanted path = none := by
  cases hwanted : d.wanted path with
  | none => exact iff_of_true rfl rfl
  | some w => exact iff_of_false (Ne.symm (Directory.wanted_inode hwanted)) (some_ne_none w)

lemma Directory.named_of_live (hr : r ∈ d.records) (hlive : r.inode ≠ 0) : r.Named path ↔ r.name = subPath path := by
  have hwhole : r.name.takeWhile (· ≠ 0) = r.name :=
    takeWhile_eq_self_iff.mpr fun b hb => decide_eq_true fun hzero => d.names r hr hlive (hzero ▸ hb)
  rw [DirRecord.Named, hwhole]

lemma Directory.wanted_of_none (h : d.first path = none) : d.wanted path = none := by
  have hnone : d.records.find? (fun r => r.inode ≠ 0 ∧ r.name = subPath path) = none := by
    refine find?_eq_none.mpr fun r hr hwanted => ?_
    obtain ⟨hlive, hname⟩ := of_decide_eq_true hwanted
    exact find?_eq_none.mp h r hr (decide_eq_true ((Directory.named_of_live hr hlive).mpr hname))
  rw [Directory.wanted, hnone, filter_none]

lemma Directory.wanted_of_first (h : d.first path = some r) (hlive : r.inode ≠ 0) (hfile : pathIsAFile path = true) :
    d.wanted path = some r := by
  obtain ⟨hnamed, before, behind, hsplit, hbefore⟩ := find?_eq_some_iff_append.mp h
  have hr : r ∈ d.records := by
    rw [hsplit]
    exact mem_append_right before mem_cons_self
  have hfind : d.records.find? (fun r => r.inode ≠ 0 ∧ r.name = subPath path) = some r := by
    refine find?_eq_some_iff_append.mpr ⟨?_, before, behind, hsplit, fun q hq => ?_⟩
    · exact decide_eq_true ⟨hlive, (Directory.named_of_live hr hlive).mp (of_decide_eq_true hnamed)⟩
    · have hq' : q ∈ d.records := by
        rw [hsplit]
        exact mem_append_left _ hq
      have hother := hbefore q hq
      rw [Bool.not_eq_true', decide_eq_false_iff_not] at hother ⊢
      exact fun hwanted => hother ((Directory.named_of_live hq' hwanted.1).mpr hwanted.2)
  rw [Directory.wanted, hfind, filter_some, if_pos (decide_eq_true (.inl hfile))]

lemma Directory.right_dot (d : Directory c image inodes inode) (hlength : (subPath path).length < 1024)
    (hdot : subPath path = [dot]) (l : Leftover) :
    (∃ r, Returns c image l inode path r ∧ d.Right path r) ↔ (d.wanted path).map DirRecord.inode = some inode := by
  have hreturns : ∀ r, Returns c image l inode path r ↔
      r = ⟨inode, if pathIsAFile path then path else restPath path, !pathIsAFile path, []⟩ := by
    intro r
    rw [Returns, findFileInodeRecursive, if_neg (Nat.not_le.mpr hlength), if_pos hdot]
    cases pathIsAFile path <;> rfl
  simp only [hreturns, exists_eq_left]
  constructor
  · rintro ⟨-, hinode, -⟩
    cases hwanted : d.wanted path with
    | none =>
      rw [hwanted] at hinode
      exact absurd hinode d.number
    | some w =>
      rw [hwanted] at hinode
      exact congrArg some hinode.symm
  · intro hwanted
    refine ⟨List.Pairwise.nil, by rw [hwanted, getD_some], fun hfile _ => ?_⟩
    rw [hfile]
    exact ⟨rfl, rfl⟩

lemma Directory.right_zero_iff (d : Directory c image inodes inode) (hsafe : Safe log) :
    d.Right path ⟨0, path, false, log⟩ ↔ d.wanted path = none := by
  constructor
  · intro h
    exact (d.wanted_eq_none_iff path).mp h.inode
  · intro hnone
    refine ⟨hsafe, (d.wanted_eq_none_iff path).mpr hnone, fun _ hsome => ?_⟩
    rw [hnone] at hsome
    cases hsome

lemma Directory.right_first_iff (hfirst : d.first path = some r) (hfile : pathIsAFile path = true) (hsafe : Safe log) :
    d.Right path ⟨r.inode, path, false, log⟩ ↔ (r.inode = 0 → d.wanted path = none) := by
  by_cases hlive : r.inode = 0
  · rw [hlive, d.right_zero_iff hsafe]
    exact ⟨fun h _ => h, fun h => h rfl⟩
  · refine iff_of_true ⟨hsafe, ?_, fun hgoes => ?_⟩ fun hzero => absurd hzero hlive
    · rw [Directory.wanted_of_first hfirst hlive hfile]
      rfl
    · rw [hfile] at hgoes
      cases hgoes

/-- **Finding a name in a directory.** A call returns the inode of the live record with the next name of the path,
and keeps off the buffer that it has freed, exactly if the directory and the path are as they have to be. -/
theorem lookup_right_iff (hc : c.Sized) (d : Directory c image inodes inode)
    (hread : ext2ReadInodeStruct c image inode (fun _ => 0) = some (inodes inode)) (l : Leftover) (path : Path) :
    (∃ r, Returns c image l inode path r ∧ d.Right path r) ↔ d.Findable path := by
  rw [Directory.Findable]
  by_cases hlength : (subPath path).length < 1024
  swap
  · refine iff_of_false ?_ fun h => hlength h.1
    rintro ⟨r, hreturns, -⟩
    rw [Returns, findFileInodeRecursive, if_pos (Nat.le_of_not_lt hlength)] at hreturns
    exact hreturns
  rw [and_iff_right hlength]
  by_cases hdot : subPath path = [dot]
  · rw [if_pos hdot]
    exact d.right_dot hlength hdot l
  rw [if_neg hdot]
  obtain ⟨s, hstart, hat⟩ := findFileInodeRecursive_eq hc d hread l hlength hdot
  have hreturns : ∀ r, Returns c image l inode path r ↔ Ends (lookupRound c image l) ⟨s, path, false, [.use 0]⟩ r := by
    intro r
    rw [Returns, hstart, After]
  have huses : ∀ e ∈ [Event.use 0], e = .use 0 := fun e he => mem_singleton.mp he
  have htotal : total d.records = d.blocks.length * c.blockSize := total_flatten d.full
  simp only [hreturns]
  by_cases hlarge : 2 ^ 31 ≤ d.blocks.length * c.blockSize
  · have hround : lookupRound c image l ⟨s, path, false, [.use 0]⟩ = .done ⟨0, path, false, [.free 0, .use 0]⟩ := by
      have hstop : ¬ s.Running := by
        rw [DirScan.Running, hat.dataToRead]
        omega
      rw [lookupRound, if_neg hstop]
    rw [if_pos hlarge]
    simp only [ends_done hround, exists_eq_left]
    exact d.right_zero_iff (safe_of_uses huses _)
  rw [if_neg hlarge]
  have hlt : total d.records < 2 ^ 31 := by omega
  cases hfirst : d.first path with
  | none =>
    have hothers : ∀ r ∈ d.records, ¬ r.Named path := fun r hr hnamed =>
      find?_eq_none.mp hfirst r hr (decide_eq_true hnamed)
    rw [← append_nil d.records] at hat hlt
    obtain ⟨s', log, hat', hlog, hreach⟩ := At.passes hc l hat hlt hothers huses
    simp only [hreach.ends_iff, ends_done (hat'.finish l log), exists_eq_left]
    rw [d.right_zero_iff (safe_of_uses hlog _)]
    refine iff_of_true (Directory.wanted_of_none hfirst) ?_
    split
    · exact fun r h => by cases h
    · trivial
  | some r =>
    obtain ⟨hnamed, before, behind, hsplit, hbefore⟩ := find?_eq_some_iff_append.mp hfirst
    have hothers : ∀ q ∈ before, ¬ q.Named path := by
      intro q hq
      have hother := hbefore q hq
      rwa [Bool.not_eq_true', decide_eq_false_iff_not] at hother
    have hnamed : r.Named path := of_decide_eq_true hnamed
    rw [Directory.records] at hat hlt hsplit
    rw [hsplit] at hat hlt
    obtain ⟨s', log, hat', hlog, hreach⟩ := At.passes hc l hat hlt hothers huses
    have hlt' : total (r :: behind) < 2 ^ 31 := by
      rw [total_append] at hlt
      omega
    simp only [hreach.ends_iff]
    cases hfile : pathIsAFile path with
    | true =>
      have hlog' : ∀ e ∈ Event.use 0 :: log, e = .use 0 := forall_mem_cons.mpr ⟨rfl, hlog⟩
      simp only [ends_done (hat'.take hc hlt' hnamed hfile l log), exists_eq_left]
      rw [Directory.right_first_iff hfirst hfile (safe_of_uses hlog' _), if_pos trivial]
      refine ⟨fun h q hq => ?_, fun h => h r rfl⟩
      obtain rfl := some.inj hq
      exact h
    | false =>
      refine iff_of_false ?_ (by simp)
      rintro ⟨res, hends, hright⟩
      exact hat'.misuse hlt' hnamed hfile hends hright.safe

end

/-! ### A directory of four records -/

instance decidableTiled (image : Mem) : ∀ (a : ℕ) (rs : List DirRecord), Decidable (Tiled image a rs)
  | _, [] => isTrue trivial
  | a, r :: rs =>
    have := decidableTiled image (a + r.size) rs
    inferInstanceAs (Decidable (_ ∧ _ ∧ _ ∧ _ ∧ _ ∧ _))

/-- `.`, a directory `a`, an unused record with the name `b` and a file `b`. -/
def fourRecords : List DirRecord := [⟨2, 12, [dot]⟩, ⟨3, 12, [97]⟩, ⟨0, 12, [98]⟩, ⟨4, 988, [98]⟩]

/-- The filesystem of two groups with these records in block 10, as its root directory. -/
def fourImage : Mem := fun x =>
  match x with
  | 5249 => 0x40
  | 5253 => 0x04
  | 5288 => 10
  | 5377 => 0x40
  | 5505 => 0x80
  | x => if 10240 ≤ x ∧ x < 10285 then
      (toBytes 4 2 ++ toBytes 2 12 ++ [1, 2, dot, 0, 0, 0] ++ toBytes 4 3 ++ toBytes 2 12 ++ [1, 2, 97, 0, 0, 0] ++
        toBytes 4 0 ++ toBytes 2 12 ++ [1, 1, 98, 0, 0, 0] ++ toBytes 4 4 ++ toBytes 2 988 ++ [1, 1, 98]).getD
          (x - 10240) 0
    else twoGroups x

def fourInodes (n : ℕ) : InodeData := (ext2ReadInodeStruct twoGroupsData fourImage n fun _ => 0).getD fun _ => 0

lemma fourImage_sized : twoGroupsData.Sized := ⟨by decide, by decide, by decide, rfl⟩

def fourRoot : Directory twoGroupsData fourImage fourInodes 2 where
  blocks := [fourRecords]
  few := by decide
  size := by decide +kernel
  isDirectory := by decide +kernel
  tiled := fun b rs h => by
    obtain ⟨rfl, rfl⟩ : b = 0 ∧ fourRecords = rs := by
      cases b with
      | zero => exact ⟨rfl, some.inj h⟩
      | succ b => cases h
    decide +kernel
  full := by decide +kernel
  names := by decide +kernel
  number := by decide

lemma fourInodes_read : ext2ReadInodeStruct twoGroupsData fourImage 2 (fun _ => 0) = some (fourInodes 2) := by
  obtain ⟨data, hdata⟩ := ext2ReadInodeStruct_some fourImage_sized fourImage 2 fun _ => 0
  rw [fourInodes, hdata, getD_some]

def noLeftover : Leftover := ⟨fun _ _ => 0, fun _ _ => ⟨0, 0, 0⟩⟩

def returned (c : CustomData) (image : Mem) (l : Leftover) (inode : ℕ) (path : Path) (n : ℕ) : Option Returned :=
  match findFileInodeRecursive c image l inode path with
  | .done r => some r
  | .fault => none
  | .next s => run (lookupRound c image l) n s

lemma returns_of_returned {c : CustomData} {image : Mem} {l : Leftover} {inode n : ℕ} {path : Path} {r : Returned}
    (h : returned c image l inode path n = some r) : Returns c image l inode path r := by
  rw [Returns]
  rw [returned] at h
  cases hstart : findFileInodeRecursive c image l inode path with
  | done r' =>
    rw [hstart] at h
    exact (some.inj h).symm
  | fault =>
    rw [hstart] at h
    cases h
  | next s =>
    rw [hstart] at h
    exact ⟨n, h⟩

/-- The last name `a` is found. -/
theorem lookup_right_iff_four :
    ∃ r, Returns twoGroupsData fourImage noLeftover 2 [97] r ∧ fourRoot.Right [97] r := by
  refine (lookup_right_iff fourImage_sized fourRoot fourInodes_read noLeftover [97]).mpr ⟨by decide, ?_⟩
  rw [if_neg (by decide), if_neg (by decide), if_pos (by decide)]
  have hfirst : (fourRoot.first [97]).map DirRecord.inode = some 3 := by decide +kernel
  intro r hr hzero
  rw [hr, map_some, hzero] at hfirst
  cases hfirst

/-- On the way through `a` the buffer is read after it was freed, and `b` is not found. -/
theorem lookups_gone_wrong : (∃ r, Returns twoGroupsData fourImage noLeftover 2 [97, slash, 98] r ∧ r.inode = 3 ∧
      r.log = [.use 0, .free 0, .use 0, .use 0, .use 0, .use 0] ∧ ¬ Safe r.log) ∧
    (∃ r, Returns twoGroupsData fourImage noLeftover 2 [98] r ∧ r.inode = 0) ∧
    (fourRoot.wanted [98]).map DirRecord.inode = some 4 := by
  have hthrough : ((returned twoGroupsData fourImage noLeftover 2 [97, slash, 98] 5).map fun r => (r.inode, r.log)) =
      some (3, [.use 0, .free 0, .use 0, .use 0, .use 0, .use 0]) := by decide +kernel
  have hlast : ((returned twoGroupsData fourImage noLeftover 2 [98] 5).map fun r => r.inode) = some 0 := by
    decide +kernel
  obtain ⟨r, hr, hfields⟩ := map_eq_some_iff.mp hthrough
  obtain ⟨hinode, hlog⟩ := Prod.mk.inj hfields
  obtain ⟨r', hr', hzero⟩ := map_eq_some_iff.mp hlast
  refine ⟨⟨r, returns_of_returned hr, hinode, hlog, ?_⟩, ⟨r', returns_of_returned hr', hzero⟩, by decide +kernel⟩
  rw [hlog]
  decide

end WivOS.Ext2
