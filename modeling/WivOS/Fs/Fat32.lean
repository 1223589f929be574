/-
# FAT32 directories

`fat32_read_fat_entry`, `fat32_get_next_cluster`, `fat32_compare_fs_ent_and_path`, `fat32_readdir` and `fat32_finddir`
of `kernel/fs/fat32/fat32.c`. Both directory functions go over the entries of a cluster chain in one loop
(`scanRound`) and collect the parts of a long name. The buffer `entry_name` is not set at the start of a call: a byte
that was never written is `none`, and so is the byte below `subPath`.
-/
import Mathlib.Algebra.Group.Nat.Defs
import Mathlib.Data.List.TakeWhile
import WivOS.Lib.Loop

namespace WivOS.Fat32

open List

open Loop (Ends Round)

abbrev Bytes := List UInt8

abbrev Entry := ℕ → UInt8

/-- `fat32fs_custom_data_t`, and the device. `fat` is the table of `fatLength` bytes that
each call reads, and `disk k` is what the device holds in the 32 bytes from `32 * k` on. -/
structure Volume where
  sectorsPerCluster : ℕ
  beginCluster : ℕ
  rootDirCluster : ℕ
  fatLength : ℕ
  fat : ℕ → ℕ
  disk : ℕ → Entry

def Volume.slots (v : Volume) : ℕ := v.sectorsPerCluster * 16

def Volume.address (v : Volume) (cluster index : ℕ) : ℕ :=
  (v.beginCluster + (cluster - 2) * v.sectorsPerCluster) * 16 + index

def Volume.readFatEntry (v : Volume) (cluster index : ℕ) : Option Entry :=
  if cluster < 2 ∨ cluster ≥ 0x0FFFFFF8 then none
  else
    let entry := v.disk (v.address cluster index)
    if entry 0 = 0 then none else some entry

def Volume.getNextCluster (v : Volume) (cluster : ℕ) : ℕ :=
  if cluster ≥ v.fatLength / 4 then 0
  else if v.fat cluster ≥ 0x0FFFFFF8 then 0
  else v.fat cluster

def attributeOf (e : Entry) : UInt8 := e 11

def firstCluster (e : Entry) : ℕ :=
  ((e 20).toNat + (e 21).toNat * 256) * 65536 + ((e 26).toNat + (e 27).toNat * 256)

/-! ### Names -/

abbrev NameBuffer := ℕ → Option UInt8

def unsetName : NameBuffer := fun _ => none

def zeroName : NameBuffer := fun _ => some 0

/-- `name1`, `name2` and `name3` of a part of a long name, every second byte. -/
def partOffsets : List ℕ := [1, 3, 5, 7, 9, 14, 16, 18, 20, 22, 24, 28, 30]

def partChars (e : Entry) : Bytes := partOffsets.map e

def writeName (name : NameBuffer) (offset : ℕ) (chars : Bytes) : NameBuffer := fun k =>
  if offset ≤ k ∧ k < offset + chars.length then chars[k - offset]? else name k

/-- The code for an entry that is part of a long name; `none` if it writes outside of the
512 bytes of the buffer. -/
def longFileName (e : Entry) (name : NameBuffer) (ready : Bool) : Option (NameBuffer × Bool) :=
  let index := ((e 0 &&& 0x1F) - 1).toNat
  if 512 ≤ index * 14 then none
  else if e 0 &&& 0x40 ≠ 0 then
    some (writeName (Function.update name (index * 14) (some 0)) (index * 13) (partChars e), true)
  else some (writeName name (index * 13) (partChars e), ready)

def nameEq (name : NameBuffer) (subPath : Bytes) : Bool :=
  (subPath ++ [0]).zipIdx.all fun b => name b.2 = some b.1

def dot : UInt8 := 46

def slash : UInt8 := 47

def space : UInt8 := 32

def padded (width : ℕ) (s : Bytes) : Bytes := s ++ List.replicate (width - s.length) space

def upper (c : UInt8) : UInt8 := if 97 ≤ c ∧ c ≤ 122 then c - 32 else c

/-- `!fat32_compare_fs_ent_and_path(real_name, path)`. `ext` is the offset of the first dot,
or of the end; the byte before it is looked at. -/
def shortEq (e : Entry) (path : Bytes) : Bool :=
  let ext := (path.takeWhile (· ≠ dot)).length
  let before := if ext = 0 then none else path[ext - 1]?
  let name :=
    if before = some dot then
      padded 8 (path.take (min (ext - 1) 8)) ++ padded 3 ((path.drop ext).take 3)
    else padded 11 (path.take 8)
  (List.range 11).map e = name.map upper

/-! ### The loop over the entries -/

/-- Where the loop is: the entry it reads next, and the long name so far. `path` is what
`pathPtr` points to. -/
structure Cursor where
  cluster : ℕ
  i : ℕ
  path : Bytes
  name : NameBuffer
  ready : Bool

/-- One round of the loop. `finish` is the result when no entry is left, `cross` is called
with the next cluster, and `short` at an entry that ends a name. -/
def scanRound {ρ : Type*} (v : Volume) (finish : ρ) (cross : Cursor → Round Cursor ρ)
    (short : Cursor → Entry → Round Cursor ρ) (s : Cursor) : Round Cursor ρ :=
  match v.readFatEntry s.cluster s.i with
  | none => .done finish
  | some e =>
    if s.i = v.slots then cross { s with cluster := v.getNextCluster s.cluster, i := 0 }
    else if e 0 = 0xE5 then .next { s with i := s.i + 1 }
    else if attributeOf e = 0x0F then
      match longFileName e s.name s.ready with
      | none => .fault
      | some (name, ready) => .next { s with i := s.i + 1, name, ready }
    else short s e

/-- What `fat32_finddir` returns: `device->entry`, whether the node is a directory, and
`device->cluster`, which is set for a directory. -/
structure Node where
  entry : Entry
  directory : Bool
  cluster : Option ℕ

/-- `fat32_finddir` at an entry that ends a name. After a directory on the path, `i` is 0
when the loop counts it up. -/
def finddirShort (s : Cursor) (e : Entry) : Round Cursor (Option Node) :=
  let subPath := s.path.takeWhile (· ≠ slash)
  let pathIsAFile := !s.path.contains slash
  let isMatch := if s.ready then nameEq s.name subPath else shortEq e subPath
  if attributeOf e &&& 0x20 ≠ 0 ∧ pathIsAFile ∧ isMatch then .done (some ⟨e, false, none⟩)
  else if attributeOf e &&& 0x10 ≠ 0 ∧ pathIsAFile ∧ isMatch then .done (some ⟨e, true, some (firstCluster e)⟩)
  else if attributeOf e &&& 0x10 ≠ 0 ∧ !pathIsAFile ∧ isMatch then
    .next ⟨firstCluster e, 1, (s.path.dropWhile (· ≠ slash)).tail, zeroName, false⟩
  else .next { s with i := s.i + 1, name := zeroName, ready := false }

def finddirRound (v : Volume) : Cursor → Round Cursor (Option Node) := scanRound v none .next finddirShort

def finddirStart (v : Volume) (path : Bytes) : Cursor := ⟨v.rootDirCluster, 0, path, unsetName, false⟩

/-- `fat32_finddir` returns `res`. A path of 1024 bytes or more is copied past the end of `path[1024]`; a name in it,
which is copied to `subPath[1024]`, is no longer than the path. -/
def Finddir (v : Volume) (path : Bytes) (res : Option Node) : Prop :=
  path.length < 1024 ∧ Ends (finddirRound v) (finddirStart v path) res

/-- What `fat32_readdir` stores: the name (`none` if it has a byte that was never written),
where to go on, and whether the entry is a directory. -/
structure Dirent where
  name : Option Bytes
  ino : ℕ
  directory : Bool

def copyName (name : NameBuffer) : ℕ → ℕ → Option Bytes
  | 0, _ => none
  | n + 1, k => match name k with
    | none => none
    | some c => if c = 0 then some [] else (copyName name n (k + 1)).map (c :: ·)

def nameChar (c : UInt8) : Bool := c ≠ 0 ∧ c ≠ 0xFF ∧ c ≠ space

def lastCharacter (e : Entry) : ℕ → Option ℕ
  | 0 => if nameChar (e 0) then some 0 else none
  | k + 1 => if nameChar (e (k + 1)) then some (k + 1) else lastCharacter e k

def shortName (e : Entry) : Option Bytes :=
  (lastCharacter e 7).map fun last =>
    let base := (List.range (last + 1)).map e
    let ext := [e 8, e 9, e 10]
    (if ext.all nameChar then base ++ dot :: ext else base).takeWhile (· ≠ 0)

def readdirShort (s : Cursor) (e : Entry) : Round Cursor (Option Dirent) :=
  let ino := s.cluster * 2 ^ 32 + (s.i + 1) % 2 ^ 32
  let directory := attributeOf e &&& 0x10 ≠ 0
  if s.ready then .done (some ⟨copyName s.name 512 0, ino, directory⟩)
  else match shortName e with
    | none => .fault
    | some name => .done (some ⟨some name, ino, directory⟩)

def readdirRound (v : Volume) : Cursor → Round Cursor (Option Dirent) :=
  scanRound v none (fun s => if s.cluster = 0 then .done none else .next s) readdirShort

def readdirStart (cluster ino : ℕ) : Cursor :=
  ⟨if ino / 2 ^ 32 = 0 then cluster else ino / 2 ^ 32, ino % 2 ^ 32, [], unsetName, false⟩

/-! ### Comparing names -/

lemma nameEq_iff (name : NameBuffer) (s : Bytes) :
    nameEq name s = true ↔ ∀ k b, (s ++ [0])[k]? = some b → name k = some b := by
  simp only [nameEq, all_eq_true, decide_eq_true_eq]
  constructor
  · intro h k b hk
    exact h (b, k) (mk_mem_zipIdx_iff_getElem?.mpr hk)
  · rintro h ⟨b, k⟩ hmem
    exact h k b (mk_mem_zipIdx_iff_getElem?.mp hmem)

lemma takeWhile_dot_ne {path : Bytes} {k : ℕ} (hk : k < (path.takeWhile (· ≠ dot)).length) : path[k]? ≠ some dot := by
  have hpre : path.takeWhile (· ≠ dot) <+: path := takeWhile_prefix _
  intro h
  have hmem : (path.takeWhile (· ≠ dot))[k]? = some dot := by
    rw [getElem?_eq_getElem hk, hpre.getElem hk]
    rwa [getElem?_eq_getElem (Nat.lt_of_lt_of_le hk hpre.length_le)] at h
  have hd := mem_takeWhile_imp (mem_of_getElem? hmem)
  simp at hd

/-- **The comparison of short names** does not know extensions: the byte before the first
dot is never a dot, so the name field is compared with the first eight bytes of the name,
in capitals, and blanks. -/
lemma shortEq_iff (e : Entry) (path : Bytes) :
    shortEq e path = true ↔ (List.range 11).map e = (padded 11 (path.take 8)).map upper := by
  have hbefore : (if (path.takeWhile (· ≠ dot)).length = 0 then none
      else path[(path.takeWhile (· ≠ dot)).length - 1]?) ≠ some dot := by
    split
    · nofun
    · exact takeWhile_dot_ne (by omega)
  simp only [shortEq, if_neg hbefore, decide_eq_true_eq]

end WivOS.Fat32
