/-
# Copying and the kernel heap

`memcpy` and `memmove` of `kernel/utils/string.c`, and `kmalloc`, `kfree` and `krealloc` of `kernel/utils/kmalloc.c`. A
load or store outside a block is a fault (`none`). A block is the header and the bytes of its pages. Whether the page
allocator finds the pages of a new block is an argument (`free`).
-/
import Mathlib.Algebra.Group.Nat.Defs
import WivOS.Lib.Slice

namespace WivOS.Utils

open List Option Slice

abbrev Byte := BitVec 8

/-! ### Copying -/

def storeByte (m : List Byte) (i : ℕ) (b : Byte) : Option (List Byte) :=
  if m[i]?.isSome then some (m.set i b) else none

def memcpy (dest : List Byte) (d : ℕ) (source : List Byte) (s : ℕ) : ℕ → Option (List Byte)
  | 0 => some dest
  | n + 1 => do
    let dest ← memcpy dest d source s n
    let b ← source[s + n]?
    storeByte dest (d + n) b

def moveUp (m : List Byte) (d s : ℕ) : ℕ → Option (List Byte)
  | 0 => some m
  | n + 1 => do
    let m ← moveUp m d s n
    let b ← m[s + n]?
    storeByte m (d + n) b

def moveDown (d s : ℕ) : ℕ → List Byte → Option (List Byte)
  | 0, m => some m
  | n + 1, m => do
    let b ← m[s + n]?
    let m ← storeByte m (d + n) b
    moveDown d s n m

def memmove (m : List Byte) (d s n : ℕ) : Option (List Byte) :=
  if d < s then moveUp m d s n else if s < d then moveDown d s n m else some m

variable {m : List Byte} {d s : ℕ} {dest source : List Byte} {n : ℕ}

lemma storeByte_eq {i : ℕ} (h : i < m.length) (b : Byte) : storeByte m i b = some (m.set i b) := by
  rw [storeByte, getElem?_eq_getElem h]
  rfl

lemma storeByte_splice {data : List Byte} (hn : data.length = n) (h : d + n < m.length) (b : Byte) :
    storeByte (splice m d data) (d + n) b = some (splice m d (data ++ [b])) := by
  subst hn
  rw [storeByte_eq (by rw [length_splice (Nat.le_of_lt h)]; exact h), splice_concat h]

lemma memcpy_eq : ∀ {n : ℕ}, d + n ≤ dest.length → s + n ≤ source.length →
    memcpy dest d source s n = some (splice dest d ((source.drop s).take n))
  | 0, _, _ => by rw [memcpy, take_zero, splice_nil]
  | n + 1, hd, hs => by
    have hget : source[s + n]? = some source[s + n] := getElem?_eq_getElem (by omega)
    have hstore := storeByte_splice (length_slice (by omega : s + n ≤ source.length)) hd source[s + n]
    rw [slice_concat hget] at hstore
    have ih : memcpy dest d source s n = _ := memcpy_eq (by omega) (by omega)
    simp only [memcpy, ih, hget, bind_eq_bind, bind_some, hstore]

lemma memcpy_drop {k : ℕ} : ∀ {n : ℕ} {dest' : List Byte},
    memcpy dest d source s n = some dest' → d + n ≤ k → dest'.drop k = dest.drop k
  | 0, dest', h, _ => by
    cases h
    rfl
  | n + 1, dest', h, hk => by
    simp only [memcpy, bind_eq_bind, bind_eq_some_iff, storeByte] at h
    obtain ⟨dest1, h1, b, -, h2⟩ := h
    split at h2
    · cases h2
      rw [drop_set_of_lt (by omega), memcpy_drop h1 (by omega)]
    · cases h2

lemma moveUp_eq (hds : d ≤ s) : ∀ {n : ℕ}, s + n ≤ m.length → moveUp m d s n = some (splice m d ((m.drop s).take n))
  | 0, _ => by rw [moveUp, take_zero, splice_nil]
  | n + 1, hs => by
    have hlen := length_slice (by omega : s + n ≤ m.length)
    have hget : m[s + n]? = some m[s + n] := getElem?_eq_getElem (by omega)
    have hahead : (splice m d ((m.drop s).take n))[s + n]? = some m[s + n] := by
      rw [getElem?_splice_of_le (by omega) (by omega), hget]
    have hstore := storeByte_splice hlen (by omega : d + n < m.length) m[s + n]
    rw [slice_concat hget] at hstore
    have ih : moveUp m d s n = _ := moveUp_eq hds (by omega)
    simp only [moveUp, ih, bind_eq_bind, bind_some, hahead, hstore]

lemma moveDown_eq (hsd : s ≤ d) : ∀ {n : ℕ} {m : List Byte}, d + n ≤ m.length →
    moveDown d s n m = some (splice m d ((m.drop s).take n))
  | 0, m, _ => by rw [moveDown, take_zero, splice_nil]
  | n + 1, m, hd => by
    have hlen := length_slice (by omega : s + n ≤ m.length)
    have hget : m[s + n]? = some m[s + n] := getElem?_eq_getElem (by omega)
    have hset := set_splice (l := m) (i := d) (d := (m.drop s).take n) (a := m[s + n]) (by omega)
    rw [hlen, slice_concat hget] at hset
    rw [moveDown, hget, bind_eq_bind, bind_some, storeByte_eq (by omega), bind_eq_bind,
      bind_some, moveDown_eq hsd (by rw [length_set]; omega), slice_set (by omega), hset]

/-- **`memmove`**: overlapping or not, the bytes arrive as they were. -/
lemma memmove_eq (hd : d + n ≤ m.length) (hs : s + n ≤ m.length) :
    memmove m d s n = some (splice m d ((m.drop s).take n)) := by
  rcases Nat.lt_trichotomy d s with h | rfl | h
  · rw [memmove, if_pos h, moveUp_eq (Nat.le_of_lt h) hs]
  · rw [memmove, if_neg (Nat.lt_irrefl _), if_neg (Nat.lt_irrefl _), splice_self hd]
  · rw [memmove, if_neg (Nat.not_lt_of_lt h), if_pos h, moveDown_eq (Nat.le_of_lt h) hd]

/-! ### The heap -/

def roundUp (n step : ℕ) : ℕ := (n + step - 1) % 2 ^ 64 / step * step

/-- A block: the two fields of the header, and the pages behind it. -/
structure Block where
  pages : ℕ
  size : ℕ
  bytes : List Byte

/-- `kmalloc`. The page allocator hands out zeroed pages. -/
def kmalloc (free : Bool) (size : ℕ) : Option Block :=
  let pageCount := if size % 0x1000 ≠ 0 then size / 0x1000 + 1 else size / 0x1000
  if free then some ⟨pageCount, size, List.replicate (pageCount * 0x1000) 0⟩ else none

def krealloc (free : Bool) (addr : Option Block) (size : ℕ) : Option (Option Block) :=
  match addr with
  | none => some (kmalloc free size)
  | some b =>
    if size = 0 then some none
    else if roundUp b.size 0x1000 = roundUp size 0x1000 then some (some { b with size := size })
    else match kmalloc free size with
      | none => some none
      | some newAddr => do
        let bytes ← memcpy newAddr.bytes 0 b.bytes 0 (if b.size > size then size else b.size)
        some (some { newAddr with bytes := bytes })

/-- A block as the heap keeps it: as many pages as its size needs. -/
structure Block.Ok (b : Block) : Prop where
  pages_eq : b.pages = (b.size + 0xFFF) / 0x1000
  length_eq : b.bytes.length = b.pages * 0x1000

variable {b : Block}

lemma Block.Ok.size_le (h : b.Ok) : b.size ≤ b.bytes.length := by
  rw [h.length_eq, h.pages_eq]
  omega

lemma kmalloc_spec (size : ℕ) : ∃ b, kmalloc true size = some b ∧ b.Ok ∧ b.size = size := by
  refine ⟨_, rfl, ⟨?_, ?_⟩, rfl⟩
  · show (if size % 0x1000 ≠ 0 then size / 0x1000 + 1 else size / 0x1000) = (size + 0xFFF) / 0x1000
    split <;> omega
  · exact length_replicate

/-- **`krealloc`** of a block to a size that is not zero, with memory left: the block
has the new size and the bytes that fit both sizes, moved or not. -/
lemma krealloc_spec {size : ℕ} (hb : b.Ok) (hold : b.size + 0x1000 ≤ 2 ^ 64) (hsize : 0 < size)
    (hnew : size + 0x1000 ≤ 2 ^ 64) : ∃ b', krealloc true (some b) size = some (some b') ∧ b'.Ok ∧ b'.size = size ∧
      ∀ n, n ≤ b.size → n ≤ size → b'.bytes.take n = b.bytes.take n := by
  by_cases hpages : roundUp b.size 0x1000 = roundUp size 0x1000
  · refine ⟨{ b with size := size }, ?_, ⟨?_, hb.length_eq⟩, rfl, fun _ _ _ => rfl⟩
    · simp only [krealloc, if_neg (Nat.ne_of_gt hsize), if_pos hpages]
    · have := hb.pages_eq
      simp only [roundUp] at hpages
      show b.pages = (size + 0xFFF) / 0x1000
      omega
  · obtain ⟨b', hb', hok, rfl⟩ := kmalloc_spec size
    have hfit := hb.size_le
    have hfit' := hok.size_le
    obtain ⟨n, hn⟩ : ∃ n, n = if b.size > b'.size then b'.size else b.size := ⟨_, rfl⟩
    have hmin : n = min b.size b'.size := by
      rw [hn]
      split <;> omega
    have hlen : ((b.bytes.drop 0).take n).length = n := length_slice (by omega)
    have hcopy : memcpy b'.bytes 0 b.bytes 0 n = _ := memcpy_eq (by omega) (by omega)
    refine ⟨{ b' with bytes := splice b'.bytes 0 ((b.bytes.drop 0).take n) }, ?_, ⟨hok.pages_eq, ?_⟩, rfl, ?_⟩
    · simp only [krealloc, if_neg (Nat.ne_of_gt hsize), if_neg hpages, hb', ← hn, hcopy, bind_eq_bind, bind_some]
    · exact (length_splice (by omega)).trans hok.length_eq
    · intro k hk hk'
      have hall := take_splice_zero (l := b'.bytes) (d := (b.bytes.drop 0).take n) (by omega)
      have hkn : min k n = k := by omega
      rw [hlen, drop_zero] at hall
      show (splice b'.bytes 0 ((b.bytes.drop 0).take n)).take k = _
      rw [drop_zero, ← hkn, ← take_take, hall, take_take]

end WivOS.Utils
