/-
# Byte memory

A memory of bytes, addressed by numbers. `read` gives the bytes of a range, `write` puts bytes
into one; a loop that stores byte after byte computes a `write` (`copy_eq`, `fill_eq`). A number is
stored as its bytes, the lowest first (`toBytes`, `ofBytes`), and read back (`load_store`).
-/
import Mathlib.Algebra.Group.Nat.Defs
import Mathlib.Data.List.Basic

namespace ByteMem

open Function List Option

abbrev Mem := ℕ → BitVec 8

def read (mem : Mem) (a n : ℕ) : List (BitVec 8) := (List.range n).map fun i => mem (a + i)

def write (mem : Mem) (a : ℕ) (bytes : List (BitVec 8)) : Mem :=
  fun x => if a ≤ x then bytes[x - a]?.getD (mem x) else mem x

def copy (mem : Mem) (d s : ℕ) : ℕ → Mem
  | 0 => mem
  | n + 1 => update (copy mem d s n) (d + n) (copy mem d s n (s + n))

def fill (mem : Mem) (d : ℕ) (b : BitVec 8) : ℕ → Mem
  | 0 => mem
  | n + 1 => update (fill mem d b n) (d + n) b

def toBytes : ℕ → ℕ → List (BitVec 8)
  | 0, _ => []
  | k + 1, v => BitVec.ofNat 8 v :: toBytes k (v / 256)

def ofBytes : List (BitVec 8) → ℕ
  | [] => 0
  | b :: bs => b.toNat + 256 * ofBytes bs

def load (mem : Mem) (a k : ℕ) : ℕ := ofBytes (read mem a k)

def store (mem : Mem) (a k v : ℕ) : Mem := write mem a (toBytes k v)

section

variable {mem mem' : Mem} {a d s n k : ℕ} {bytes : List (BitVec 8)}

/-! ### Ranges -/

lemma length_read : (read mem a n).length = n := by rw [read, length_map, length_range]

lemma read_succ : read mem a (n + 1) = read mem a n ++ [mem (a + n)] := by
  rw [read, range_succ, map_append, map_singleton, read]

lemma read_congr (h : ∀ i < n, mem' (a + i) = mem (a + i)) : read mem' a n = read mem a n :=
  map_congr_left fun i hi => h i (mem_range.mp hi)

lemma slice_read {m : ℕ} (h : k + m ≤ n) : ((read mem a n).drop k).take m = read mem (a + k) m := by
  apply ext_getElem
  · rw [length_take, length_drop, length_read, length_read]
    omega
  · intro i h1 h2
    simp only [getElem_take, getElem_drop, read, getElem_map, getElem_range, Nat.add_assoc]

lemma write_outside {x : ℕ} (h : x < a ∨ a + bytes.length ≤ x) : write mem a bytes x = mem x := by
  rw [write]
  by_cases hx : a ≤ x
  · rw [if_pos hx, getElem?_eq_none (by omega), getD_none]
  · rw [if_neg hx]

lemma write_add {i : ℕ} (h : i < bytes.length) : write mem a bytes (a + i) = bytes[i] := by
  rw [write, if_pos (Nat.le_add_right a i), Nat.add_sub_cancel_left, getElem?_eq_getElem h, getD_some]

lemma write_copied {source : Mem} {b i : ℕ} (h : i < n) : write mem a (read source b n) (a + i) = source (b + i) := by
  rw [write_add (by rw [length_read]; exact h)]
  simp only [read, getElem_map, getElem_range]

lemma read_write : read (write mem a bytes) a bytes.length = bytes := by
  refine ext_getElem (by rw [length_read]) fun i hi hi' => ?_
  simp only [read, getElem_map, getElem_range]
  exact write_add hi'

lemma write_concat (b : BitVec 8) : write mem a (bytes ++ [b]) = update (write mem a bytes) (a + bytes.length) b := by
  funext x
  by_cases hx : x = a + bytes.length
  · subst hx
    rw [update_self, write_add (by simp)]
    simp
  · rw [update_of_ne hx, write, write]
    by_cases hax : a ≤ x
    · rw [if_pos hax, if_pos hax]
      rcases Nat.lt_or_ge (x - a) bytes.length with hlt | hge
      · rw [getElem?_append_left hlt]
      · rw [getElem?_eq_none hge, getElem?_eq_none (by simp; omega)]
    · rw [if_neg hax, if_neg hax]

lemma write_nil : write mem a [] = mem := by
  funext x
  exact write_outside (by simp; omega)

lemma copy_eq : ∀ n, d + n ≤ s ∨ s + n ≤ d → copy mem d s n = write mem d (read mem s n)
  | 0, _ => write_nil.symm
  | n + 1, h => by
    have hsource : write mem d (read mem s n) (s + n) = mem (s + n) := write_outside (by rw [length_read]; omega)
    rw [copy, copy_eq n (by omega), hsource, read_succ, write_concat, length_read]

lemma fill_eq (b : BitVec 8) : ∀ n, fill mem d b n = write mem d (List.replicate n b)
  | 0 => write_nil.symm
  | n + 1 => by rw [fill, fill_eq b n, replicate_succ', write_concat, length_replicate]

/-! ### Numbers -/

lemma length_toBytes : ∀ k v : ℕ, (toBytes k v).length = k
  | 0, _ => rfl
  | k + 1, v => by rw [toBytes, length_cons, length_toBytes k]

lemma ofBytes_toBytes : ∀ {k v : ℕ}, v < 256 ^ k → ofBytes (toBytes k v) = v
  | 0, v, h => by
    rw [Nat.pow_zero, Nat.lt_one_iff] at h
    rw [h]
    rfl
  | k + 1, v, h => by
    have hlow : (BitVec.ofNat 8 v).toNat = v % 256 := BitVec.toNat_ofNat ..
    have hhigh : v / 256 < 256 ^ k := Nat.div_lt_of_lt_mul (by rw [Nat.mul_comm, ← Nat.pow_succ]; exact h)
    rw [toBytes, ofBytes, hlow, ofBytes_toBytes hhigh]
    omega

lemma ofBytes_lt : ∀ bs : List (BitVec 8), ofBytes bs < 256 ^ bs.length
  | [] => Nat.one_pos
  | b :: bs => by
    have hb : b.toNat < 256 := b.isLt
    have hbs := ofBytes_lt bs
    rw [ofBytes, length_cons, Nat.pow_succ]
    omega

lemma load_lt : load mem a k < 256 ^ k := by
  have hlt := ofBytes_lt (read mem a k)
  rw [length_read] at hlt
  exact hlt

lemma load_store {v : ℕ} (h : v < 256 ^ k) : load (store mem a k v) a k = v := by
  have hread := @read_write mem a (toBytes k v)
  rw [length_toBytes] at hread
  rw [load, store, hread, ofBytes_toBytes h]

lemma load_congr (h : ∀ i < k, mem' (a + i) = mem (a + i)) : load mem' a k = load mem a k := by
  rw [load, load, read_congr h]

lemma store_outside {x v : ℕ} (h : x < a ∨ a + k ≤ x) : store mem a k v x = mem x :=
  write_outside (by rw [length_toBytes]; exact h)

end
end ByteMem
