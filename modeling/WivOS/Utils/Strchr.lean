/-
# Searching a string

`strchrnul` of `kernel/utils/string.c` on a memory of bytes; a string is given by its characters (`StringAt`). The search
reads eight bytes at a time, and its test misses no zero byte of a word (`not_mem_of_hasZero`).
-/
import Mathlib.Data.List.TakeWhile
import WivOS.Lib.ByteMem

namespace WivOS.Strchr

open List Option ByteMem

abbrev Byte := BitVec 8

def StringAt (mem : Mem) : ℕ → List Byte → Prop
  | a, [] => mem a = 0
  | a, b :: s => mem a = b ∧ b ≠ 0 ∧ StringAt mem (a + 1) s

def scan (mem : Mem) (stop : Byte → Bool) : ℕ → ℕ → Option ℕ
  | 0, _ => none
  | n + 1, s => if stop (mem s) then some s else scan mem stop n (s + 1)

/-! ### Words -/

def ones : BitVec 64 := 0x0101010101010101

def highs : BitVec 64 := ones * 128

def hasZero (x : BitVec 64) : BitVec 64 := (x - ones) &&& ~~~x &&& highs

def wordAt (mem : Mem) (w : ℕ) : BitVec 64 := BitVec.ofNat 64 (load mem w 8)

def wordLoop (mem : Mem) (k : BitVec 64) : ℕ → ℕ → Option ℕ
  | 0, _ => none
  | n + 1, w =>
    if hasZero (wordAt mem w) = 0 ∧ hasZero (wordAt mem w ^^^ k) = 0 then wordLoop mem k n (w + 8) else some w

def strchrnulFrom (mem : Mem) (c : Byte) (n : ℕ) : ℕ → ℕ → Option ℕ
  | 0, _ => none
  | m + 1, s =>
    if s % 8 = 0 then (wordLoop mem (ones * c.setWidth 64) n s).bind (scan mem (fun b => b = 0 ∨ b = c) n)
    else if mem s = 0 ∨ mem s = c then some s
    else strchrnulFrom mem c n m (s + 1)

/-- `strchrnul`, for at most `n` rounds of each loop. -/
def strchrnul (n : ℕ) (mem : Mem) (s : ℕ) (c : Byte) : Option ℕ :=
  if c = 0 then scan mem (· = 0) n s else strchrnulFrom mem c n 8 s

lemma exists_borrowed : ∀ {bytes : List Byte}, 0 ∈ bytes → ∃ i < bytes.length,
    ((256 ^ bytes.length - ofBytes (bytes.map fun _ => 1) + ofBytes bytes) % 256 ^ bytes.length).testBit (8 * i + 7) ∧
      (ofBytes bytes).testBit (8 * i + 7) = false
  | b :: bytes, h => by
    have hlt := ofBytes_lt (bytes.map fun _ => (1 : Byte))
    have hb := b.isLt
    have hlow : ∀ x : ℕ, x.testBit 7 = (x % 2 ^ 8).testBit 7 := fun x => by
      rw [Nat.testBit_mod_two_pow, decide_eq_true (by omega), Bool.true_and]
    have hhigh : ∀ x i : ℕ, x.testBit (8 * (i + 1) + 7) = (x / 2 ^ 8).testBit (8 * i + 7) := fun x i => by
      rw [Nat.testBit_div_two_pow]
      congr 1
    rw [length_map] at hlt
    rw [map_cons, ofBytes, ofBytes, length_cons, pow_succ', show (1 : Byte).toNat = 1 from rfl, Nat.mod_mul]
    by_cases h0 : b.toNat = 0
    · rw [h0]
      refine ⟨0, by omega, ?_, ?_⟩
      · rw [hlow, show ∀ e r, (e % 256 + 256 * r) % 2 ^ 8 = e % 2 ^ 8 by omega, show ∀ M O B, O < M →
          (256 * M - (1 + 256 * O) + (0 + 256 * B)) % 2 ^ 8 = 255 by omega]
        · rfl
        · exact hlt
      · rw [hlow, show ∀ B, (0 + 256 * B) % 2 ^ 8 = 0 by omega]
        rfl
    · obtain ⟨i, hi, hone, hzero⟩ := exists_borrowed (mem_of_ne_of_mem (fun hb : 0 = b => h0 (hb ▸ rfl)) h)
      refine ⟨i + 1, by omega, ?_, ?_⟩
      · rw [hhigh, show ∀ e r, (e % 256 + 256 * r) / 2 ^ 8 = r by omega]
        convert hone using 3
        omega
      · rw [hhigh, show (b.toNat + 256 * ofBytes bytes) / 2 ^ 8 = ofBytes bytes by omega]
        exact hzero

lemma ofBytes_xor (c : Byte) : ∀ bytes : List Byte,
    ofBytes bytes ^^^ ofBytes (bytes.map fun _ => c) = ofBytes (bytes.map (· ^^^ c))
  | [] => by simp [ofBytes]
  | b :: bytes => by
    have hb := b.isLt
    have hc := c.isLt
    have hbc := (b ^^^ c).isLt
    simp only [map_cons, ofBytes]
    rw [← ofBytes_xor c bytes, ← Nat.mod_add_div ((b.toNat + _) ^^^ _) (2 ^ 8), Nat.xor_mod_two_pow,
      Nat.xor_div_two_pow]
    congr 3 <;> omega

lemma not_mem_of_hasZero {bytes : List Byte} (hlen : bytes.length = 8)
    (h : hasZero (BitVec.ofNat 64 (ofBytes bytes)) = 0) : 0 ∉ bytes := by
  intro h0
  obtain ⟨i, hi, hone, hzero⟩ := exists_borrowed h0
  have hhigh : ∀ i < 8, highs.getLsbD (8 * i + 7) = true := by decide
  have hpow : 256 ^ bytes.length = 2 ^ 64 := by rw [hlen]; rfl
  have hlt : ofBytes bytes < 2 ^ 64 := hpow ▸ ofBytes_lt bytes
  rw [map_const', hpow, hlen, show ofBytes (replicate 8 1) = ones.toNat from rfl] at hone
  have hand : (hasZero (BitVec.ofNat 64 (ofBytes bytes))).getLsbD (8 * i + 7) = true := by
    rw [hasZero, BitVec.getLsbD_and, BitVec.getLsbD_and, BitVec.getLsbD_not, hhigh i (by omega),
      decide_eq_true (by omega),
      BitVec.getLsbD, BitVec.getLsbD, BitVec.toNat_sub, BitVec.toNat_ofNat, Nat.mod_eq_of_lt hlt, hone, hzero]
    rfl
  rw [h, BitVec.ofNat_eq_ofNat, BitVec.getLsbD_zero] at hand
  exact Bool.false_ne_true hand

lemma wordAt_xor (mem : Mem) (w : ℕ) (c : Byte) :
    wordAt mem w ^^^ ones * c.setWidth 64 = BitVec.ofNat 64 (ofBytes ((ByteMem.read mem w 8).map (· ^^^ c))) := by
  have hc := c.isLt
  have hk : ones * c.setWidth 64 = BitVec.ofNat 64 (ofBytes ((ByteMem.read mem w 8).map fun _ => c)) := by
    apply BitVec.eq_of_toNat_eq
    rw [map_const', length_read, BitVec.toNat_mul, BitVec.toNat_setWidth, BitVec.toNat_ofNat]
    simp [ofBytes, replicate_succ, show ones.toNat = 0x0101010101010101 from rfl]
    omega
  rw [hk, wordAt, load, ← ofBytes_xor, BitVec.ofNat_xor]

section Search

variable {mem : Mem} {c : Byte} {stop : Byte → Bool}

lemma StringAt.drop : ∀ {s t : List Byte} {a : ℕ}, StringAt mem a (s ++ t) → StringAt mem (a + s.length) t
  | [], _, _, h => h
  | b :: s, t, a, h => by
    rw [length_cons, show a + (s.length + 1) = a + 1 + s.length by omega]
    exact StringAt.drop h.2.2

lemma StringAt.getElem? : ∀ {s : List Byte} {a i : ℕ} {b : Byte}, StringAt mem a s → s[i]? = some b → mem (a + i) = b
  | _ :: _, a, 0, _, h, rfl => h.1
  | _ :: s, a, i + 1, b, h, hb => by
    rw [show a + (i + 1) = a + 1 + i by omega]
    exact h.2.2.getElem? hb

lemma StringAt.not_mem : ∀ {s : List Byte} {a : ℕ}, StringAt mem a s → 0 ∉ s
  | [], _, _ => not_mem_nil
  | _ :: _, _, h => fun h0 => (mem_cons.mp h0).elim (fun hb => h.2.1 hb.symm) h.2.2.not_mem

lemma StringAt.ne_zero {a : ℕ} {s : List Byte} {b : Byte} (h : StringAt mem a s) (hb : b ∈ s) : b ≠ 0#8 := by
  rintro rfl
  exact h.not_mem hb

lemma scan_eq {p : Byte → Bool} (h0 : stop 0) : ∀ {n a : ℕ} {s : List Byte}, StringAt mem a s → s.length < n →
    (∀ b ∈ s, stop b = !p b) → scan mem stop n a = some (a + (s.takeWhile p).length)
  | n + 1, a, [], h, _, _ => by rw [scan, show mem a = 0 from h, if_pos h0]; rfl
  | n + 1, a, b :: s, h, hn, hp => by
    rw [scan, h.1, hp b mem_cons_self, takeWhile_cons]
    cases p b with
    | false => rfl
    | true =>
      rw [Bool.not_true, if_neg Bool.false_ne_true, if_pos rfl, length_cons,
        scan_eq h0 h.2.2 (Nat.lt_of_succ_lt_succ hn) fun b hb => hp b (mem_cons_of_mem _ hb)]
      exact congrArg some (by omega)

lemma length_takeWhile_ne (s : List Byte) : (s.takeWhile (· ≠ c)).length = s.idxOf c := by
  rw [takeWhile_eq_take_findIdx_not, length_take, Nat.min_eq_left findIdx_le_length]
  congr 1
  funext b
  rw [Bool.eq_iff_iff]
  simp

lemma StringAt.word {a : ℕ} {s : List Byte} (h : StringAt mem a s) (h0 : hasZero (wordAt mem a) = 0)
    (hc : hasZero (wordAt mem a ^^^ ones * c.setWidth 64) = 0) : 8 ≤ s.length ∧ c ∉ s.take 8 := by
  have hzero : 0 ∉ ByteMem.read mem a 8 := not_mem_of_hasZero length_read h0
  rw [wordAt_xor] at hc
  have hxor := not_mem_of_hasZero (by rw [length_map, length_read]) hc
  constructor
  · by_contra hlen
    have hend : mem (a + s.length) = 0 := StringAt.drop (t := []) ((append_nil s).symm ▸ h)
    exact hzero (mem_map.mpr ⟨s.length, mem_range.mpr (by omega), hend⟩)
  · intro hmem
    obtain ⟨i, hi⟩ := mem_iff_getElem?.mp hmem
    rw [getElem?_take] at hi
    split_ifs at hi with h8
    exact hxor (mem_map.mpr ⟨c, mem_map.mpr ⟨i, mem_range.mpr h8, h.getElem? hi⟩, BitVec.xor_self⟩)

lemma wordLoop_eq : ∀ {n a : ℕ} {s : List Byte}, StringAt mem a s → s.length < n →
    ∃ t u, wordLoop mem (ones * c.setWidth 64) n a = some (a + t.length) ∧ s = t ++ u ∧ c ∉ t
  | n + 1, a, s, h, hn => by
    rw [wordLoop]
    split_ifs with hword
    · obtain ⟨hlen, hc⟩ := h.word hword.1 hword.2
      have hdrop := StringAt.drop ((take_append_drop 8 s).symm ▸ h)
      rw [length_take, Nat.min_eq_left hlen] at hdrop
      obtain ⟨t, u, hloop, hs, ht⟩ := @wordLoop_eq n _ _ hdrop (by rw [length_drop]; omega)
      refine ⟨s.take 8 ++ t, u, ?_, ?_, ?_⟩
      · rw [hloop, length_append, length_take, Nat.min_eq_left hlen]
        exact congrArg some (by omega)
      · rw [append_assoc, ← hs, take_append_drop]
      · exact fun hmem => (mem_append.mp hmem).elim hc ht
    · exact ⟨[], s, rfl, rfl, not_mem_nil⟩

lemma StringAt.scan {a n : ℕ} {s : List Byte} (h : StringAt mem a s) (hn : s.length < n) :
    scan mem (fun b => b = 0 ∨ b = c) n a = some (a + s.idxOf c) := by
  rw [scan_eq (by simp) h hn fun b hb => ?_, length_takeWhile_ne]
  simp [h.ne_zero hb]

lemma strchrnulFrom_eq {n : ℕ} : ∀ {m a : ℕ} {s : List Byte}, 0 < m → (a % 8 ≠ 0 → 8 < m + a % 8) → StringAt mem a s →
    s.length < n → strchrnulFrom mem c n m a = some (a + s.idxOf c)
  | m + 1, a, s, _, hm, h, hn => by
    rw [strchrnulFrom]
    split_ifs with h8 hstop
    · obtain ⟨t, u, hloop, rfl, ht⟩ := wordLoop_eq (c := c) h hn
      rw [hloop, bind_some, h.drop.scan (by rw [length_append] at hn; omega), idxOf_append_of_notMem ht, Nat.add_assoc]
    · cases s with
      | nil => rfl
      | cons b s => rw [← (hstop.resolve_left (h.1 ▸ h.2.1)), h.1, idxOf_cons_self, Nat.add_zero]
    · obtain ⟨h0, hc⟩ := not_or.mp hstop
      cases s with
      | nil => exact absurd h h0
      | cons b s =>
        rw [strchrnulFrom_eq (by omega) (by omega) h.2.2 (Nat.lt_of_succ_lt hn), idxOf_cons_ne s (h.1 ▸ hc)]
        exact congrArg some (by omega)

lemma strchrnul_eq {n a : ℕ} {s : List Byte} (h : StringAt mem a s) (hn : s.length < n) :
    strchrnul n mem a c = some (a + s.idxOf c) := by
  unfold strchrnul
  split_ifs with h0
  · subst h0
    rw [← h.scan hn]
    simp
  · exact strchrnulFrom_eq (by decide) (by omega) h hn

/-- **The word-wise search is the byte-wise one**, at every address and whatever is behind the string: both return, and
come to the first `c` of the string or to its end. -/
theorem strchrnul_bytewise (mem : Mem) (a : ℕ) (s : List Byte) (c : Byte) (n : ℕ) (h : StringAt mem a s)
    (hn : s.length < n) :
    strchrnul n mem a c = scan mem (fun b => b = 0 ∨ b = c) n a ∧ strchrnul n mem a c = some (a + s.idxOf c) := by
  rw [strchrnul_eq h hn, h.scan hn]
  exact ⟨rfl, rfl⟩

theorem strchrnul_unaligned : StringAt (fun x => if x < 14 then 97 else 0) 3 (replicate 11 97) ∧
    strchrnul 12 (fun x => if x < 14 then 97 else 0) 3 98 = some 14 := by
  have h : StringAt (fun x => if x < 14 then 97 else 0) 3 (replicate 11 97) := by simp [StringAt, replicate_succ]
  exact ⟨h, (strchrnul_bytewise _ 3 _ 98 12 h (by decide)).2⟩

end Search

end WivOS.Strchr
