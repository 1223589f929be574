/-
# The physical page allocator

`kernel/mem/pmm.c`: one bit per physical page, set while the page is in use. `pmm_alloc_advanced` scans for the first
run of clear bits at a multiple of the alignment, `pmm_free` clears them. The bitmap is read through a pointer, so an
index runs past `PmmLength` into what lies behind it; from `2 ^ 51` on the address is not canonical and the access
faults. A fault or an endless loop is `none`.
-/
import Mathlib.Order.Interval.Finset.Nat

namespace WivOS

open Function Option

def pageSize : ℕ := 0x1000

/-- `MEM_PHYS_OFFSET`: where the direct map of physical memory starts. -/
def memPhysOffset : ℕ := 0xFFFF800000000000

/-- The first bit index whose byte has a non-canonical address. -/
def bitLimit : ℕ := 2 ^ 51

/-- The allocator's variables: the memory `PmmBitmap` points to, bit by bit,
`PmmLength` (a number of pages of 64-bit addresses) and `PmmFreePages`. -/
structure Pmm where
  bits : ℕ → Bool
  length : ℕ
  freePages : ℕ
  length_lt : length < 2 ^ 52

variable {i alignment count index addr : ℕ} {s s' : Pmm}

namespace Pmm

def testBit (s : Pmm) (i : ℕ) : Option Bool := if i < bitLimit then some (s.bits i) else none

def setBit (s : Pmm) (i : ℕ) : Option Pmm :=
  if i < bitLimit then some { s with bits := update s.bits i true } else none

def resetBit (s : Pmm) (i : ℕ) : Option Pmm :=
  if i < bitLimit then some { s with bits := update s.bits i false } else none

/-- `is_bitmap_page_free`: the bits `index`, `index + 1`, … up to `count` of
them are clear. -/
def isBitmapPageFree (s : Pmm) : ℕ → ℕ → Option Bool
  | _, 0 => some true
  | index, count + 1 => (s.testBit index).bind fun b =>
    if b then some false else isBitmapPageFree s (index + 1) count

def setBits : ℕ → ℕ → Pmm → Option Pmm
  | _, 0, s => some s
  | i, n + 1, s => (s.setBit i).bind (setBits (i + 1) n)

def resetBits : ℕ → ℕ → Pmm → Option Pmm
  | _, 0, s => some s
  | i, n + 1, s => (s.resetBit i).bind (resetBits (i + 1) n)

/-- The loop of `pmm_alloc_advanced` from `index` on. The bits set are those
from `index` to `count + index`, a 64-bit sum; address 0 is `NULL`. -/
def scan (count alignment : ℕ) : ℕ → Pmm → ℕ → Option (ℕ × Pmm)
  | 0, _, _ => none
  | fuel + 1, s, index =>
    if index < s.length then
      (s.isBitmapPageFree index count).bind fun free =>
        if free then
          let left := if s.freePages = 0 then 0 else (s.freePages + (2 ^ 64 - count % 2 ^ 64)) % 2 ^ 64
          (setBits index ((count + index) % 2 ^ 64 - index) { s with freePages := left }).map
            fun s' => (index * pageSize % 2 ^ 64, s')
        else scan count alignment fuel s ((index + alignment) % 2 ^ 64)
    else some (0, s)

/-- `pmm_alloc_advanced`: the address of the block found, or 0. An alignment of
at least 1 leaves the scan after at most `PmmLength` rounds. -/
def pmmAllocAdvanced (s : Pmm) (count alignment : ℕ) : Option (ℕ × Pmm) :=
  scan count alignment (s.length + 1) s 0

/-- `pmm_free`; an address of the direct map never returns. -/
def pmmFree (s : Pmm) (addr count : ℕ) : Option Pmm :=
  if memPhysOffset ≤ addr then none
  else resetBits (addr / pageSize) count { s with freePages := (s.freePages + count) % 2 ^ 64 }

/-! ### What the loops over bits do -/

lemma isBitmapPageFree_true (s : Pmm) : ∀ (count index : ℕ), s.isBitmapPageFree index count = some true →
      (∀ p, index ≤ p → p < index + count → s.bits p = false) ∧ (0 < count → index + count ≤ bitLimit)
  | 0, index, _ => ⟨fun p h1 h2 => by omega, fun h => absurd h (lt_irrefl 0)⟩
  | count + 1, index, h => by
    simp only [isBitmapPageFree, testBit] at h
    by_cases hi : index < bitLimit
    · rw [if_pos hi, bind_some] at h
      cases hb : s.bits index with
      | true => simp [hb] at h
      | false =>
        simp only [hb, Bool.false_eq_true, ↓reduceIte] at h
        obtain ⟨h1, h2⟩ := isBitmapPageFree_true s count (index + 1) h
        refine ⟨fun p hp hp' => ?_, fun _ => ?_⟩
        · rcases Nat.eq_or_lt_of_le hp with rfl | hlt
          · exact hb
          · exact h1 p hlt (by omega)
        · rcases Nat.eq_zero_or_pos count with rfl | hc
          · omega
          · have := h2 hc; omega
    · rw [if_neg hi] at h
      simp at h

lemma isBitmapPageFree_of_clear (s : Pmm) : ∀ (count index : ℕ), index + count ≤ bitLimit →
    (∀ p, index ≤ p → p < index + count → s.bits p = false) → s.isBitmapPageFree index count = some true
  | 0, _, _, _ => rfl
  | count + 1, index, hl, h => by
    have hb : s.bits index = false := h index le_rfl (by omega)
    simp only [isBitmapPageFree, testBit, if_pos (show index < bitLimit by omega), bind_some, hb,
      Bool.false_eq_true, ↓reduceIte]
    exact isBitmapPageFree_of_clear s count (index + 1) (by omega) fun p h1 h2 => h p (by omega) (by omega)

def fill (bits : ℕ → Bool) (i n : ℕ) (b : Bool) : ℕ → Bool :=
  fun p => if i ≤ p ∧ p < i + n then b else bits p

lemma fill_zero (bits : ℕ → Bool) (i : ℕ) (b : Bool) : fill bits i 0 b = bits := by
  funext p
  simp only [fill, Nat.add_zero]
  rw [if_neg (by omega)]

lemma fill_succ (bits : ℕ → Bool) (i n : ℕ) (b : Bool) :
    fill (update bits i b) (i + 1) n b = fill bits i (n + 1) b := by
  funext p
  simp only [fill, update_apply]
  by_cases hp : p = i
  · subst hp
    rw [if_neg (by omega), if_pos rfl, if_pos (by omega)]
  · rw [if_neg hp]
    by_cases h : i + 1 ≤ p ∧ p < i + 1 + n
    · rw [if_pos h, if_pos (by omega)]
    · rw [if_neg h, if_neg (by omega)]

variable {bits : ℕ → Bool} {n p : ℕ} {b : Bool}

lemma fill_in (h1 : i ≤ p) (h2 : p < i + n) : fill bits i n b p = b := by
  rw [fill, if_pos ⟨h1, h2⟩]

lemma fill_out (h : ¬ (i ≤ p ∧ p < i + n)) : fill bits i n b p = bits p := by
  rw [fill, if_neg h]

lemma setBits_eq : ∀ (n i : ℕ) (s : Pmm), i + n ≤ bitLimit →
    setBits i n s = some { s with bits := fill s.bits i n true }
  | 0, i, s, _ => by rw [fill_zero]; rfl
  | n + 1, i, s, h => by
    simp only [setBits, setBit, if_pos (show i < bitLimit by omega), bind_some]
    rw [setBits_eq n (i + 1) _ (by omega)]
    simp only [fill_succ]

lemma resetBits_eq : ∀ (n i : ℕ) (s : Pmm), i + n ≤ bitLimit →
    resetBits i n s = some { s with bits := fill s.bits i n false }
  | 0, i, s, _ => by rw [fill_zero]; rfl
  | n + 1, i, s, h => by
    simp only [resetBits, resetBit, if_pos (show i < bitLimit by omega), bind_some]
    rw [resetBits_eq n (i + 1) _ (by omega)]
    simp only [fill_succ]

lemma resetBits_some : ∀ (n i : ℕ) (s s' : Pmm), resetBits i n s = some s' → 0 < n → i + n ≤ bitLimit
  | 0, _, _, _, _, h => absurd h (lt_irrefl 0)
  | n + 1, i, s, s', h, _ => by
    simp only [resetBits, resetBit] at h
    by_cases hi : i < bitLimit
    · rw [if_pos hi, bind_some] at h
      rcases Nat.eq_zero_or_pos n with rfl | hn
      · omega
      · have := resetBits_some n (i + 1) _ s' h hn; omega
    · rw [if_neg hi] at h
      simp at h

/-! ### What the allocator's calls do -/

/-- The next index is the next multiple of the alignment: an index above 0 is at
least the alignment, so the 64-bit sum does not wrap. -/
lemma next_index (hi : i < 2 ^ 52) (ha : alignment < 2 ^ 64) (h : i = 0 ∨ alignment ≤ i) :
    (i + alignment) % 2 ^ 64 = i + alignment := by
  omega

lemma lt_of_dvd_lt_add {j : ℕ} (hi : alignment ∣ i) (hj : alignment ∣ j) (h : j < i + alignment) : j ≤ i := by
  obtain ⟨a, rfl⟩ := hi
  obtain ⟨b, rfl⟩ := hj
  rw [← Nat.mul_succ] at h
  exact Nat.mul_le_mul_left _ (Nat.le_of_lt_succ (Nat.lt_of_mul_lt_mul_left h))

/-- `index` is the first multiple of the alignment at which the scan finds
`count` clear bits. -/
structure FirstFit (s : Pmm) (count alignment index : ℕ) : Prop where
  lt : index < s.length
  dvd : alignment ∣ index
  free : s.isBitmapPageFree index count = some true
  first : ∀ j < index, alignment ∣ j → s.isBitmapPageFree j count = some false

/-- Every multiple of the alignment below `PmmLength` is looked at in vain. -/
def NoFit (s : Pmm) (count alignment : ℕ) : Prop :=
  ∀ j < s.length, alignment ∣ j → s.isBitmapPageFree j count = some false

def taken (s : Pmm) (index count : ℕ) : Pmm :=
  { s with
    bits := fill s.bits index count true
    freePages := if s.freePages = 0 then 0 else (s.freePages + (2 ^ 64 - count % 2 ^ 64)) % 2 ^ 64 }

lemma FirstFit.le_bitLimit (h : FirstFit s count alignment index) : index + count ≤ bitLimit := by
  rcases Nat.eq_zero_or_pos count with rfl | hc
  · -- no page is asked for: the scan stops at once
    rcases Nat.eq_zero_or_pos index with rfl | hi
    · exact Nat.zero_le _
    · cases h.first 0 hi (Nat.dvd_zero _)
  · exact (isBitmapPageFree_true s count index h.free).2 hc

lemma FirstFit.clear (h : FirstFit s count alignment index) : ∀ p, index ≤ p → p < index + count → s.bits p = false :=
  (isBitmapPageFree_true s count index h.free).1

lemma scan_fit (h : FirstFit s count alignment index) (fuel : ℕ) :
    scan count alignment (fuel + 1) s index = some (index * pageSize, s.taken index count) := by
  have hl := h.le_bitLimit
  have hsum : (count + index) % 2 ^ 64 - index = count := by
    unfold bitLimit at hl; omega
  have haddr : index * pageSize % 2 ^ 64 = index * pageSize := by
    unfold bitLimit at hl; unfold pageSize; omega
  simp only [scan, if_pos h.lt, h.free, bind_some, ↓reduceIte, hsum, haddr, setBits_eq count index _ hl,
    map_some, taken]

lemma scan_cases (ha : alignment < 2 ^ 64) :
    ∀ (fuel : ℕ) (s : Pmm) (i : ℕ) (r : ℕ × Pmm), alignment ∣ i → (i = 0 ∨ alignment ≤ i) →
      (∀ j < i, alignment ∣ j → s.isBitmapPageFree j count = some false) → scan count alignment fuel s i = some r →
      (∃ index, FirstFit s count alignment index ∧ r = (index * pageSize, s.taken index count)) ∨
        (NoFit s count alignment ∧ r = (0, s))
  | 0, _, _, _, _, _, _, h => by simp [scan] at h
  | fuel + 1, s, i, r, hd, hge, hbefore, h => by
    by_cases hi : i < s.length
    · cases hfree : s.isBitmapPageFree i count with
      | none => simp [scan, hi, hfree] at h
      | some free =>
        cases free with
        | true =>
          have hfit : FirstFit s count alignment i := ⟨hi, hd, hfree, hbefore⟩
          rw [scan_fit hfit, some.injEq] at h
          exact Or.inl ⟨i, hfit, h.symm⟩
        | false =>
          simp only [scan, if_pos hi, hfree, bind_some, Bool.false_eq_true, ↓reduceIte] at h
          rw [next_index (lt_trans hi s.length_lt) ha hge] at h
          refine scan_cases ha fuel s _ r (Nat.dvd_add hd (dvd_refl _)) (by omega) ?_ h
          intro j hj hdj
          rcases Nat.lt_or_eq_of_le (lt_of_dvd_lt_add hd hdj hj) with hlt | rfl
          · exact hbefore j hlt hdj
          · exact hfree
    · rw [scan, if_neg hi, some.injEq] at h
      exact Or.inr ⟨fun j hj hdj => hbefore j (by omega) hdj, h.symm⟩

lemma pmmAllocAdvanced_cases {r : ℕ × Pmm} (ha : alignment < 2 ^ 64)
    (h : s.pmmAllocAdvanced count alignment = some r) :
    (∃ index, FirstFit s count alignment index ∧ r = (index * pageSize, s.taken index count)) ∨
      (NoFit s count alignment ∧ r = (0, s)) :=
  scan_cases ha _ s 0 r (Nat.dvd_zero _) (Or.inl rfl) (fun j hj => by omega) h

lemma scan_found (ha : alignment < 2 ^ 64) (h : FirstFit s count alignment index) :
    ∀ (fuel i : ℕ), alignment ∣ i → (i = 0 ∨ alignment ≤ i) → i ≤ index →
      index - i < fuel → scan count alignment fuel s i = some (index * pageSize, s.taken index count)
  | 0, _, _, _, _, hf => by omega
  | fuel + 1, i, hd, hge, hle, hf => by
    rcases Nat.eq_or_lt_of_le hle with rfl | hlt
    · exact scan_fit h fuel
    · have hnext : i + alignment ≤ index := by
        by_contra hgt
        exact absurd (lt_of_dvd_lt_add hd h.dvd (by omega)) (by omega)
      have hpos : 0 < alignment := Nat.pos_of_dvd_of_pos h.dvd (by omega)
      have hi := lt_trans hlt h.lt
      simp only [scan, if_pos hi, h.first i hlt hd, bind_some, Bool.false_eq_true, ↓reduceIte]
      rw [next_index (lt_trans hi s.length_lt) ha hge]
      exact scan_found ha h fuel _ (Nat.dvd_add hd (dvd_refl _)) (by omega) hnext (by omega)

lemma scan_noFit (hpos : 0 < alignment) (ha : alignment < 2 ^ 64) (h : NoFit s count alignment) :
    ∀ (fuel i : ℕ), alignment ∣ i → (i = 0 ∨ alignment ≤ i) →
      s.length - i < fuel → scan count alignment fuel s i = some (0, s)
  | 0, _, _, _, hf => by omega
  | fuel + 1, i, hd, hge, hf => by
    by_cases hi : i < s.length
    · simp only [scan, if_pos hi, h i hi hd, bind_some, Bool.false_eq_true, ↓reduceIte]
      rw [next_index (lt_trans hi s.length_lt) ha hge]
      exact scan_noFit hpos ha h fuel _ (Nat.dvd_add hd (dvd_refl _)) (by omega) (by omega)
    · rw [scan, if_neg hi]

lemma pmmAllocAdvanced_found (ha : alignment < 2 ^ 64) (h : FirstFit s count alignment index) :
    s.pmmAllocAdvanced count alignment = some (index * pageSize, s.taken index count) :=
  scan_found ha h _ 0 (Nat.dvd_zero _) (Or.inl rfl) (Nat.zero_le _) (by have := h.lt; omega)

lemma pmmAllocAdvanced_noFit (hpos : 0 < alignment) (ha : alignment < 2 ^ 64) (h : NoFit s count alignment) :
    s.pmmAllocAdvanced count alignment = some (0, s) :=
  scan_noFit hpos ha h _ 0 (Nat.dvd_zero _) (Or.inl rfl) (by omega)

lemma pmmFree_page (h : index + count ≤ bitLimit) :
    s.pmmFree (index * pageSize) count = some { s with
        bits := fill s.bits index count false
        freePages := (s.freePages + count) % 2 ^ 64 } := by
  have h1 : ¬ memPhysOffset ≤ index * pageSize := by
    unfold memPhysOffset pageSize; unfold bitLimit at h; omega
  have h2 : index * pageSize / pageSize = index := Nat.mul_div_cancel _ (by decide)
  rw [pmmFree, if_neg h1, h2, resetBits_eq count index _ h]

lemma pmmFree_eq (h : s.pmmFree addr count = some s') :
    s' = { s with
      bits := fill s.bits (addr / pageSize) count false
      freePages := (s.freePages + count) % 2 ^ 64 } := by
  unfold pmmFree at h
  by_cases ha : memPhysOffset ≤ addr
  · rw [if_pos ha] at h
    simp at h
  · rw [if_neg ha] at h
    rcases Nat.eq_zero_or_pos count with rfl | hc
    · simp only [resetBits, some.injEq] at h
      rw [← h, fill_zero]
    · have hl := resetBits_some count _ _ s' h hc
      rw [resetBits_eq count _ _ hl, some.injEq] at h
      exact h.symm

lemma pmmFree_bits (h : s.pmmFree addr count = some s') :
    s'.bits = fill s.bits (addr / pageSize) count false ∧ s'.length = s.length := by
  rw [pmmFree_eq h]
  exact ⟨rfl, rfl⟩

end Pmm
end WivOS
