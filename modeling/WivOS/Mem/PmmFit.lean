/-
# First fit, and the memory of a block

`pmm_alloc_advanced` hands out the first run of free pages at a multiple of the alignment and changes no other bit
(`first_fit`). `pmm_alloc` then clears the block; where no block is free, the pages from page 0 on are cleared
(`cleared_without_block`). `Ram` is physical memory, bit by bit, with the bitmap in it.
-/
import WivOS.Mem.PmmRun

namespace WivOS.Pmm

open Option

/-! ### The run of free pages -/

variable {s : Pmm} {count index : ℕ}

lemma testBit_eq_some {p : ℕ} {b : Bool} : s.testBit p = some b ↔ p < bitLimit ∧ s.bits p = b := by
  unfold testBit
  by_cases hp : p < bitLimit
  · rw [if_pos hp, some.injEq, and_iff_right hp]
  · rw [if_neg hp]
    constructor
    · intro h
      cases h
    · exact fun h => absurd h.1 hp

lemma isBitmapPageFree_of_used (s : Pmm) : ∀ (count index p : ℕ), index ≤ p → p < index + count →
    s.testBit p = some true → (∀ q, index ≤ q → q < p → s.bits q = false) → s.isBitmapPageFree index count = some false
  | 0, _, _, h1, h2, _, _ => by omega
  | count + 1, index, p, h1, h2, hp, hclear => by
    obtain ⟨hlim, hbit⟩ := testBit_eq_some.mp hp
    have hindex : s.testBit index = some (s.bits index) := testBit_eq_some.mpr ⟨by omega, rfl⟩
    rcases Nat.eq_or_lt_of_le h1 with rfl | hlt
    · rw [isBitmapPageFree, hp]
      rfl
    · rw [isBitmapPageFree, hindex, hclear index le_rfl hlt]
      exact isBitmapPageFree_of_used s count (index + 1) p hlt (by omega) hp fun q hq => hclear q (by omega)

lemma isBitmapPageFree_false (h : ∃ p, index ≤ p ∧ p < index + count ∧ s.testBit p = some true) :
    s.isBitmapPageFree index count = some false := by
  classical
  obtain ⟨h1, h2, h3⟩ := Nat.find_spec h
  refine isBitmapPageFree_of_used s count index (Nat.find h) h1 h2 h3 fun q hq hlt => ?_
  have hlim := (testBit_eq_some.mp h3).1
  by_contra hbit
  exact Nat.find_min h hlt ⟨hq, by omega, testBit_eq_some.mpr ⟨by omega, by simpa using hbit⟩⟩

lemma isBitmapPageFree_of_free (hc : 1 ≤ count) (h : ∀ p, index ≤ p → p < index + count → s.testBit p = some false) :
    index + count ≤ bitLimit ∧ s.isBitmapPageFree index count = some true := by
  have hlast := (testBit_eq_some.mp (h (index + count - 1) (by omega) (by omega))).1
  have hle : index + count ≤ bitLimit := by omega
  exact ⟨hle, isBitmapPageFree_of_clear s count index hle fun p h1 h2 => (testBit_eq_some.mp (h p h1 h2)).2⟩

/-- The indices at which a block fits: multiples of the alignment below
`PmmLength`, with `count` free pages from there on. -/
def Fits (s : Pmm) (count alignment : ℕ) : Set ℕ :=
  { i | i < s.length ∧ alignment ∣ i ∧ ∀ p, i ≤ p → p < i + count → s.testBit p = some false }

lemma FirstFit.of_isLeast {alignment : ℕ} (hc : 1 ≤ count) (h : IsLeast (s.Fits count alignment) index) :
    FirstFit s count alignment index := by
  obtain ⟨⟨hlt, hdvd, hfree⟩, hleast⟩ := h
  obtain ⟨hle, htrue⟩ := isBitmapPageFree_of_free hc hfree
  refine ⟨hlt, hdvd, htrue, fun j hj hdj => isBitmapPageFree_false ?_⟩
  -- an earlier index does not fit, and its pages all have a bit
  have hnot : ¬ ∀ p, j ≤ p → p < j + count → s.testBit p = some false :=
    fun hall => absurd (hleast ⟨hj.trans hlt, hdj, hall⟩) (by omega)
  simp only [not_forall] at hnot
  obtain ⟨p, h1, h2, hp⟩ := hnot
  have hlim : p < bitLimit := by omega
  refine ⟨p, h1, h2, testBit_eq_some.mpr ⟨hlim, ?_⟩⟩
  by_contra hbit
  exact hp (testBit_eq_some.mpr ⟨hlim, by simpa using hbit⟩)

/-- **First fit.** The call returns the least multiple of the alignment below
`PmmLength` from which `count` pages are free, and has set their bits and no
other; if there is a page in use behind each multiple, it returns `NULL` and has
changed nothing. -/
theorem first_fit (s : Pmm) (count alignment : ℕ) (hc : 1 ≤ count) (ha : 1 ≤ alignment) (ha' : alignment < 2 ^ 64) :
    (∀ index, IsLeast (s.Fits count alignment) index →
      ∃ s', s.pmmAllocAdvanced count alignment = some (index * pageSize, s') ∧ s'.length = s.length ∧
        ∀ p, s'.bits p = if index ≤ p ∧ p < index + count then true else s.bits p) ∧
    ((∀ i < s.length, alignment ∣ i → ∃ p, i ≤ p ∧ p < i + count ∧ s.testBit p = some true) →
      s.pmmAllocAdvanced count alignment = some (0, s)) := by
  constructor
  · intro index h
    exact ⟨_, pmmAllocAdvanced_found ha' (.of_isLeast hc h), rfl, fun p => rfl⟩
  · intro h
    exact pmmAllocAdvanced_noFit ha ha' fun j hj hdj => isBitmapPageFree_false (h j hj hdj)

theorem first_fit_six : ∃ s', sixPages.pmmAllocAdvanced 2 2 = some (0x2000, s') ∧
    ∀ p, s'.bits p = if 2 ≤ p ∧ p < 4 then true else sixPages.bits p := by
  have hleast : IsLeast (sixPages.Fits 2 2) 2 := by
    refine ⟨⟨by decide, by decide, fun p h1 h2 => ?_⟩, fun i hi => ?_⟩
    · obtain rfl | rfl : p = 2 ∨ p = 3 := by omega
      · rfl
      · rfl
    · obtain ⟨-, hdvd, hfree⟩ := hi
      by_contra hlt
      have h0 : i = 0 := by omega
      subst h0
      cases hfree 0 le_rfl (by decide)
  obtain ⟨s', hcall, -, hbits⟩ := (first_fit sixPages 2 2 (by decide) (by decide) (by decide)).1 2 hleast
  exact ⟨s', hcall, hbits⟩

lemma NoFit.not_available (h : NoFit s count 1) : ¬ ∃ i < s.length, s.isBitmapPageFree i count = some true := by
  rintro ⟨i, hi, hfree⟩
  rw [h i hi (Nat.one_dvd i)] at hfree
  cases hfree

/-! ### Clearing the block -/

/-- Physical memory and the allocator's variables: the address of the bitmap,
`PmmLength` and `PmmFreePages`. -/
structure Ram where
  mem : ℕ → Bool
  bitmap : ℕ
  length : ℕ
  freePages : ℕ
  length_lt : length < 2 ^ 52

namespace Ram

def pmm (r : Ram) : Pmm := ⟨fun p => r.mem (8 * r.bitmap + p), r.length, r.freePages, r.length_lt⟩

def store (r : Ram) (s : Pmm) : Ram :=
  { r with
    mem := fun b => if 8 * r.bitmap ≤ b then s.bits (b - 8 * r.bitmap) else r.mem b
    freePages := s.freePages }

def clear (r : Ram) (addr n : ℕ) : Ram :=
  { r with mem := fun b => if 8 * addr ≤ b ∧ b < 8 * (addr + n) then false else r.mem b }

def pmmAlloc (r : Ram) (count : ℕ) : Option (ℕ × Ram) :=
  (r.pmm.pmmAllocAdvanced count 1).map fun a => (a.1, (r.store a.2).clear a.1 (pageSize * count % 2 ^ 64))

def InBlock (addr count b : ℕ) : Prop := 8 * addr ≤ b ∧ b < 8 * (addr + pageSize * count)

def InBitmap (r : Ram) (b : ℕ) : Prop := 8 * r.bitmap ≤ b ∧ b < 8 * (r.bitmap + (r.length + 7) / 8)

def ClearsOnlyBlock (r : Ram) (count : ℕ) : Prop :=
  ∃ addr r', r.pmmAlloc count = some (addr, r') ∧ ((∃ i < r.length, r.pmm.isBitmapPageFree i count = some true) →
      (∀ b, InBlock addr count b → r'.mem b = false) ∧
      ∀ b, ¬ InBlock addr count b → ¬ r.InBitmap b → r'.mem b = r.mem b) ∧
    ((¬ ∃ i < r.length, r.pmm.isBitmapPageFree i count = some true) → addr = 0 ∧ r'.mem = r.mem)

/-- A block is found, and the bits set for it are bits of the bitmap (or of the
block itself); or none is, and the memory from address 0 on that is cleared
instead holds zeros already. -/
def Clean (r : Ram) (count : ℕ) : Prop :=
  (∃ i, FirstFit r.pmm count 1 i ∧ ∀ p, i ≤ p → p < i + count →
    r.InBitmap (8 * r.bitmap + p) ∨ InBlock (i * pageSize) count (8 * r.bitmap + p)) ∨
  (NoFit r.pmm count 1 ∧ ∀ b < 8 * (pageSize * count % 2 ^ 64), r.mem b = false)

lemma store_pmm (r : Ram) : (r.store r.pmm).mem = r.mem := by
  funext b
  show (if 8 * r.bitmap ≤ b then r.mem (8 * r.bitmap + (b - 8 * r.bitmap)) else r.mem b) = r.mem b
  split
  · rw [Nat.add_sub_cancel' (by assumption)]
  · rfl

lemma store_taken (r : Ram) (i count b : ℕ) : (r.store (r.pmm.taken i count)).mem b =
    if 8 * r.bitmap + i ≤ b ∧ b < 8 * r.bitmap + (i + count) then true else r.mem b := by
  show (if 8 * r.bitmap ≤ b then fill (fun p => r.mem (8 * r.bitmap + p)) i count true (b - 8 * r.bitmap)
    else r.mem b) = _
  by_cases hb : 8 * r.bitmap ≤ b
  · rw [if_pos hb, fill, Nat.add_sub_cancel' hb]
    refine if_congr ?_ rfl rfl
    omega
  · rw [if_neg hb, if_neg (by omega)]

lemma pmmAlloc_found {r : Ram} {i : ℕ} (h : FirstFit r.pmm count 1 i) :
    ∃ r', r.pmmAlloc count = some (i * pageSize, r') ∧ (∀ b, InBlock (i * pageSize) count b → r'.mem b = false) ∧
      ∀ b, ¬ InBlock (i * pageSize) count b → r'.mem b =
        if 8 * r.bitmap + i ≤ b ∧ b < 8 * r.bitmap + (i + count) then true else r.mem b := by
  have hle := h.le_bitLimit
  have hsize : pageSize * count % 2 ^ 64 = pageSize * count := by
    unfold bitLimit at hle; unfold pageSize; omega
  refine ⟨(r.store (r.pmm.taken i count)).clear (i * pageSize) (pageSize * count), ?_, fun b hb => if_pos hb,
    fun b hb => ?_⟩
  · rw [pmmAlloc, pmmAllocAdvanced_found (by decide) h, map_some, hsize]
  · rw [← store_taken]
    exact if_neg hb

lemma pmmAlloc_noFit {r : Ram} (h : NoFit r.pmm count 1) : ∃ r', r.pmmAlloc count = some (0, r') ∧ ∀ b, r'.mem b =
      if b < 8 * (pageSize * count % 2 ^ 64) then false else r.mem b := by
  refine ⟨(r.store r.pmm).clear 0 (pageSize * count % 2 ^ 64), ?_, fun b => ?_⟩
  · rw [pmmAlloc, pmmAllocAdvanced_noFit (by decide) (by decide) h, map_some]
  · show (if 8 * 0 ≤ b ∧ b < 8 * (0 + pageSize * count % 2 ^ 64) then false else (r.store r.pmm).mem b) = _
    rw [store_pmm, Nat.zero_add]
    exact if_congr (by omega) rfl rfl

/-- **`pmm_alloc` clears only its block** exactly if it finds one whose bits are in
the bitmap, or what it clears otherwise holds zeros already. -/
theorem clears_only_block (r : Ram) (count : ℕ) : r.ClearsOnlyBlock count ↔ r.Clean count := by
  constructor
  · rintro ⟨addr, r', hcall, hfound, hnull⟩
    obtain ⟨a, ha, -⟩ := map_eq_some_iff.mp hcall
    rcases pmmAllocAdvanced_cases (by decide) ha with ⟨i, hfit, -⟩ | ⟨hno, -⟩
    · obtain ⟨r1, hcall1, -, hmem⟩ := pmmAlloc_found hfit
      rw [hcall, some.injEq, Prod.mk.injEq] at hcall1
      obtain ⟨rfl, rfl⟩ := hcall1
      refine Or.inl ⟨i, hfit, fun p h1 h2 => ?_⟩
      -- a bit that is set outside both was clear before
      by_contra hout
      simp only [not_or] at hout
      have hset : r'.mem (8 * r.bitmap + p) = true := by
        rw [hmem _ hout.2]
        exact if_pos ⟨by omega, by omega⟩
      have hclear : r.mem (8 * r.bitmap + p) = false := (isBitmapPageFree_true r.pmm count i hfit.free).1 p h1 h2
      have hframe := (hfound ⟨i, hfit.lt, hfit.free⟩).2 _ hout.2 hout.1
      rw [hset, hclear] at hframe
      cases hframe
    · obtain ⟨r1, hcall1, hmem⟩ := pmmAlloc_noFit hno
      rw [hcall, some.injEq, Prod.mk.injEq] at hcall1
      obtain ⟨rfl, rfl⟩ := hcall1
      refine Or.inr ⟨hno, fun b hb => ?_⟩
      have hsame := congrFun (hnull (NoFit.not_available hno)).2 b
      rw [← hsame, hmem, if_pos hb]
  · rintro (⟨i, hfit, hbits⟩ | ⟨hno, hzero⟩)
    · obtain ⟨r', hcall, hblock, hmem⟩ := pmmAlloc_found hfit
      refine ⟨_, r', hcall, fun _ => ⟨hblock, fun b hb hb' => ?_⟩, fun h => absurd ⟨i, hfit.lt, hfit.free⟩ h⟩
      rw [hmem b hb, if_neg]
      rintro ⟨h1, h2⟩
      have hp := hbits (b - 8 * r.bitmap) (by omega) (by omega)
      rw [Nat.add_sub_cancel' (by omega)] at hp
      exact hp.elim hb' hb
    · obtain ⟨r', hcall, hmem⟩ := pmmAlloc_noFit hno
      refine ⟨_, r', hcall, fun h => absurd h (NoFit.not_available hno), fun _ => ⟨rfl, funext fun b => ?_⟩⟩
      rw [hmem b]
      split
      · exact (hzero b (by assumption)).symm
      · rfl

def full : Ram := ⟨fun _ => true, 0x3000, 6, 0, sixPages.length_lt⟩

/-- No page is free, and the bytes from address 0 on are cleared. -/
theorem cleared_without_block : ∃ r', full.pmmAlloc 1 = some (0, r') ∧
    (¬ ∃ i < full.length, full.pmm.isBitmapPageFree i 1 = some true) ∧ full.mem 0 = true ∧ r'.mem 0 = false :=
  ⟨_, rfl, by decide, rfl, rfl⟩

end Ram
end WivOS.Pmm
