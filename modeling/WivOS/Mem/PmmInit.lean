/-
# Setting up the page allocator

`pmm_init` puts the bitmap at the start of the highest USABLE entry that is large enough (`findBitmap`), sets its whole
bytes, frees the USABLE entries up to that one and reserves pages 1 and 2. The entry with the bitmap is freed from
`⌈PmmLength / 8 / 4096⌉` pages on, for `⌊PmmLength / 8 / 4096⌋` pages less than its length, so the bit of page
`PmmLength` may be cleared too (`handed_out_past_entry`); the last `PmmLength % 8` bits keep what memory held; and the
page with the last byte of the bitmap may be freed. Where none of this happens, what is handed out is usable
(`handed_out_usable`).
-/
import WivOS.Mem.PmmRun

namespace WivOS.Pmm

open Function Machine
open List Option

inductive MemmapType where
  | usable | reserved | acpiReclaimable | acpiNvs | badMemory | bootloaderReclaimable
  | kernelAndModules | framebuffer | unknown
deriving DecidableEq

/-- An entry of the Limine memory map: a range of the 52-bit physical address
space. -/
structure MemmapEntry where
  base : ℕ
  length : ℕ
  type : MemmapType
  fits : base + length ≤ 2 ^ 52
deriving DecidableEq

def MemmapEntry.newLength (e : MemmapEntry) : ℕ := (e.base + e.length + pageSize - 1) / pageSize

/-- One round of the first loop of `pmm_init`, on `PmmBitmap` (a physical
address here, 0 for `NULL`; `maxBase` has the same value) and `PmmLength`. -/
def pickEntry (b : ℕ × ℕ) (e : MemmapEntry) : ℕ × ℕ :=
  if e.type = .usable ∧ b.1 < e.base then
    if e.newLength < e.length then (e.base, e.newLength) else b
  else b

def findBitmap (entries : List MemmapEntry) : ℕ × ℕ := entries.foldl pickEntry (0, 0)

/-- What `findBitmap` finds: nothing, or an entry that is large enough. -/
def Picked (entries : List MemmapEntry) (b : ℕ × ℕ) : Prop :=
  b = (0, 0) ∨ ∃ e ∈ entries, e.type = .usable ∧ 0 < e.base ∧ b = (e.base, e.newLength) ∧ e.newLength < e.length

lemma picked_foldl (all : List MemmapEntry) : ∀ (entries : List MemmapEntry) (b : ℕ × ℕ),
    (∀ e ∈ entries, e ∈ all) → Picked all b → Picked all (entries.foldl pickEntry b)
  | [], _, _, h => h
  | e :: es, b, hall, h => by
    rw [foldl_cons]
    refine picked_foldl all es _ (fun x hx => hall x (mem_cons_of_mem _ hx)) ?_
    unfold pickEntry
    split
    · rename_i hu
      split
      · rename_i hlt
        exact Or.inr ⟨e, hall e mem_cons_self, hu.1, by omega, rfl, hlt⟩
      · exact h
    · exact h

lemma findBitmap_picked (entries : List MemmapEntry) : Picked entries (findBitmap entries) :=
  picked_foldl entries entries _ (fun _ h => h) (Or.inl rfl)

lemma findBitmap_lt (entries : List MemmapEntry) : (findBitmap entries).2 < 2 ^ 52 := by
  rcases findBitmap_picked entries with h | ⟨e, -, -, -, h, -⟩
  · rw [h]; decide
  · have := e.fits
    rw [h]
    simp only [MemmapEntry.newLength, pageSize]
    omega

def keptPages (length : ℕ) : ℕ := (length / 8 + pageSize - 1) / pageSize

def freedBlock (maxBase length : ℕ) (e : MemmapEntry) : Block :=
  if e.base = maxBase then
    ⟨e.base + keptPages length * pageSize, (e.length / pageSize + (2 ^ 64 - length / 8 / pageSize)) % 2 ^ 64⟩
  else ⟨e.base, e.length / pageSize⟩

def freeEntry (maxBase : ℕ) (s : Pmm) (e : MemmapEntry) : Option Pmm :=
  if e.type = .usable ∧ e.base ≤ maxBase then
    s.pmmFree (freedBlock maxBase s.length e).addr (freedBlock maxBase s.length e).count
  else some s

def pmmInit (entries : List MemmapEntry) (phys : ℕ → Bool) : Option Pmm :=
  let b := findBitmap entries
  if b.1 = 0 then none
  else
    -- `memset(PmmBitmap, 0xFF, PmmLength / 8)`
    let s : Pmm := ⟨fun i => if i < 8 * (b.2 / 8) then true else phys (8 * b.1 + i), b.2, 0, findBitmap_lt entries⟩
    (entries.foldlM (freeEntry b.1) s).bind fun s =>
      (s.setBit (0x1000 / pageSize)).bind fun s => s.setBit (0x2000 / pageSize)

def bitmapPages (length : ℕ) : ℕ := (length + 8 * pageSize - 1) / (8 * pageSize)

def MemmapEntry.Apart (a b : MemmapEntry) : Prop :=
  a.type = .usable → b.type = .usable → a.base + a.length ≤ b.base ∨ b.base + b.length ≤ a.base

instance : Std.Symm MemmapEntry.Apart := ⟨fun _ _ h hx hy => (h hy hx).symm⟩

/-- The USABLE entries are page-aligned, not empty, do not contain page 0 and do
not overlap. -/
structure WellFormed (entries : List MemmapEntry) : Prop where
  aligned : ∀ e ∈ entries, e.type = .usable → pageSize ∣ e.base ∧ pageSize ∣ e.length
  nonempty : ∀ e ∈ entries, e.type = .usable → 0 < e.length
  page0 : ∀ e ∈ entries, e.type = .usable → 0 < e.base
  apart : entries.Pairwise MemmapEntry.Apart

def InUsable (entries : List MemmapEntry) (p : ℕ) : Prop :=
  ∃ e ∈ entries, e.type = .usable ∧ e.base ≤ p * pageSize ∧ (p + 1) * pageSize ≤ e.base + e.length

/-- The page may be handed out: it lies inside a USABLE entry and is neither a
page that stores the bitmap nor one of the trampoline's. -/
def Usable (entries : List MemmapEntry) (p : ℕ) : Prop :=
  InUsable entries p ∧
  ¬ ((findBitmap entries).1 / pageSize ≤ p ∧
      p < (findBitmap entries).1 / pageSize + bitmapPages (findBitmap entries).2) ∧
  p ≠ 1 ∧ p ≠ 2

/-! ### The bits after `pmm_init` -/

variable {s : Pmm} {entries : List MemmapEntry} {phys : ℕ → Bool} {e : MemmapEntry} {maxBase : ℕ} {s' : Pmm}

lemma freeEntry_bits (h : freeEntry maxBase s e = some s') :
    s'.length = s.length ∧ ∀ p, s'.bits p = false → s.bits p = false ∨
      (e.type = .usable ∧ e.base ≤ maxBase ∧ p ∈ (freedBlock maxBase s.length e).pages) := by
  unfold freeEntry at h
  split at h
  · rename_i he
    obtain ⟨hbits, hlen⟩ := pmmFree_bits h
    refine ⟨hlen, fun p hp => ?_⟩
    by_cases hin : p ∈ (freedBlock maxBase s.length e).pages
    · exact Or.inr ⟨he.1, he.2, hin⟩
    · left
      rw [hbits, fill_out (by rwa [Block.mem_pages] at hin)] at hp
      exact hp
  · simp only [some.injEq] at h
    subst h
    exact ⟨rfl, fun p hp => Or.inl hp⟩

lemma freeEntries_bits : ∀ (entries : List MemmapEntry) (s s' : Pmm),
    entries.foldlM (freeEntry maxBase) s = some s' → s'.length = s.length ∧ ∀ p, s'.bits p = false → s.bits p = false ∨
        ∃ e ∈ entries, e.type = .usable ∧ e.base ≤ maxBase ∧ p ∈ (freedBlock maxBase s.length e).pages
  | [], s, s', h => by
    simp only [foldlM_nil, Option.pure_def, some.injEq] at h
    subst h
    exact ⟨rfl, fun p hp => Or.inl hp⟩
  | e :: es, s, s', h => by
    simp only [foldlM_cons, bind_eq_bind, bind_eq_some_iff] at h
    obtain ⟨s1, h1, h2⟩ := h
    obtain ⟨hlen1, hb1⟩ := freeEntry_bits h1
    obtain ⟨hlen2, hb2⟩ := freeEntries_bits es s1 s' h2
    refine ⟨hlen2.trans hlen1, fun p hp => ?_⟩
    rcases hb2 p hp with hp1 | ⟨e', he', h'⟩
    · rcases hb1 p hp1 with hp0 | h'
      · exact Or.inl hp0
      · exact Or.inr ⟨e, mem_cons_self, h'⟩
    · rw [hlen1] at h'
      exact Or.inr ⟨e', mem_cons_of_mem _ he', h'⟩

lemma setBit_bits {i : ℕ} (h : s.setBit i = some s') :
    s'.length = s.length ∧ ∀ p, s'.bits p = false → s.bits p = false ∧ p ≠ i := by
  unfold setBit at h
  split at h
  · simp only [some.injEq] at h
    subst h
    refine ⟨rfl, fun p hp => ?_⟩
    simp only [update_apply] at hp
    split at hp
    · simp at hp
    · exact ⟨hp, by assumption⟩
  · simp at h

/-- What `pmm_init` leaves: a clear bit is one memory held clear past the whole
bytes of the bitmap, or one of a freed page; never that of page 1 or 2. -/
lemma pmmInit_bits (h : pmmInit entries phys = some s) :
    (findBitmap entries).1 ≠ 0 ∧ s.length = (findBitmap entries).2 ∧ ∀ p, s.bits p = false → p ≠ 1 ∧ p ≠ 2 ∧
      ((8 * ((findBitmap entries).2 / 8) ≤ p ∧ phys (8 * (findBitmap entries).1 + p) = false) ∨
        ∃ e ∈ entries, e.type = .usable ∧ e.base ≤ (findBitmap entries).1 ∧
          p ∈ (freedBlock (findBitmap entries).1 (findBitmap entries).2 e).pages) := by
  simp only [pmmInit] at h
  split at h
  · simp at h
  · rename_i hne
    simp only [bind_eq_some_iff] at h
    obtain ⟨s1, h1, s2, h2, h3⟩ := h
    obtain ⟨l1, b1⟩ := freeEntries_bits entries _ s1 h1
    obtain ⟨l2, b2⟩ := setBit_bits h2
    obtain ⟨l3, b3⟩ := setBit_bits h3
    refine ⟨hne, by rw [l3, l2, l1], fun p hp => ?_⟩
    obtain ⟨hp2, n2⟩ := b3 p hp
    obtain ⟨hp1, n1⟩ := b2 p hp2
    refine ⟨n1, n2, (b1 p hp1).imp_left fun h0 => ?_⟩
    simp only at h0
    split at h0
    · simp at h0
    · exact ⟨by omega, h0⟩

lemma bitmap_entry (hw : WellFormed entries) (hne : (findBitmap entries).1 ≠ 0) :
    ∃ e ∈ entries, e.type = .usable ∧ ∃ b n, e.base = b * pageSize ∧ e.length = n * pageSize ∧ 0 < n ∧
      (findBitmap entries).1 = b * pageSize ∧ (findBitmap entries).2 = b + n ∧ b + n < n * pageSize := by
  rcases findBitmap_picked entries with h | ⟨e, he, hu, -, h, hlarge⟩
  · exact absurd (congrArg Prod.fst h) hne
  · obtain ⟨⟨b, hb⟩, ⟨n, hn⟩⟩ := hw.aligned e he hu
    have hpos := hw.nonempty e he hu
    have hend : e.newLength = b + n := by
      simp only [MemmapEntry.newLength, hb, hn, pageSize]; omega
    refine ⟨e, he, hu, b, n, by rw [hb, Nat.mul_comm], by rw [hn, Nat.mul_comm], ?_, ?_, by rw [h, hend], ?_⟩
    · rcases Nat.eq_zero_or_pos n with rfl | hn0
      · omega
      · exact hn0
    · rw [h]; simp only; rw [hb, Nat.mul_comm]
    · rwa [hend, hn, Nat.mul_comm] at hlarge

/-- A page below `PmmLength` that the second loop frees may be handed out, if
what is kept back of the bitmap's entry is all that stores the bitmap. -/
lemma usable_of_freed (hw : WellFormed entries) (hne : (findBitmap entries).1 ≠ 0)
    (hk : keptPages (findBitmap entries).2 = bitmapPages (findBitmap entries).2) {p : ℕ}
    (he : e ∈ entries) (hu : e.type = .usable) (hle : e.base ≤ (findBitmap entries).1)
    (hp : p ∈ (freedBlock (findBitmap entries).1 (findBitmap entries).2 e).pages) (hlt : p < (findBitmap entries).2)
    (h1 : p ≠ 1) (h2 : p ≠ 2) : Usable entries p := by
  obtain ⟨c, hc, huc, b, n, hb, hn, hn0, hb1, hL, -⟩ := bitmap_entry hw hne
  have hdiv : (findBitmap entries).1 / pageSize = b := by
    rw [hb1]; exact Nat.mul_div_cancel _ (by decide)
  by_cases hec : e = c
  · -- the entry of the bitmap: the pages from the kept ones on
    subst hec
    have hbase : e.base = (findBitmap entries).1 := by rw [hb, hb1]
    rw [Block.mem_pages, freedBlock, if_pos hbase] at hp
    simp only at hp
    have hstart : (e.base + keptPages (findBitmap entries).2 * pageSize) / pageSize =
        b + keptPages (findBitmap entries).2 := by
      rw [hb, ← Nat.add_mul]; exact Nat.mul_div_cancel _ (by decide)
    rw [hstart] at hp
    refine ⟨⟨e, he, hu, ?_, ?_⟩, ?_, h1, h2⟩
    · rw [hb]; exact Nat.mul_le_mul_right _ (by omega)
    · rw [hb, hn, ← Nat.add_mul]; exact Nat.mul_le_mul_right _ (by omega)
    · rw [hdiv]; omega
  · -- an entry below it
    have hlen := hw.nonempty c hc huc
    have hbelow : e.base + e.length ≤ c.base := by
      rcases hw.apart.forall he hc hec hu huc with h | h
      · exact h
      · omega
    have hpos := hw.nonempty e he hu
    rw [Block.mem_pages, freedBlock, if_neg (by omega)] at hp
    obtain ⟨⟨be, hbe⟩, ⟨ne, hne'⟩⟩ := hw.aligned e he hu
    have hd1 : e.base / pageSize = be := by rw [hbe]; exact Nat.mul_div_cancel_left _ (by decide)
    have hd2 : e.length / pageSize = ne := by rw [hne']; exact Nat.mul_div_cancel_left _ (by decide)
    simp only [hd1, hd2] at hp
    simp only [pageSize] at hbe hne' hb
    refine ⟨⟨e, he, hu, ?_, ?_⟩, ?_, h1, h2⟩
    · simp only [pageSize]; omega
    · simp only [pageSize]; omega
    · rw [hdiv]; omega

/-! ### Runs after `pmm_init`

Beyond the bits of its own pages the bitmap pointer reads memory that belongs to
others, so a run also has the writes of the pages' holders. -/

/-- A step after `pmm_init`: a call of the allocator, or a write to memory that
changes bit `i` as read through `PmmBitmap`. -/
inductive BootOp where
  | call (op : PmmOp)
  | write (i : ℕ) (v : Bool)

/-- One step, the bitmap starting at page `first`: a page that stores the bitmap
is written by the allocator only, unless it was handed out. -/
def bootStep (first : ℕ) (st : Live) : BootOp → Option Live
  | .call op => step st op
  | .write i v =>
    if bitmapPages st.pmm.length ≤ i / (8 * pageSize) ∨ ∃ b ∈ st.live, first + i / (8 * pageSize) ∈ b.pages then
      some { st with pmm := { st.pmm with bits := update st.pmm.bits i v } }
    else none

/-- No request is met by a run of clear bits that starts below `PmmLength` and
reaches past it, unless there is an earlier one. -/
def FitsBelow (st : Live) : BootOp → Prop
  | .call (.alloc count alignment) => ∀ index < st.pmm.length, st.pmm.length < index + count →
      alignment ∣ index → st.pmm.isBitmapPageFree index count = some true →
      ∃ j < index, alignment ∣ j ∧ st.pmm.isBitmapPageFree j count = some true
  | _ => True

/-- Every clear bit below `PmmLength` and every page handed out is of a page that
may be handed out. -/
structure Sound (entries : List MemmapEntry) (st : Live) : Prop where
  length : st.pmm.length = (findBitmap entries).2
  clear : ∀ p < st.pmm.length, st.pmm.bits p = false → Usable entries p
  live : ∀ b ∈ st.live, ∀ p ∈ b.pages, Usable entries p

/-- The pages `pmm_init` keeps back are all that store the bitmap, and among the
last `PmmLength % 8` pages, those not to be handed out have their bits set in
the memory that becomes the bitmap. -/
structure CleanEnds (entries : List MemmapEntry) (phys : ℕ → Bool) : Prop where
  kept : keptPages (findBitmap entries).2 = bitmapPages (findBitmap entries).2
  tail : ∀ p, 8 * ((findBitmap entries).2 / 8) ≤ p → p < (findBitmap entries).2 → p ≠ 1 → p ≠ 2 →
    ¬ Usable entries p → phys (8 * (findBitmap entries).1 + p) = true

lemma sound_init (hw : WellFormed entries) (hc : CleanEnds entries phys)
    (h : pmmInit entries phys = some s) : Sound entries ⟨s, []⟩ := by
  obtain ⟨hne, hlen, hbits⟩ := pmmInit_bits h
  refine ⟨hlen, fun p hp hclear => ?_, fun _ hb => by simp at hb⟩
  simp only [hlen] at hp
  obtain ⟨h1, h2, ⟨htail, hphys⟩ | ⟨e, he, hu, hle, hpe⟩⟩ := hbits p hclear
  · by_contra hbad
    rw [hc.tail p htail hp h1 h2 hbad] at hphys
    simp at hphys
  · exact usable_of_freed hw hne hc.kept he hu hle hpe hp h1 h2

lemma sound_call {st st' : Live} (op : PmmOp) (hI : Sound entries st) (hC : FitsBelow st (.call op))
    (h : step st op = some st') : Sound entries st' := by
  cases op with
  | alloc count alignment =>
    obtain ⟨-, -, ha, addr, s, halloc, rfl⟩ := step_alloc h
    rcases pmmAllocAdvanced_cases ha halloc with ⟨index, hfit, hr⟩ | ⟨-, hr⟩
    · obtain ⟨rfl, rfl⟩ := Prod.mk.inj hr
      -- the block does not cross the end, so all its pages are below `PmmLength`
      have hend : index + count ≤ st.pmm.length := by
        by_contra hgt
        obtain ⟨j, hj, hdj, hfree⟩ := hC index hfit.lt (by omega) hfit.dvd hfit.free
        rw [hfit.first j hj hdj] at hfree
        simp at hfree
      refine ⟨hI.length, fun p hp hcl => ?_, fun b hb p hp => ?_⟩
      · simp only [taken] at hp hcl
        by_cases hin : index ≤ p ∧ p < index + count
        · rw [fill_in hin.1 hin.2] at hcl
          simp at hcl
        · rw [fill_out hin] at hcl
          exact hI.clear p hp hcl
      · simp only at hb
        split at hb
        · exact hI.live b hb p hp
        · rcases mem_cons.mp hb with rfl | hb
          · rw [Block.mem_pages_mul] at hp
            exact hI.clear p (by omega) (hfit.clear p hp.1 hp.2)
          · exact hI.live b hb p hp
    · obtain ⟨rfl, rfl⟩ := Prod.mk.inj hr
      exact hI
  | free b =>
    obtain ⟨hb, s, hfree, rfl⟩ := step_free h
    obtain ⟨hbits, hlen⟩ := pmmFree_bits hfree
    refine ⟨hlen.trans hI.length, fun p hp hcl => ?_, fun b' hb' => hI.live b' (mem_of_mem_erase hb')⟩
    simp only [hlen] at hp
    by_cases hin : p ∈ b.pages
    · exact hI.live b hb p hin
    · rw [Block.mem_pages] at hin
      rw [hbits, fill_out hin] at hcl
      exact hI.clear p hp hcl

lemma div_lt_bitmapPages {i length : ℕ} (h : i < length) : i / (8 * pageSize) < bitmapPages length := by
  simp only [bitmapPages, pageSize]
  omega

lemma sound_step (st : Live) (op : BootOp) (st' : Live) (hI : Sound entries st) (hC : FitsBelow st op)
    (h : bootStep ((findBitmap entries).1 / pageSize) st op = some st') : Sound entries st' := by
  cases op with
  | call op => exact sound_call op hI hC h
  | write i v =>
    simp only [bootStep] at h
    split at h
    · rename_i hown
      simp only [some.injEq] at h
      subst h
      refine ⟨hI.length, fun p hp hcl => ?_, hI.live⟩
      simp only at hp hcl
      -- a holder's page stores no bit of the bitmap
      have hne : p ≠ i := by
        rintro rfl
        have hlt := div_lt_bitmapPages hp
        rcases hown with hge | ⟨b, hb, hpb⟩
        · exact absurd hlt (not_lt.mpr hge)
        · have hnot := (hI.live b hb _ hpb).2.1
          rw [← hI.length] at hnot
          exact hnot ⟨Nat.le_add_right _ _, Nat.add_lt_add_left hlt _⟩
      rw [update_of_ne hne] at hcl
      exact hI.clear p hp hcl
    · simp at h

/-- **What is handed out is usable**, in every run after `pmm_init` whose
requests do not cross the end of the bitmap, if the bitmap's ends are clean. -/
theorem handed_out_usable (entries : List MemmapEntry) (phys : ℕ → Bool) (s : Pmm) (ops : List BootOp) (st : Live)
    (hw : WellFormed entries) (hc : CleanEnds entries phys) (hinit : pmmInit entries phys = some s)
    (hops : Along (bootStep ((findBitmap entries).1 / pageSize)) FitsBelow ⟨s, []⟩ ops)
    (hrun : run (bootStep ((findBitmap entries).1 / pageSize)) ⟨s, []⟩ ops = some st) :
    ∀ b ∈ st.live, ∀ p ∈ b.pages, Usable entries p :=
  (run_invariant_along _ sound_step ops _ st (sound_init hw hc hinit) hops hrun).live

def sixteenPages : List MemmapEntry := [⟨0x3000, 0x10000, .usable, by decide⟩]

lemma wellFormed_sixteen : WellFormed sixteenPages := by
  refine ⟨?_, ?_, ?_, pairwise_singleton _ _⟩ <;> decide

/-- The blocks held after `pmm_init` on these pages, over memory full of ones,
and the calls `ops`. -/
def sixteenLive (ops : List BootOp) : Option (List Block) :=
  ((pmmInit sixteenPages fun _ => true).bind fun s =>
    run (bootStep ((findBitmap sixteenPages).1 / pageSize)) ⟨s, []⟩ ops).map (·.live)

lemma sixteenLive_some {ops : List BootOp} {live : List Block} (h : sixteenLive ops = some live) :
    ∃ s st, pmmInit sixteenPages (fun _ => true) = some s ∧
      run (bootStep ((findBitmap sixteenPages).1 / pageSize)) ⟨s, []⟩ ops = some st ∧ st.live = live := by
  simp only [sixteenLive, map_eq_some_iff, bind_eq_some_iff] at h
  obtain ⟨st, ⟨s, hs, hst⟩, hl⟩ := h
  exact ⟨s, st, hs, hst, hl⟩

/-- The first page past the entry is handed out: `pmm_init` frees 16 pages from
page 4 on, up to and with page 19, although the entry ends before page 19. -/
theorem handed_out_past_entry : WellFormed sixteenPages ∧ ∃ s st, pmmInit sixteenPages (fun _ => true) = some s ∧
      run (bootStep ((findBitmap sixteenPages).1 / pageSize)) ⟨s, []⟩ [.call (.alloc 16 1)] = some st ∧
      ∃ b ∈ st.live, ∃ p ∈ b.pages, ¬ InUsable sixteenPages p := by
  obtain ⟨s, st, hs, hst, hl⟩ := sixteenLive_some
    (by decide +kernel : sixteenLive [.call (.alloc 16 1)] = some [⟨0x4000, 16⟩])
  refine ⟨wellFormed_sixteen, s, st, hs, hst, ⟨0x4000, 16⟩, by simp [hl], 19, by decide, ?_⟩
  rintro ⟨e, he, -, -, h⟩
  rw [sixteenPages, mem_singleton] at he
  subst he
  simp [pageSize] at h

theorem handed_out_usable_sixteen : ∃ s st, pmmInit sixteenPages (fun _ => true) = some s ∧
      run (bootStep ((findBitmap sixteenPages).1 / pageSize)) ⟨s, []⟩
        [.call (.alloc 1 1), .write 40000 false, .call (.alloc 1 1)] = some st ∧
      st.live = [⟨0x5000, 1⟩, ⟨0x4000, 1⟩] ∧ ∀ b ∈ st.live, ∀ p ∈ b.pages, Usable sixteenPages p := by
  obtain ⟨s, st, hs, hst, hl⟩ := sixteenLive_some (by decide +kernel :
    sixteenLive [.call (.alloc 1 1), .write 40000 false, .call (.alloc 1 1)] = some [⟨0x5000, 1⟩, ⟨0x4000, 1⟩])
  refine ⟨s, st, hs, hst, hl, handed_out_usable sixteenPages (fun _ => true) s
    [.call (.alloc 1 1), .write 40000 false, .call (.alloc 1 1)] st wellFormed_sixteen
    ⟨rfl, fun _ _ _ _ _ _ => rfl⟩ hs ⟨?_, fun _ _ => ⟨trivial, fun _ _ => ⟨?_, fun _ _ => trivial⟩⟩⟩ hst⟩
  · intro index h1 h2
    omega
  · intro index h1 h2
    omega

end WivOS.Pmm
