/-
# The number of free pages

`PmmFreePages` is to be the number of clear bits below `PmmLength`. Calls keep it so for as long as the blocks handed
out end below `PmmLength`. `pmm_init` counts the pages it passes to `pmm_free`, but not that it sets the bits of pages
1 and 2 afterwards, that the bit of page `PmmLength` may be freed, and that the last `PmmLength % 8` bits keep what
memory held: the counter is right exactly if these cancel (`Balanced`, `free_pages_off_by_one`).
-/
import Mathlib.Algebra.GroupWithZero.Nat
import WivOS.Mem.PmmInit

namespace WivOS.Pmm

open Function Option Machine

/-! ### Clear bits -/

def clearBits (length : ℕ) (bits : ℕ → Bool) : ℕ := ((Finset.range length).filter fun p => bits p = false).card

def clearPages (s : Pmm) : ℕ := clearBits s.length s.bits

lemma clearPages_le (s : Pmm) : s.clearPages ≤ s.length :=
  (Finset.card_filter_le _ _).trans (Finset.card_range _).le

variable {i index count alignment p : ℕ} {s : Pmm} {st : Live}

lemma clearBits_add {length j : ℕ} {bits bits' : ℕ → Bool} (hj : j ≤ length)
    (hset : ∀ p, i ≤ p → p < j → bits p = true) (h : ∀ p < length, bits' p = false ↔ bits p = false ∨ (i ≤ p ∧ p < j)) :
    clearBits length bits' = clearBits length bits + (j - i) := by
  have hunion : (Finset.range length).filter (fun p => bits' p = false) =
      (Finset.range length).filter (fun p => bits p = false) ∪ Finset.Ico i j := by
    ext p
    simp only [Finset.mem_filter, Finset.mem_range, Finset.mem_union, Finset.mem_Ico]
    constructor
    · rintro ⟨hp, hb⟩
      exact ((h p hp).mp hb).imp_left fun hb => ⟨hp, hb⟩
    · rintro (⟨hp, hb⟩ | hp)
      · exact ⟨hp, (h p hp).mpr (Or.inl hb)⟩
      · exact ⟨by omega, (h p (by omega)).mpr (Or.inr hp)⟩
  have hdisjoint : Disjoint ((Finset.range length).filter fun p => bits p = false) (Finset.Ico i j) := by
    rw [Finset.disjoint_left]
    intro p hp hp'
    rw [Finset.mem_Ico] at hp'
    have hclear := (Finset.mem_filter.mp hp).2
    rw [hset p hp'.1 hp'.2] at hclear
    cases hclear
  rw [clearBits, hunion, Finset.card_union_of_disjoint hdisjoint, Nat.card_Ico]
  rfl

lemma clearPages_taken (hclear : ∀ p, index ≤ p → p < index + count → s.bits p = false) :
    s.clearPages = (s.taken index count).clearPages + (min (index + count) s.length - index) := by
  refine clearBits_add (Nat.min_le_right _ _) (fun p h1 h2 => fill_in h1 (by omega)) fun p hp => ?_
  show _ ↔ fill s.bits index count true p = false ∨ _
  by_cases hin : index ≤ p ∧ p < index + count
  · rw [hclear p hin.1 hin.2]
    exact ⟨fun _ => Or.inr ⟨hin.1, by omega⟩, fun _ => rfl⟩
  · rw [fill_out hin]
    exact ⟨Or.inl, fun h => h.resolve_right (by omega)⟩

lemma clearBits_freed (hle : index + count ≤ s.length) (hset : ∀ p, index ≤ p → p < index + count → s.bits p = true) :
    clearBits s.length (fill s.bits index count false) = s.clearPages + count := by
  have hbits : ∀ p < s.length, fill s.bits index count false p = false ↔
      s.bits p = false ∨ (index ≤ p ∧ p < index + count) := by
    intro p _
    by_cases hin : index ≤ p ∧ p < index + count
    · rw [fill_in hin.1 hin.2]
      exact ⟨fun _ => Or.inr hin, fun _ => rfl⟩
    · rw [fill_out hin]
      exact ⟨Or.inl, fun h => h.resolve_right hin⟩
  rw [clearBits_add hle hset hbits, Nat.add_sub_cancel_left]
  rfl

/-! ### Runs of calls -/

def callStep (st : Live) : PmmOp → Option Live
  | .alloc count alignment =>
    if count < 2 ^ 64 ∧ alignment < 2 ^ 64 then
      (st.pmm.pmmAllocAdvanced count alignment).map fun r =>
        ⟨r.2, if r.1 = 0 then st.live else ⟨r.1, count⟩ :: st.live⟩
    else none
  | .free b => step st (.free b)

/-- A block that the call finds ends below `PmmLength`. -/
def StaysBelow (st : Live) : PmmOp → Prop
  | .alloc count alignment => ∀ index, FirstFit st.pmm count alignment index → index + count ≤ st.pmm.length
  | .free _ => True

/-- The counter is right, and the live blocks are apart, in use and below `PmmLength`. -/
structure Counted (st : Live) : Prop where
  counter : st.pmm.freePages = st.pmm.clearPages
  disjoint : st.live.Pairwise fun a b => Disjoint a.pages b.pages
  set : ∀ b ∈ st.live, ∀ p ∈ b.pages, st.pmm.bits p = true
  below : ∀ b ∈ st.live, b.addr / pageSize + b.count ≤ st.pmm.length

lemma FirstFit.unique {j : ℕ} (hi : FirstFit s count alignment i) (hj : FirstFit s count alignment j) : i = j := by
  have hnot : ∀ {i j}, FirstFit s count alignment i → FirstFit s count alignment j → ¬ i < j := fun hi hj hlt => by
    have h := hj.first _ hlt hi.dvd
    rw [hi.free] at h
    cases h
  exact Nat.le_antisymm (Nat.not_lt.mp (hnot hj hi)) (Nat.not_lt.mp (hnot hi hj))

lemma FirstFit.counter_iff (h : FirstFit s count alignment index) (hcounter : s.freePages = s.clearPages) :
    (s.taken index count).freePages = (s.taken index count).clearPages ↔ index + count ≤ s.length := by
  have hclear := clearPages_taken (isBitmapPageFree_true s count index h.free).1
  have hlt := h.lt
  have hlim := h.le_bitLimit
  have hle := s.clearPages_le
  have hlength := s.length_lt
  generalize (s.taken index count).clearPages = after at hclear ⊢
  show (if s.freePages = 0 then 0 else (s.freePages + (2 ^ 64 - count % 2 ^ 64)) % 2 ^ 64) = after ↔ _
  unfold bitLimit at hlim
  split
  · omega
  · omega

lemma Counted.set_taken (hI : Counted st) (index count : ℕ) :
    ∀ b ∈ st.live, ∀ p ∈ b.pages, (st.pmm.taken index count).bits p = true := by
  intro b hb p hp
  show fill st.pmm.bits index count true p = true
  by_cases hin : index ≤ p ∧ p < index + count
  · exact fill_in hin.1 hin.2
  · rw [fill_out hin, hI.set b hb p hp]

lemma Counted.taken (hI : Counted st) (hfit : FirstFit st.pmm count alignment index)
    (hle : index + count ≤ st.pmm.length) : Counted ⟨st.pmm.taken index count,
      if index * pageSize = 0 then st.live else ⟨index * pageSize, count⟩ :: st.live⟩ := by
  have hcounter := (hfit.counter_iff hI.counter).mpr hle
  have hset := hI.set_taken index count
  split
  · exact ⟨hcounter, hI.disjoint, hset, hI.below⟩
  · have hclear := (isBitmapPageFree_true st.pmm count index hfit.free).1
    refine ⟨hcounter, List.pairwise_cons.mpr ⟨fun b hb => ?_, hI.disjoint⟩, fun b hb p hp => ?_, fun b hb => ?_⟩
    · rw [Finset.disjoint_left]
      intro p hp hp'
      rw [Block.mem_pages_mul] at hp
      have h := hclear p hp.1 hp.2
      rw [hI.set b hb p hp'] at h
      cases h
    · rcases List.mem_cons.mp hb with rfl | hb
      · rw [Block.mem_pages_mul] at hp
        exact fill_in hp.1 hp.2
      · exact hset b hb p hp
    · rcases List.mem_cons.mp hb with rfl | hb
      · rw [Nat.mul_div_cancel _ (by decide : 0 < pageSize)]
        exact hle
      · exact hI.below b hb

lemma Counted.freed {b : Block} (hI : Counted st) (hb : b ∈ st.live) (h : st.pmm.pmmFree b.addr b.count = some s) :
    Counted ⟨s, st.live.erase b⟩ := by
  have hdisjoint := pairwise_erase hI.disjoint hb
  have hbelow := hI.below b hb
  have hclear := clearBits_freed hbelow fun p h1 h2 => hI.set b hb p (Block.mem_pages.mpr ⟨h1, h2⟩)
  have hle : clearBits st.pmm.length (fill st.pmm.bits (b.addr / pageSize) b.count false) ≤ st.pmm.length :=
    (Finset.card_filter_le _ _).trans (Finset.card_range _).le
  have hlength := st.pmm.length_lt
  rw [pmmFree_eq h]
  refine ⟨?_, hI.disjoint.sublist List.erase_sublist, fun b' hb' p hp => ?_,
    fun b' hb' => hI.below b' (List.mem_of_mem_erase hb')⟩
  · show (st.pmm.freePages + b.count) % 2 ^ 64 = clearBits st.pmm.length _
    rw [hI.counter, ← hclear]
    exact Nat.mod_eq_of_lt (by omega)
  · have hout : ¬ (b.addr / pageSize ≤ p ∧ p < b.addr / pageSize + b.count) := fun hin =>
      Finset.disjoint_left.mp (hdisjoint b' hb') (Block.mem_pages.mpr hin) hp
    show fill st.pmm.bits _ _ false p = true
    rw [fill_out hout, hI.set b' (List.mem_of_mem_erase hb') p hp]

/-- **One call** keeps the counter right exactly if its block ends below `PmmLength`. -/
lemma Counted.step {st' : Live} {op : PmmOp} (hI : Counted st) (h : callStep st op = some st') :
    (st'.pmm.freePages = st'.pmm.clearPages ↔ StaysBelow st op) ∧ (StaysBelow st op → Counted st') := by
  cases op with
  | alloc count alignment =>
    simp only [callStep] at h
    split at h
    · rename_i hca
      obtain ⟨r, halloc, rfl⟩ := map_eq_some_iff.mp h
      rcases pmmAllocAdvanced_cases hca.2 halloc with ⟨index, hfit, rfl⟩ | ⟨hno, rfl⟩
      · have hiff : StaysBelow st (.alloc count alignment) ↔ index + count ≤ st.pmm.length :=
          ⟨fun hall => hall index hfit, fun hle i hi => by rwa [hi.unique hfit]⟩
        rw [hiff]
        exact ⟨hfit.counter_iff hI.counter, hI.taken hfit⟩
      · have hstays : StaysBelow st (.alloc count alignment) := fun index hfit => by
          have h := hno index hfit.lt hfit.dvd
          rw [hfit.free] at h
          cases h
        exact ⟨iff_of_true hI.counter hstays, fun _ => hI⟩
    · cases h
  | free b =>
    obtain ⟨hb, s, hfree, rfl⟩ := step_free h
    have hI' := hI.freed hb hfree
    exact ⟨iff_of_true hI'.counter trivial, fun _ => hI'⟩

/-! ### The pages `pmm_init` frees -/

def freedBlocks (maxBase length : ℕ) (entries : List MemmapEntry) : List Block :=
  (entries.filter fun e => e.type = .usable ∧ e.base ≤ maxBase).map (freedBlock maxBase length)

def pagesOf (blocks : List Block) : Finset ℕ := blocks.foldr (fun b pages => b.pages ∪ pages) ∅

lemma mem_pagesOf : ∀ {blocks : List Block}, p ∈ pagesOf blocks ↔ ∃ b ∈ blocks, p ∈ b.pages
  | [] => by simp [pagesOf]
  | b :: blocks => by
    show p ∈ b.pages ∪ pagesOf blocks ↔ _
    rw [Finset.mem_union, mem_pagesOf]
    simp

lemma card_pagesOf : ∀ {blocks : List Block}, (blocks.Pairwise fun a b => Disjoint a.pages b.pages) →
    (pagesOf blocks).card = (blocks.map Block.count).sum
  | [], _ => rfl
  | b :: blocks, h => by
    obtain ⟨hb, hblocks⟩ := List.pairwise_cons.mp h
    have hdisjoint : Disjoint b.pages (pagesOf blocks) := by
      rw [Finset.disjoint_left]
      intro p hp hp'
      obtain ⟨c, hc, hpc⟩ := mem_pagesOf.mp hp'
      exact Finset.disjoint_left.mp (hb c hc) hp hpc
    have hcard : b.pages.card = b.count := by rw [Block.pages, Nat.card_Ico, Nat.add_sub_cancel_left]
    show (b.pages ∪ pagesOf blocks).card = _
    rw [Finset.card_union_of_disjoint hdisjoint, hcard, card_pagesOf hblocks, List.map_cons, List.sum_cons]

lemma freedBlocks_cons (maxBase length : ℕ) (e : MemmapEntry) (es : List MemmapEntry) :
    freedBlocks maxBase length (e :: es) =
      if e.type = .usable ∧ e.base ≤ maxBase then freedBlock maxBase length e :: freedBlocks maxBase length es
      else freedBlocks maxBase length es := by
  by_cases he : e.type = .usable ∧ e.base ≤ maxBase
  · simp [freedBlocks, he]
  · simp [freedBlocks, he]

lemma freeEntries_eq {maxBase : ℕ} : ∀ (entries : List MemmapEntry) (s s' : Pmm), s.freePages < 2 ^ 64 →
    entries.foldlM (freeEntry maxBase) s = some s' → s'.length = s.length ∧
      s'.freePages = (s.freePages + ((freedBlocks maxBase s.length entries).map Block.count).sum) % 2 ^ 64 ∧
      ∀ p, s'.bits p = if p ∈ pagesOf (freedBlocks maxBase s.length entries) then false else s.bits p
  | [], s, s', hlt, h => by
    simp only [List.foldlM_nil, pure_def, some.injEq] at h
    subst h
    exact ⟨rfl, (Nat.mod_eq_of_lt hlt).symm, fun p => (if_neg (Finset.notMem_empty p)).symm⟩
  | e :: es, s, s', hlt, h => by
    simp only [List.foldlM_cons, bind_eq_bind, bind_eq_some_iff] at h
    obtain ⟨s1, h1, h2⟩ := h
    rw [freedBlocks_cons]
    unfold freeEntry at h1
    split at h1
    · rename_i he
      rw [pmmFree_eq h1] at h2
      obtain ⟨hlen, hcount, hbits⟩ := freeEntries_eq es _ s' (Nat.mod_lt _ (by decide)) h2
      refine ⟨hlen, ?_, fun p => ?_⟩
      · rw [if_pos he, hcount, List.map_cons, List.sum_cons, Nat.mod_add_mod, Nat.add_assoc]
      · rw [if_pos he, hbits]
        show (if _ then false else fill s.bits _ _ false p) = if p ∈ Block.pages _ ∪ pagesOf _ then false else s.bits p
        by_cases hp : p ∈ pagesOf (freedBlocks maxBase s.length es)
        · rw [if_pos hp, if_pos (Finset.mem_union_right _ hp)]
        · by_cases hin : p ∈ (freedBlock maxBase s.length e).pages
          · rw [if_neg hp, if_pos (Finset.mem_union_left _ hin)]
            exact fill_in (Block.mem_pages.mp hin).1 (Block.mem_pages.mp hin).2
          · rw [if_neg hp, if_neg (by simp [hp, hin]), fill_out fun h => hin (Block.mem_pages.mpr h)]
    · rename_i he
      simp only [some.injEq] at h1
      rw [if_neg he]
      exact freeEntries_eq es s s' hlt (h1 ▸ h2)

def freedPages (entries : List MemmapEntry) : Finset ℕ :=
  pagesOf (freedBlocks (findBitmap entries).1 (findBitmap entries).2 entries)

lemma setBit_eq {s' : Pmm} (h : s.setBit i = some s') : s' = { s with bits := update s.bits i true } := by
  unfold setBit at h
  split at h
  · exact (some.inj h).symm
  · cases h

lemma pmmInit_eq {entries : List MemmapEntry} {phys : ℕ → Bool} (h : pmmInit entries phys = some s) :
    s.length = (findBitmap entries).2 ∧
    s.freePages = ((freedBlocks (findBitmap entries).1 (findBitmap entries).2 entries).map Block.count).sum % 2 ^ 64 ∧
    ∀ p, s.bits p = false ↔ p ≠ 1 ∧ p ≠ 2 ∧ (p ∈ freedPages entries ∨
      (8 * ((findBitmap entries).2 / 8) ≤ p ∧ phys (8 * (findBitmap entries).1 + p) = false)) := by
  simp only [pmmInit] at h
  split at h
  · cases h
  · simp only [bind_eq_some_iff] at h
    obtain ⟨s1, h1, s2, h2, h3⟩ := h
    obtain ⟨hlen, hcount, hbits⟩ := freeEntries_eq entries _ s1 (by decide : (0 : ℕ) < 2 ^ 64) h1
    rw [setBit_eq h3, setBit_eq h2]
    refine ⟨hlen, by rw [hcount, Nat.zero_add], fun p => ?_⟩
    show update (update s1.bits 1 true) 2 true p = false ↔ _
    rw [update_apply, update_apply, hbits]
    simp only [freedPages]
    by_cases h8 : p < 8 * ((findBitmap entries).2 / 8)
    · simp only [if_pos h8]
      split_ifs <;> simp_all
    · simp only [if_neg h8, Nat.not_lt.mp h8, true_and]
      split_ifs <;> simp_all

/-! ### A well-formed map -/

/-- The pages freed past `PmmLength`: one, unless the bitmap fills whole pages. -/
def freedPast (length : ℕ) : ℕ := if length / 8 % pageSize = 0 then 0 else 1

lemma keptPages_eq (length : ℕ) : keptPages length = length / 8 / pageSize + freedPast length := by
  unfold keptPages freedPast pageSize
  split <;> omega

/-- The pages that `pmm_init` counts as free and whose bits it sets, or that lie past
`PmmLength`, are as many as the bits that memory held clear for pages it does not free. -/
def Balanced (entries : List MemmapEntry) (phys : ℕ → Bool) : Prop :=
  ((freedPages entries).filter fun p => p = 1 ∨ p = 2).card + freedPast (findBitmap entries).2 =
    ((Finset.Ico (8 * ((findBitmap entries).2 / 8)) (findBitmap entries).2).filter fun p =>
      phys (8 * (findBitmap entries).1 + p) = false ∧ p ∉ freedPages entries ∧ p ≠ 1 ∧ p ≠ 2).card

section WellFormed

variable {entries : List MemmapEntry}

lemma mem_freedBlock (hw : WellFormed entries) (hne : (findBitmap entries).1 ≠ 0) {e : MemmapEntry}
    (he : e ∈ entries) (hu : e.type = .usable) :
    p ∈ (freedBlock (findBitmap entries).1 (findBitmap entries).2 e).pages ↔ if e.base = (findBitmap entries).1 then
        e.base / pageSize + keptPages (findBitmap entries).2 ≤ p ∧
          p < (findBitmap entries).2 + freedPast (findBitmap entries).2
      else e.base / pageSize ≤ p ∧ p < (e.base + e.length) / pageSize := by
  obtain ⟨c, hc, huc, b, n, hb, hn, hn0, hb1, hL, hlarge⟩ := bitmap_entry hw hne
  by_cases hbase : e.base = (findBitmap entries).1
  · have hec : e = c := by
      by_contra hec
      have h1 := hw.nonempty e he hu
      have h2 := hw.nonempty c hc huc
      have h3 := hw.apart.forall he hc hec hu huc
      omega
    subst hec
    have hkept := keptPages_eq (findBitmap entries).2
    have hfits := e.fits
    rw [hb, hn] at hfits
    have hdiv : e.base / pageSize = b := by rw [hb]; exact Nat.mul_div_cancel _ (by decide)
    have hstart : (e.base + keptPages (findBitmap entries).2 * pageSize) / pageSize =
        b + keptPages (findBitmap entries).2 := by
      rw [hb, ← Nat.add_mul]; exact Nat.mul_div_cancel _ (by decide)
    have hlen : e.length / pageSize = n := by rw [hn]; exact Nat.mul_div_cancel _ (by decide)
    rw [Block.mem_pages, freedBlock, if_pos hbase, if_pos hbase, hdiv]
    simp only [hstart, hlen]
    rw [hL] at hkept ⊢
    simp only [pageSize] at hkept hlarge hfits ⊢
    omega
  · obtain ⟨⟨be, hbe⟩, ⟨ne, hne'⟩⟩ := hw.aligned e he hu
    rw [Block.mem_pages, freedBlock, if_neg hbase, if_neg hbase, hbe, hne', ← Nat.mul_add,
      Nat.mul_div_cancel_left _ (by decide : 0 < pageSize), Nat.mul_div_cancel_left _ (by decide : 0 < pageSize),
      Nat.mul_div_cancel_left _ (by decide : 0 < pageSize)]

lemma ends_before_bitmap (hw : WellFormed entries) (hne : (findBitmap entries).1 ≠ 0) {e : MemmapEntry}
    (he : e ∈ entries) (hu : e.type = .usable) (hlt : e.base < (findBitmap entries).1) :
    e.base + e.length ≤ (findBitmap entries).1 := by
  obtain ⟨c, hc, huc, b, n, hb, hn, hn0, hb1, -⟩ := bitmap_entry hw hne
  have hec : e ≠ c := by
    rintro rfl
    omega
  rcases hw.apart.forall he hc hec hu huc with h | h
  · omega
  · have := hw.nonempty c hc huc
    omega

lemma mem_freedPages : p ∈ freedPages entries ↔ ∃ e ∈ entries, e.type = .usable ∧
    e.base ≤ (findBitmap entries).1 ∧ p ∈ (freedBlock (findBitmap entries).1 (findBitmap entries).2 e).pages := by
  simp only [freedPages, mem_pagesOf, freedBlocks, List.mem_map, List.mem_filter, decide_eq_true_eq]
  constructor
  · rintro ⟨-, ⟨e, ⟨he, hu, hle⟩, rfl⟩, hp⟩
    exact ⟨e, he, hu, hle, hp⟩
  · rintro ⟨e, he, hu, hle, hp⟩
    exact ⟨_, ⟨e, ⟨he, hu, hle⟩, rfl⟩, hp⟩

section

variable (hw : WellFormed entries)
include hw

lemma freedBlocks_disjoint (hne : (findBitmap entries).1 ≠ 0) :
    (freedBlocks (findBitmap entries).1 (findBitmap entries).2 entries).Pairwise
      fun a b => Disjoint a.pages b.pages := by
  rw [freedBlocks, List.pairwise_map]
  refine (hw.apart.filter _).imp_of_mem fun {e e'} he he' hapart => ?_
  simp only [List.mem_filter, decide_eq_true_eq] at he he'
  rw [Finset.disjoint_left]
  intro p hp hp'
  rw [mem_freedBlock hw hne he.1 he.2.1] at hp
  rw [mem_freedBlock hw hne he'.1 he'.2.1] at hp'
  have hlen := hw.nonempty e he.1 he.2.1
  have hlen' := hw.nonempty e' he'.1 he'.2.1
  have h := hapart he.2.1 he'.2.1
  have hbefore := ends_before_bitmap hw hne he.1 he.2.1
  have hbefore' := ends_before_bitmap hw hne he'.1 he'.2.1
  have hle := he.2.2
  have hle' := he'.2.2
  simp only [pageSize] at hp hp'
  split_ifs at hp hp' <;> omega

lemma freedPages_lt (hne : (findBitmap entries).1 ≠ 0) (hp : p ∈ freedPages entries) :
    p < (findBitmap entries).2 + freedPast (findBitmap entries).2 := by
  obtain ⟨e, he, hu, hle, hp⟩ := mem_freedPages.mp hp
  obtain ⟨c, hc, huc, b, n, hb, hn, hn0, hb1, hL, -⟩ := bitmap_entry hw hne
  rw [mem_freedBlock hw hne he hu] at hp
  split_ifs at hp with hbase
  · exact hp.2
  · have hbefore := ends_before_bitmap hw hne he hu (by omega)
    simp only [pageSize] at hp hb1
    omega

lemma length_mem_freedPages (hne : (findBitmap entries).1 ≠ 0) :
    (findBitmap entries).2 ∈ freedPages entries ↔ freedPast (findBitmap entries).2 = 1 := by
  constructor
  · intro h
    have hlt := freedPages_lt hw hne h
    unfold freedPast at hlt ⊢
    by_cases h0 : (findBitmap entries).2 / 8 % pageSize = 0
    · rw [if_pos h0] at hlt
      omega
    · rw [if_neg h0]
  · intro h
    obtain ⟨c, hc, huc, b, n, hb, hn, hn0, hb1, hL, hlarge⟩ := bitmap_entry hw hne
    have hkept := keptPages_eq (findBitmap entries).2
    have hdiv : c.base / pageSize = b := by rw [hb]; exact Nat.mul_div_cancel _ (by decide)
    refine mem_freedPages.mpr ⟨c, hc, huc, by omega, ?_⟩
    rw [mem_freedBlock hw hne hc huc, if_pos (by omega), hdiv, h]
    rw [hL] at hkept h ⊢
    simp only [pageSize] at hkept hlarge ⊢
    omega

lemma card_freedPages (hne : (findBitmap entries).1 ≠ 0) : (freedPages entries).card =
      ((freedPages entries).filter fun p => p < (findBitmap entries).2 ∧ p ≠ 1 ∧ p ≠ 2).card +
        (((freedPages entries).filter fun p => p = 1 ∨ p = 2).card + freedPast (findBitmap entries).2) := by
  have hsplit := Finset.card_filter_add_card_filter_not (s := freedPages entries) fun p => p = 1 ∨ p = 2
  have hrest : ((freedPages entries).filter fun p => ¬ (p = 1 ∨ p = 2)).card =
      ((freedPages entries).filter fun p => p < (findBitmap entries).2 ∧ p ≠ 1 ∧ p ≠ 2).card +
        freedPast (findBitmap entries).2 := by
    have hpast : freedPast (findBitmap entries).2 = 0 ∨ freedPast (findBitmap entries).2 = 1 := by
      unfold freedPast
      split <;> simp
    rcases hpast with h0 | h1
    · rw [h0, Nat.add_zero]
      congr 1
      refine Finset.filter_congr fun p hp => ?_
      have := freedPages_lt hw hne hp
      omega
    · -- `PmmLength` is at least 8 then
      have hlarge : 8 ≤ (findBitmap entries).2 := by
        by_contra hlt
        rw [freedPast, if_pos (by rw [Nat.div_eq_of_lt (by omega), Nat.zero_mod])] at h1
        cases h1
      have hinsert : ((freedPages entries).filter fun p => ¬ (p = 1 ∨ p = 2)) = insert (findBitmap entries).2
          ((freedPages entries).filter fun p => p < (findBitmap entries).2 ∧ p ≠ 1 ∧ p ≠ 2) := by
        ext p
        simp only [Finset.mem_filter, Finset.mem_insert]
        constructor
        · rintro ⟨hp, hout⟩
          have := freedPages_lt hw hne hp
          rcases Nat.lt_or_ge p (findBitmap entries).2 with hlt | hge
          · exact Or.inr ⟨hp, hlt, by omega, by omega⟩
          · exact Or.inl (by omega)
        · rintro (rfl | ⟨hp, hlt, hout⟩)
          · exact ⟨(length_mem_freedPages hw hne).mpr h1, by omega⟩
          · exact ⟨hp, by omega⟩
      rw [hinsert, Finset.card_insert_of_notMem (by simp), h1]
  omega

/-- **The counter after `pmm_init`** is right exactly if what it misses cancels. -/
lemma init_counted_iff {phys : ℕ → Bool} (h : pmmInit entries phys = some s) :
    s.freePages = s.clearPages ↔ Balanced entries phys := by
  obtain ⟨hne, -⟩ := pmmInit_bits h
  obtain ⟨hlen, hcount, hbits⟩ := pmmInit_eq h
  have hlt := s.length_lt
  have hpast : freedPast (findBitmap entries).2 ≤ 1 := by
    unfold freedPast
    split <;> omega
  have hcard : s.freePages = (freedPages entries).card := by
    have hle : (freedPages entries).card ≤ (findBitmap entries).2 + 1 := by
      rw [← Finset.card_range ((findBitmap entries).2 + 1)]
      refine Finset.card_le_card fun p hp => Finset.mem_range.mpr ?_
      have := freedPages_lt hw hne hp
      omega
    rw [hcount, freedPages, ← card_pagesOf (freedBlocks_disjoint hw hne)]
    exact Nat.mod_eq_of_lt (by unfold freedPages at hle; omega)
  -- the clear bits: of pages freed, and those memory held
  have hclear : s.clearPages = ((freedPages entries).filter fun p => p < (findBitmap entries).2 ∧ p ≠ 1 ∧ p ≠ 2).card +
      ((Finset.Ico (8 * ((findBitmap entries).2 / 8)) (findBitmap entries).2).filter fun p =>
        phys (8 * (findBitmap entries).1 + p) = false ∧ p ∉ freedPages entries ∧ p ≠ 1 ∧ p ≠ 2).card := by
    rw [← Finset.card_union_of_disjoint]
    · show ((Finset.range s.length).filter fun p => s.bits p = false).card = _
      congr 1
      ext p
      simp only [Finset.mem_filter, Finset.mem_range, Finset.mem_union, Finset.mem_Ico, hlen, hbits]
      tauto
    · rw [Finset.disjoint_left]
      intro p hp hp'
      exact (Finset.mem_filter.mp hp').2.2.1 (Finset.mem_filter.mp hp).1
  rw [hcard, hclear, card_freedPages hw hne, Balanced, Nat.add_left_cancel_iff]

end

end WellFormed

/-- **The counter is the number of clear bits**, on a well-formed map: after `pmm_init`
exactly if what it misses cancels; and then after every run of calls whose blocks end
below `PmmLength`, and after a further call exactly if its block does. -/
theorem free_pages_counted (entries : List MemmapEntry) (phys : ℕ → Bool) (s : Pmm) (hw : WellFormed entries)
    (hinit : pmmInit entries phys = some s) : (s.freePages = s.clearPages ↔ Balanced entries phys) ∧
    (Balanced entries phys → ∀ (ops : List PmmOp) (st : Live), Along callStep StaysBelow ⟨s, []⟩ ops →
      run callStep ⟨s, []⟩ ops = some st → st.pmm.freePages = st.pmm.clearPages ∧
        ∀ op st', callStep st op = some st' → (st'.pmm.freePages = st'.pmm.clearPages ↔ StaysBelow st op)) := by
  have hiff := init_counted_iff hw hinit
  refine ⟨hiff, fun hbal ops st hops hrun => ?_⟩
  have hstart : Counted ⟨s, []⟩ := ⟨hiff.mpr hbal, List.Pairwise.nil, fun _ hb => absurd hb List.not_mem_nil,
    fun _ hb => absurd hb List.not_mem_nil⟩
  have hI := run_invariant_along callStep (fun _ _ _ hI hC hstep => (hI.step hstep).2 hC) ops _ st hstart
    hops hrun
  exact ⟨hI.counter, fun op st' hstep => (hI.step hstep).1⟩

instance (s : Pmm) (count alignment index : ℕ) : Decidable (FirstFit s count alignment index) :=
  decidable_of_iff (index < s.length ∧ alignment ∣ index ∧ s.isBitmapPageFree index count = some true ∧
      ∀ j < index, alignment ∣ j → s.isBitmapPageFree j count = some false)
    ⟨fun h => ⟨h.1, h.2.1, h.2.2.1, h.2.2.2⟩, fun h => ⟨h.lt, h.dvd, h.free, h.first⟩⟩

instance (st : Live) : ∀ op : PmmOp, Decidable (StaysBelow st op)
  | .alloc count alignment => decidable_of_iff
      (∀ index < st.pmm.length, FirstFit st.pmm count alignment index → index + count ≤ st.pmm.length)
      ⟨fun h index hfit => h index hfit.lt hfit, fun h index _ => h index⟩
  | .free _ => inferInstanceAs (Decidable True)

/-- Four USABLE pages from page 3 on: the bitmap has not even one whole byte. -/
def fourPages : List MemmapEntry := [⟨0x3000, 0x4000, .usable, by decide⟩]

lemma wellFormed_four : WellFormed fourPages := by
  refine ⟨?_, ?_, ?_, List.pairwise_singleton _ _⟩ <;> decide

theorem free_pages_counted_four : ∃ s st, pmmInit fourPages (fun _ => true) = some s ∧
    run callStep ⟨s, []⟩ [.alloc 2 1, .alloc 1 2, .free ⟨0x3000, 2⟩] = some st ∧
    st.pmm.freePages = 3 ∧ st.pmm.freePages = st.pmm.clearPages :=
  ⟨_, _, rfl, rfl, rfl, ((free_pages_counted fourPages (fun _ => true) _ wellFormed_four rfl).2
    (by unfold Balanced; decide +kernel) [.alloc 2 1, .alloc 1 2, .free ⟨0x3000, 2⟩] _ (by decide +kernel) rfl).1⟩

/-- Sixteen USABLE pages: the first keeps the bitmap, 15 are free, and the counter says 16. -/
theorem free_pages_off_by_one : ∃ s, pmmInit sixteenPages (fun _ => true) = some s ∧
    s.freePages = 16 ∧ s.clearPages = 15 := ⟨_, rfl, rfl, by decide +kernel⟩

end WivOS.Pmm
