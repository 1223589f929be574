/-
# Page tables

`kernel/mem/vmm.c`: four levels of tables of 512 entries. A table is known by its physical address; `Vm.mem` is
physical memory, page by page and word by word. What `pmm_alloc` answers is a parameter: `supply k` is the address its
`k`-th call returns, and that block is zeroed. The calls made, the blocks given back, the locks held and the pages
stored into are recorded. A call that spins on a held lock, or stops on a failed allocation, is `none`.
-/
import Mathlib.Data.BitVec
import Mathlib.Data.Nat.Bitwise
import WivOS.Lib.Radix

namespace WivOS.Vmm

abbrev Word := BitVec 64

/-- `VMM_FLAG_MASK`, `VMM_ADDR_MASK` and the flags of an entry. -/
def vmmFlagMask : Word := 0xFFF#64 ||| (1#64 <<< 63)
def vmmAddrMask : Word := ~~~ vmmFlagMask
def vmmPresent : Word := 1#64 <<< 0
def vmmWrite : Word := 1#64 <<< 1
def vmmUser : Word := 1#64 <<< 2
def vmmLarge : Word := 1#64 <<< 7

/-- Blocks of physical memory, by address and number of pages. -/
structure Frames where
  addr : Word
  count : ℕ
deriving DecidableEq

def Frames.Has (b : Frames) (p : Word) : Prop :=
  (p - b.addr).toNat % 0x1000 = 0 ∧ (p - b.addr).toNat / 0x1000 < b.count

instance (b : Frames) (p : Word) : Decidable (b.Has p) := inferInstanceAs (Decidable (_ ∧ _))

/-- A table has entries. -/
instance neZero512 : NeZero 512 := ⟨by decide⟩

/-- Physical memory, and what has been asked of the allocator and the locks. -/
structure Vm where
  mem : Word → Fin 512 → Word
  allocs : List Frames
  frees : List Frames
  held : List Word
  stores : List Word

namespace Vm

def poke (st : Vm) (p : Word) (i : Fin 512) (w : Word) : Vm := { st with mem := Radix.write st.mem p i w }

def store (st : Vm) (pt : Word) (offset : Fin 512) (e : Word) : Vm :=
  { st.poke pt offset e with stores := pt :: st.stores }

/-- `spinlock_lock` on the lock of the table `root`: a held lock is never had. -/
def lock (st : Vm) (root : Word) : Option Vm :=
  if root ∈ st.held then none else some { st with held := root :: st.held }

def unlock (st : Vm) (root : Word) : Vm := { st with held := st.held.erase root }

@[simp] lemma unlock_mem (st : Vm) (root : Word) : (st.unlock root).mem = st.mem := rfl

@[simp] lemma unlock_allocs (st : Vm) (root : Word) : (st.unlock root).allocs = st.allocs := rfl

@[simp] lemma unlock_frees (st : Vm) (root : Word) : (st.unlock root).frees = st.frees := rfl

@[simp] lemma unlock_held (st : Vm) (root : Word) : (st.unlock root).held = st.held.erase root := rfl

def pmmFree (st : Vm) (b : Frames) : Vm := { st with frees := b :: st.frees }

end Vm

structure PtOffset where
  pml4Off : Fin 512
  pdpOff : Fin 512
  pdOff : Fin 512
  ptOff : Fin 512

def getAddrOffsets (addr : Word) : PtOffset where
  pml4Off := Fin.ofNat 512 ((addr &&& (0x1FF#64 <<< 39)) >>> 39).toNat
  pdpOff := Fin.ofNat 512 ((addr &&& (0x1FF#64 <<< 30)) >>> 30).toNat
  pdOff := Fin.ofNat 512 ((addr &&& (0x1FF#64 <<< 21)) >>> 21).toNat
  ptOff := Fin.ofNat 512 ((addr &&& (0x1FF#64 <<< 12)) >>> 12).toNat

def vmmGetOrNull (mem : Word → Fin 512 → Word) (pt : Word) (offset : Fin 512) : Option Word :=
  if mem pt offset &&& vmmPresent = 0 then none else some (mem pt offset &&& vmmAddrMask)

variable (supply : ℕ → Word)

def pmmAlloc (count : ℕ) (st : Vm) : Word × Vm :=
  let b : Frames := ⟨supply st.allocs.length, count⟩
  (b.addr, { st with
    mem := fun p => if b.Has p then fun _ => 0 else st.mem p
    allocs := b :: st.allocs })

/-- `vmm_get_or_alloc`; the call stops for good if no page is left. -/
def vmmGetOrAlloc (st : Vm) (pt : Word) (offset : Fin 512) (flags : Word) : Option (Word × Vm) :=
  if st.mem pt offset &&& vmmPresent = 0 then
    let a := pmmAlloc supply 1 st
    let st := a.2.store pt offset a.1
    if a.1 = 0 then none
    else
      let st := st.store pt offset (st.mem pt offset ||| (flags ||| vmmPresent))
      some (a.1 &&& vmmAddrMask, st)
  else some (st.mem pt offset &&& vmmAddrMask, st)

def vmmMapPage (root addr phys permissions : Word) (huge : Bool) (st : Vm) : Option Vm :=
  let offset := getAddrOffsets addr
  (vmmGetOrAlloc supply st root offset.pml4Off (vmmWrite ||| vmmUser)).bind fun (pdp, st) =>
  (vmmGetOrAlloc supply st pdp offset.pdpOff (vmmWrite ||| vmmUser)).bind fun (pd, st) =>
  if huge then some (st.store pd offset.pdOff (phys ||| permissions ||| vmmPresent ||| vmmLarge))
  else
    (vmmGetOrAlloc supply st pd offset.pdOff (vmmWrite ||| vmmUser)).map fun (pt, st) =>
      st.store pt offset.ptOff (phys ||| permissions ||| vmmPresent)

def vmmMapLoop (root permissions : Word) (huge : Bool) : ℕ → Word → Word → Vm → Option Vm
  | 0, _, _, st => some st
  | size + 1, addr, phys, st =>
    (vmmMapPage supply root addr phys permissions huge st).bind
      (vmmMapLoop root permissions huge size (addr + if huge then 0x200000 else 0x1000)
        (phys + if huge then 0x200000 else 0x1000))

/-- `vmm_map_advanced`. Its `return false` branches test pointers that
`vmm_get_or_alloc` never returns as `NULL`. -/
def vmmMapAdvanced (root addr phys : Word) (size : ℕ) (permissions : Word) (huge : Bool) (st : Vm) :
    Option (Bool × Vm) :=
  (st.lock root).bind fun st =>
    (vmmMapLoop supply root permissions huge size addr phys st).map fun st => (true, st.unlock root)

def vmmMap (root addr phys : Word) (size : ℕ) (permissions : Word) (st : Vm) : Option (Bool × Vm) :=
  vmmMapAdvanced supply root addr phys size permissions false st

def vmmMapHuge (root addr phys : Word) (size : ℕ) (permissions : Word) (st : Vm) : Option (Bool × Vm) :=
  vmmMapAdvanced supply root addr phys size permissions true st

/-- What one round of the loop of `vmm_unmap` does, with `size` pages left after
this one: give up, or go on with fewer pages at a later address. -/
def vmmUnmapPage (root addr : Word) (size : ℕ) (st : Vm) : Bool × ℕ × Word × Vm :=
  let offset := getAddrOffsets addr
  match vmmGetOrNull st.mem root offset.pml4Off with
  | none => (false, size, addr, st)
  | some pdp =>
    match vmmGetOrNull st.mem pdp offset.pdpOff with
    | none => (false, size, addr, st)
    | some pd =>
      if st.mem pd offset.pdOff &&& vmmLarge ≠ 0 then
        if size < 0x1FF then (false, size, addr, st)
        else (true, size - 0x1FF, addr + 0x200000, st.store pd offset.pdOff 0)
      else
        -- a missing table is the null pointer, and the store goes to page 0
        let pt := (vmmGetOrNull st.mem pd offset.pdOff).getD 0
        (true, size, addr + 0x1000, st.store pt offset.ptOff 0)

def vmmUnmapLoop (root : Word) : ℕ → ℕ → Word → Vm → Bool × Vm
  | _, 0, _, st => (true, st)
  | 0, _ + 1, _, st => (true, st)
  | fuel + 1, size + 1, addr, st =>
    match vmmUnmapPage root addr size st with
    | (false, _, _, st) => (false, st)
    | (true, size, addr, st) => vmmUnmapLoop root fuel size addr st

def vmmUnmap (root addr : Word) (size : ℕ) (st : Vm) : Option (Bool × Vm) :=
  (st.lock root).map fun st =>
    let r := vmmUnmapLoop root size size addr st
    (r.1, r.2.unlock root)

/-- The loop of `vmm_map_if_not_mapped`. It returns at the first page that is
already mapped, and unlocks only if a large page maps it. -/
def vmmMapIfNotMappedLoop (root permissions : Word) : ℕ → Word → Word → Vm → Option Vm
  | 0, _, _, st => some (st.unlock root)
  | size + 1, addr, phys, st =>
    let offset := getAddrOffsets addr
    (vmmGetOrAlloc supply st root offset.pml4Off (vmmWrite ||| vmmUser)).bind fun (pdp, st) =>
    (vmmGetOrAlloc supply st pdp offset.pdpOff (vmmWrite ||| vmmUser)).bind fun (pd, st) =>
    if st.mem pd offset.pdOff &&& vmmLarge ≠ 0 then some (st.unlock root)
    else
      (vmmGetOrAlloc supply st pd offset.pdOff (vmmWrite ||| vmmUser)).bind fun (pt, st) =>
        if st.mem pt offset.ptOff &&& vmmPresent ≠ 0 then some st
        else
          vmmMapIfNotMappedLoop root permissions size (addr + 0x1000) (phys + 0x1000)
            (st.store pt offset.ptOff (phys ||| permissions ||| vmmPresent))

def vmmMapIfNotMapped (root addr phys : Word) (size : ℕ) (permissions : Word) (st : Vm) : Option Vm :=
  (st.lock root).bind (vmmMapIfNotMappedLoop supply root permissions size addr phys)

/-! ### Copying a page table -/

def vmmEntriesToVirtAddr (pml4Entry pdptEntry pdEntry ptEntry : ℕ) : Word :=
  ((BitVec.ofNat 64 pml4Entry &&& 0x1FF) <<< 39) ||| ((BitVec.ofNat 64 pdptEntry &&& 0x1FF) <<< 30) |||
    ((BitVec.ofNat 64 pdEntry &&& 0x1FF) <<< 21) ||| ((BitVec.ofNat 64 ptEntry &&& 0x1FF) <<< 12)

def memcpyPages (dest src : Word) (count : ℕ) (st : Vm) : Vm :=
  { st with mem := fun p => if (Frames.mk dest count).Has p then st.mem (src + (p - dest)) else st.mem p }

structure Copy where
  vm : Vm
  pool : Word
  poolPtr : ℕ

def poolSize : ℕ := 4096

def refill (c : Copy) : Copy :=
  if c.poolPtr = poolSize then
    let a := pmmAlloc supply poolSize c.vm
    ⟨a.2, a.1, 0⟩
  else c

def copyPt (newPml4 pt : Word) (i j k : ℕ) (c : Copy) (l : ℕ) : Option Copy :=
  if c.vm.mem pt (Fin.ofNat 512 l) &&& 1 = 0 then some c
  else
    let c := refill supply c
    let newPage := c.pool + BitVec.ofNat 64 (c.poolPtr * 0x1000)
    let vm := memcpyPages newPage (c.vm.mem pt (Fin.ofNat 512 l) &&& vmmAddrMask) 1 c.vm
    (vmmMap supply newPml4 (vmmEntriesToVirtAddr i j k l) newPage 1 (vm.mem pt (Fin.ofNat 512 l) &&& vmmFlagMask)
      vm).map fun r => ⟨r.2, c.pool, c.poolPtr + 1⟩

def copyPd (newPml4 pd : Word) (i j : ℕ) (c : Copy) (k : ℕ) : Option Copy :=
  if c.vm.mem pd (Fin.ofNat 512 k) &&& vmmLarge = 0 then
    match vmmGetOrNull c.vm.mem pd (Fin.ofNat 512 k) with
    | none => some c
    | some pt => (List.range 512).foldlM (copyPt supply newPml4 pt i j k) c
  else
    let a := pmmAlloc supply 0x200 c.vm
    let vm := memcpyPages a.1 (a.2.mem pd (Fin.ofNat 512 k) &&& vmmAddrMask) 0x200 a.2
    (vmmMapHuge supply newPml4 (vmmEntriesToVirtAddr i j k 0) a.1 1 (vm.mem pd (Fin.ofNat 512 k) &&& vmmFlagMask)
      vm).map fun r => ⟨r.2, c.pool, c.poolPtr⟩

def copyPdp (newPml4 pdp : Word) (i : ℕ) (c : Copy) (j : ℕ) : Option Copy :=
  match vmmGetOrNull c.vm.mem pdp (Fin.ofNat 512 j) with
  | none => some c
  | some pd => (List.range 512).foldlM (copyPd supply newPml4 pd i j) c

def copyEntry (pml4 newPml4 : Word) (c : Copy) (i : ℕ) : Option Copy :=
  match vmmGetOrNull c.vm.mem pml4 (Fin.ofNat 512 i) with
  | none => some c
  | some pdp => (List.range 512).foldlM (copyPdp supply newPml4 pdp i) c

def copyUpper (pml4 newPml4 : Word) (st : Vm) : Vm :=
  (List.range' 256 256).foldl (fun st i => st.store newPml4 (Fin.ofNat 512 i) (st.mem pml4 (Fin.ofNat 512 i))) st

/-- `kmalloc(sizeof(pt_t *))`: a header page, with the number of pages and the
size, and a page for the `pt_t`. -/
def kmallocPt (st : Vm) : Word × Vm :=
  let a := pmmAlloc supply 2 st
  if a.1 = 0 then (0, a.2) else (a.1 + 0x1000, (a.2.poke a.1 0 1).poke a.1 1 8)

def copyStart (pml4 : Word) (st : Vm) : Option (Word × Copy) :=
  let pool := pmmAlloc supply poolSize st
  (pool.2.lock pml4).map fun st =>
    let pt := kmallocPt supply st
    let new := pmmAlloc supply 1 pt.2
    -- `new_pml4->entries`, and its lock is free
    let st := new.2.poke pt.1 0 new.1
    (new.1, ⟨{ st with held := st.held.filter (· ≠ new.1) }, pool.1, 0⟩)

def vmmCopyPml4 (pml4 : Word) (st : Vm) : Option (Word × Vm) :=
  (copyStart supply pml4 st).bind fun (new, c) =>
    ((List.range 256).foldlM (copyEntry supply pml4 new) c).map fun c =>
      let st := c.vm.pmmFree ⟨c.pool + BitVec.ofNat 64 (c.poolPtr * 0x1000), poolSize - c.poolPtr⟩
      (new, (copyUpper pml4 new st).unlock pml4)

/-! ### Words -/

lemma and_present_ne_zero (a f : Word) : (a ||| (f ||| vmmPresent)) &&& vmmPresent ≠ 0 := by
  intro h
  rw [← BitVec.or_assoc, BitVec.and_or_distrib_right] at h
  exact absurd (BitVec.or_eq_zero_iff.mp h).2 (by decide)

variable {p f : Word}

lemma and_large_eq_zero (hp : p &&& vmmFlagMask = 0) : p &&& vmmLarge = 0 := by
  rw [show vmmLarge = vmmFlagMask &&& vmmLarge by decide, ← BitVec.and_assoc, hp]
  rfl

lemma flags_or_addr (e : Word) : (e &&& vmmFlagMask) ||| (e &&& vmmAddrMask) = e := by
  rw [← BitVec.and_or_distrib_left, show vmmFlagMask ||| vmmAddrMask = BitVec.allOnes 64 by decide, BitVec.and_allOnes]

lemma and_addr_of_aligned (hp : p &&& vmmFlagMask = 0) : p &&& vmmAddrMask = p := by
  have h := flags_or_addr p
  rwa [hp, show (0 : Word) ||| (p &&& vmmAddrMask) = p &&& vmmAddrMask from BitVec.zero_or] at h

lemma entry_addr (hp : p &&& vmmFlagMask = 0) (hf : f &&& vmmAddrMask = 0) : (p ||| f) &&& vmmAddrMask = p := by
  rw [BitVec.and_or_distrib_right, hf, and_addr_of_aligned hp]
  exact BitVec.or_zero

lemma entry_flags (hp : p &&& vmmFlagMask = 0) (hf : f &&& vmmAddrMask = 0) : (p ||| f) &&& vmmFlagMask = f := by
  have h := flags_or_addr f
  rw [hf] at h
  rw [BitVec.and_or_distrib_right, hp, BitVec.or_comm]
  exact h

lemma vmmAddrMask_testBit (i : ℕ) : vmmAddrMask.toNat.testBit i = (decide (12 ≤ i) && decide (i < 63)) := by
  rw [show vmmAddrMask.toNat = (2 ^ 51 - 1) * 2 ^ 12 by decide, Nat.testBit_mul_two_pow, Nat.testBit_two_pow_sub_one]
  by_cases h : 12 ≤ i
  · simp only [h, decide_true, Bool.true_and, decide_eq_decide]
    omega
  · simp [h]

lemma flags_of_low (hf : f.toNat < 0x1000) : f &&& vmmAddrMask = 0 := by
  apply BitVec.eq_of_toNat_eq
  apply Nat.eq_of_testBit_eq
  intro i
  rw [BitVec.toNat_and, Nat.testBit_and, vmmAddrMask_testBit]
  by_cases h : 12 ≤ i
  · have hlt : f.toNat < 2 ^ i := lt_of_lt_of_le hf (Nat.pow_le_pow_right Nat.zero_lt_two h)
    simp [Nat.testBit_lt_two_pow hlt]
  · simp [h]

lemma aligned_iff : p &&& vmmFlagMask = 0 ↔ p.toNat % 0x1000 = 0 ∧ p.toNat < 2 ^ 63 := by
  have hlow : p &&& 0xFFF#64 = 0#64 ↔ p.toNat % 0x1000 = 0 := by
    rw [← BitVec.toNat_inj, BitVec.toNat_and, show (0xFFF#64).toNat = 2 ^ 12 - 1 by rfl, Nat.and_two_pow_sub_one_eq_mod]
    rfl
  have hhigh : p &&& (1#64 <<< 63) = 0#64 ↔ p.toNat < 2 ^ 63 := by
    have hlt := p.isLt
    rw [← BitVec.toNat_inj, BitVec.toNat_and, show (1#64 <<< 63).toNat = 2 ^ 63 by rfl, Nat.and_two_pow,
      Nat.testBit_eq_decide_div_mod_eq]
    simp only [BitVec.toNat_ofNat, Nat.zero_mod, Nat.mul_eq_zero, Bool.toNat_eq_zero, decide_eq_false_iff_not]
    omega
  show p &&& vmmFlagMask = 0#64 ↔ _
  rw [vmmFlagMask, BitVec.and_or_distrib_left, BitVec.or_eq_zero_iff, hlow, hhigh]

lemma field_toNat (a : Word) (s : ℕ) (hs : s + 9 ≤ 64) :
    ((a &&& (0x1FF#64 <<< s)) >>> s).toNat = a.toNat / 2 ^ s % 512 := by
  have h511 : (0x1FF#64 <<< s).toNat = (2 ^ 9 - 1) * 2 ^ s := by
    rw [BitVec.toNat_shiftLeft, Nat.shiftLeft_eq, Nat.mod_eq_of_lt]
    · rfl
    · have h : 2 ^ s * 2 ^ 9 ≤ 2 ^ 64 := by
        rw [← Nat.pow_add]
        exact Nat.pow_le_pow_right Nat.zero_lt_two hs
      have hpos : 0 < 2 ^ s := Nat.two_pow_pos s
      simp only [BitVec.toNat_ofNat]
      omega
  rw [BitVec.toNat_ushiftRight, BitVec.toNat_and, h511, Nat.shiftRight_eq_div_pow]
  apply Nat.eq_of_testBit_eq
  intro i
  rw [Nat.testBit_div_two_pow, Nat.testBit_and, Nat.testBit_mul_two_pow, Nat.testBit_two_pow_sub_one,
    show (512 : ℕ) = 2 ^ 9 by rfl, Nat.testBit_mod_two_pow, Nat.testBit_div_two_pow]
  by_cases hi : i < 9 <;> simp [hi, Nat.add_comm]

end WivOS.Vmm
