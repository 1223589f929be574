/-
# What an address is mapped to

The translation with pages of both sizes (`leafEntry`, `lookup`). `vmm_get_phys` of `kernel/mem/vmm.c` takes the same
walk, but does not look whether the last entry is present, and strips its low 12 bits only: the `NX` bit stays in the
address, and an unmapped page next to mapped ones has its offset for an address (`phys_of_unmapped`).
-/
import WivOS.Mem.VmmMap

namespace WivOS.Vmm

open Option Machine

def vmmNx : Word := 1#64 <<< 63

/-! ### The translation -/

/-- An entry that ends the walk, and whether it does so as a large page. -/
structure Mapping where
  entry : Word
  large : Bool
deriving DecidableEq

/-- The entry maps a page: it is present, and a large page starts at a multiple of its
size. -/
def Mapping.Valid (m : Mapping) : Prop :=
  m.entry &&& vmmPresent ≠ 0 ∧ (m.large = true → m.entry &&& 0x1FF000 = 0)

instance (m : Mapping) : Decidable m.Valid := inferInstanceAs (Decidable (_ ∧ _))

def Mapping.size (m : Mapping) : ℕ := if m.large then 0x200000 else 0x1000

def Mapping.mask (m : Mapping) : Word := if m.large then 0x1FFFFF else 0xFFF

def Mapping.offset (m : Mapping) (addr : Word) : Word := addr &&& m.mask

def Mapping.base (m : Mapping) : Word := m.entry &&& vmmAddrMask

def Mapping.phys (m : Mapping) (addr : Word) : Word := m.base + m.offset addr

def pageDirectory (mem : Word → Fin 512 → Word) (root : Word) (v : ℕ) : Option Word :=
  Radix.walk nextTable mem root [(offsets v).pml4Off, (offsets v).pdpOff]

def leafEntry (mem : Word → Fin 512 → Word) (root : Word) (v : ℕ) : Option Mapping :=
  (pageDirectory mem root v).bind fun pd =>
    if mem pd (offsets v).pdOff &&& vmmLarge ≠ 0 then some ⟨mem pd (offsets v).pdOff, true⟩
    else (nextTable (mem pd (offsets v).pdOff)).map fun pt => ⟨mem pt (offsets v).ptOff, false⟩

def lookup (mem : Word → Fin 512 → Word) (root : Word) (v : ℕ) : Option Mapping :=
  (leafEntry mem root v).bind fun m => if m.Valid then some m else none

variable {m : Mapping}

lemma lookup_eq_some {mem : Word → Fin 512 → Word} {root : Word} {v : ℕ} :
    lookup mem root v = some m ↔ leafEntry mem root v = some m ∧ m.Valid := by
  simp only [lookup, bind_eq_some_iff]
  constructor
  · rintro ⟨m', hm', h⟩
    split at h
    · cases h
      exact ⟨hm', by assumption⟩
    · cases h
  · rintro ⟨hm, hv⟩
    exact ⟨m, hm, if_pos hv⟩

/-! ### The call -/

/-- What `vmm_get_phys` returns for an entry that ends its walk. -/
def Mapping.strip (m : Mapping) (addr : Word) : Word := (m.entry &&& ~~~0xFFF#64) ||| m.offset addr

/-- The walk of `vmm_get_phys` and of a round of `vmm_read`: what they do where a table is
missing, and with the entry that they come to. -/
def walkTo {α : Type} (mem : Word → Fin 512 → Word) (root addr : Word) (missing : α) (found : Mapping → α) : α :=
  let offset := getAddrOffsets addr
  match vmmGetOrNull mem root offset.pml4Off with
  | none => missing
  | some pdp =>
    match vmmGetOrNull mem pdp offset.pdpOff with
    | none => missing
    | some pd =>
      if mem pd offset.pdOff &&& vmmLarge ≠ 0 then found ⟨mem pd offset.pdOff, true⟩
      else
        match vmmGetOrNull mem pd offset.pdOff with
        | none => missing
        | some pt => found ⟨mem pt offset.ptOff, false⟩

/-- `vmm_get_phys`; 0 is `NULL`. -/
def vmmGetPhys (root addr : Word) (st : Vm) : Option (Word × Vm) :=
  (st.lock root).map fun st => (walkTo st.mem root addr 0 fun m => m.strip addr, st.unlock root)

lemma pageDirectory_eq (mem : Word → Fin 512 → Word) (root : Word) (v : ℕ) :
    pageDirectory mem root v = (nextTable (mem root (offsets v).pml4Off)).bind fun pdp =>
      nextTable (mem pdp (offsets v).pdpOff) := by
  simp [pageDirectory, Radix.walk_cons]

lemma vmmGetOrNull_eq (mem : Word → Fin 512 → Word) (pt : Word) (i : Fin 512) :
    vmmGetOrNull mem pt i = nextTable (mem pt i) := rfl

lemma walkTo_eq {α : Type} (mem : Word → Fin 512 → Word) (root addr : Word) (missing : α) (found : Mapping → α) :
    walkTo mem root addr missing found = (leafEntry mem root (vpn addr)).elim missing found := by
  simp only [walkTo, leafEntry, pageDirectory_eq, getAddrOffsets_eq, vmmGetOrNull_eq]
  cases nextTable (mem root (offsets (vpn addr)).pml4Off) with
  | none => rfl
  | some pdp =>
    simp only [bind_some]
    cases nextTable (mem pdp (offsets (vpn addr)).pdpOff) with
    | none => rfl
    | some pd =>
      simp only [bind_some]
      split
      · rfl
      · cases nextTable (mem pd (offsets (vpn addr)).pdOff) with
        | none => rfl
        | some pt => rfl

/-! ### Addresses of pages -/

lemma Mapping.mask_and_nx (m : Mapping) : m.mask &&& vmmNx = 0 := by
  unfold Mapping.mask
  split <;> decide

lemma Mapping.offset_and_nx (m : Mapping) (addr : Word) : m.offset addr &&& vmmNx = 0 := by
  rw [Mapping.offset, BitVec.and_assoc, m.mask_and_nx]
  exact BitVec.and_zero

lemma Mapping.Valid.base_and_mask (h : m.Valid) : m.base &&& m.mask = 0 := by
  unfold Mapping.base Mapping.mask
  split
  · rename_i hlarge
    rw [BitVec.and_assoc, show vmmAddrMask &&& 0x1FFFFF = 0x1FF000 by decide, h.2 hlarge]
  · rw [BitVec.and_assoc, show vmmAddrMask &&& 0xFFF = 0 by decide]
    exact BitVec.and_zero

lemma Mapping.Valid.phys_eq_or (h : m.Valid) (addr : Word) : m.phys addr = m.base ||| m.offset addr := by
  refine BitVec.add_eq_or_of_and_eq_zero _ _ ?_
  rw [Mapping.offset, BitVec.and_comm addr, ← BitVec.and_assoc, h.base_and_mask]
  exact BitVec.zero_and

lemma strip_low (e : Word) : e &&& ~~~0xFFF#64 = (e &&& vmmAddrMask) ||| (e &&& vmmNx) := by
  rw [show ~~~0xFFF#64 = vmmAddrMask ||| vmmNx by decide, BitVec.and_or_distrib_left]

lemma strip_low_of_nx {e : Word} (h : e &&& vmmNx = 0) : e &&& ~~~0xFFF#64 = e &&& vmmAddrMask := by
  rw [strip_low, h]
  exact BitVec.or_zero

lemma Mapping.strip_and_nx (m : Mapping) (addr : Word) : m.strip addr &&& vmmNx = m.entry &&& vmmNx := by
  rw [Mapping.strip, BitVec.and_or_distrib_right, m.offset_and_nx, BitVec.and_assoc,
    show ~~~0xFFF#64 &&& vmmNx = vmmNx by decide]
  exact BitVec.or_zero

lemma Mapping.Valid.strip_eq_iff (h : m.Valid) (addr : Word) :
    m.strip addr = m.phys addr ↔ m.entry &&& vmmNx = 0 := by
  constructor
  · intro heq
    have hright : m.phys addr &&& vmmNx = 0 := by
      rw [h.phys_eq_or, BitVec.and_or_distrib_right, m.offset_and_nx, Mapping.base, BitVec.and_assoc,
        show vmmAddrMask &&& vmmNx = 0 by decide, show m.entry &&& (0 : Word) = 0 from BitVec.and_zero]
      exact BitVec.or_zero
    rw [← m.strip_and_nx addr, heq, hright]
  · intro hnx
    rw [Mapping.strip, strip_low_of_nx hnx, h.phys_eq_or, Mapping.base]

/-- The entry that ends the walk is that of a mapped page without the `NX` bit; or it
maps no page, holds no address, and the offset in the page is 0 as well. -/
def PhysExact (mem : Word → Fin 512 → Word) (root addr : Word) : Prop :=
  ∀ m, leafEntry mem root (vpn addr) = some m →
    if m.Valid then m.entry &&& vmmNx = 0 else m.entry &&& ~~~0xFFF#64 = 0 ∧ m.offset addr = 0

instance (mem : Word → Fin 512 → Word) (root addr : Word) : Decidable (PhysExact mem root addr) :=
  inferInstanceAs (Decidable (∀ m, _ = some m → _))

/-- **`vmm_get_phys` is the translation**, and `NULL` where there is none, exactly for the
addresses whose walk ends at a missing table, at a page without the `NX` bit, or, with an
offset of 0 in the page, at an empty entry. -/
theorem phys_exact (st : Vm) (root addr : Word) (hfree : root ∉ st.held) :
    vmmGetPhys root addr st = some ((lookup st.mem root (vpn addr)).elim 0 fun m => m.phys addr, st) ↔
      PhysExact st.mem root addr := by
  have hcall : vmmGetPhys root addr st = some (walkTo st.mem root addr 0 fun m => m.strip addr, st) := by
    rw [vmmGetPhys, show st.lock root = some { st with held := root :: st.held } from if_neg hfree, map_some,
      Vm.unlock, List.erase_cons_head]
  rw [hcall, some.injEq, Prod.mk.injEq, and_iff_left rfl, walkTo_eq, lookup, PhysExact]
  cases leafEntry st.mem root (vpn addr) with
  | none => exact iff_of_true rfl fun _ h => by cases h
  | some m =>
    simp only [elim_some, bind_some, some.injEq, forall_eq']
    by_cases hv : m.Valid
    · rw [if_pos hv, if_pos hv]
      exact hv.strip_eq_iff addr
    · rw [if_neg hv, if_neg hv]
      exact BitVec.or_eq_zero_iff

theorem phys_exact_two : ∃ st, run (MapOp.step eightPages 0x1000) emptyVm [twoPages] = some st ∧
    lookup st.mem 0x1000 (vpn 0x1FF123) = some ⟨0xA003, false⟩ ∧ vmmGetPhys 0x1000 0x1FF123 st = some (0xA123, st) := by
  obtain ⟨st, hrun, hfree, hlookup, hexact⟩ : ∃ st,
      run (MapOp.step eightPages 0x1000) emptyVm [twoPages] = some st ∧ (0x1000 : Word) ∉ st.held ∧
        lookup st.mem 0x1000 (vpn 0x1FF123) = some ⟨0xA003, false⟩ ∧ PhysExact st.mem 0x1000 0x1FF123 :=
    exists_run _ (by decide +kernel)
  have hcall := (phys_exact st 0x1000 0x1FF123 hfree).mpr hexact
  rw [hlookup] at hcall
  exact ⟨st, hrun, hlookup, hcall⟩

/-- Pages 1 and 3 are mapped, page 3 with the `NX` bit. Address `0x2234` of the page
between them is not mapped, and `0x3010` is at `0xB010`. -/
theorem phys_of_unmapped : ∃ st, run (MapOp.step eightPages 0x1000) emptyVm
    [.map 0x1000 0xA000 1 3, .map 0x3000 0xB000 1 (3 ||| vmmNx)] = some st ∧
      lookup st.mem 0x1000 (vpn 0x2234) = none ∧ (vmmGetPhys 0x1000 0x2234 st).map Prod.fst = some 0x234 ∧
      (lookup st.mem 0x1000 (vpn 0x3010)).map (·.phys 0x3010) = some 0xB010 ∧
      (vmmGetPhys 0x1000 0x3010 st).map Prod.fst = some 0x800000000000B010 :=
  exists_run _ (by decide +kernel)

end WivOS.Vmm
