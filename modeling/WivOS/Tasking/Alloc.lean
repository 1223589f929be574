/-
# Memory for a process

`syscall_alloc` of `kernel/tasking/syscalls.c`, at an address that is asked for or at the bump pointer
`current_alloc_address`. The blocks that `pmm_alloc` finds are part of a call; without one it zeroes the start of
physical memory. The check of a requested address takes it for the number of pages, so a range may run into the kernel
half (`alloc_below_iff`). The bump pointer moves on before the memory is found, and past the stacks of the threads
(`allocs_apart_iff`).
-/
import WivOS.Mem.VmmSpace
import WivOS.Tasking.Fork
import WivOS.Tasking.SyscallBuffers

namespace WivOS.Alloc

open List Machine

open Fork (baseAllocAddress)
open Scheduler (maxThreads)
open Syscalls (syscallPrivilegeCheck syscallPrivilegeCheck_iff)
open Vmm (Vm Frames Supplied Built Mapped PhysRange translate vpn pageAt vmmMap)

abbrev Word := BitVec 64

def stackLocationTop : ℕ := 0x0000800000000000

structure Process where
  pageTable : Word
  currentAllocAddress : Word

/-- The call up to where it asks for memory: the address to map at, or `NULL`. The check of a requested
address gets that address, times the size of a page, as the size. -/
def allocAddress (p : Process) (requestedAddress requestedPages : Word) : Option Word × Process :=
  if requestedAddress ≠ 0 then
    if syscallPrivilegeCheck requestedAddress (requestedAddress * 0x1000) then (none, p) else (some requestedAddress, p)
  else if syscallPrivilegeCheck p.currentAllocAddress (requestedPages * 0x1000) then (none, p)
  else (some p.currentAllocAddress, { p with currentAllocAddress := p.currentAllocAddress + requestedPages * 0x1000 })

/-- What `pmm_alloc` does to the memory: the block that it returns is zeroed, also if it is `NULL`. -/
def zeroBlock (st : Vm) (b : Frames) : Vm := { st with mem := fun p => if b.Has p then fun _ => 0 else st.mem p }

def block (memory count : Word) : Frames := ⟨memory, (count * 0x1000).toNat / 0x1000⟩

/-- `syscall_alloc`; `memory` is what `pmm_alloc` returns. -/
def syscallAlloc (supply : ℕ → Word) (p : Process) (requestedAddress requestedPages memory : Word) (st : Vm) :
    Option (Word × Process × Vm) :=
  match allocAddress p requestedAddress requestedPages with
  | (none, p) => some (0, p, st)
  | (some mapAddress, p) =>
    let st := zeroBlock st (block memory requestedPages)
    if memory = 0 then some (0, p, st)
    else match vmmMap supply p.pageTable mapAddress memory requestedPages.toNat 0x07 st with
      | none => none
      | some (false, st) => some (0, p, st.pmmFree ⟨memory, requestedPages.toNat⟩)
      | some (true, st) => some (mapAddress, p, st)

/-- A block lies in the direct map of physical memory, which is the upper half of the address space. -/
def Granted (memory pages : Word) : Prop :=
  memory ≠ 0 → memory.toNat % 0x1000 = 0 ∧ memory.toNat + pages.toNat * 0x1000 ≤ 2 ^ 47

def mappedPages (p : Process) (requestedAddress requestedPages memory : Word) : List ℕ :=
  match (allocAddress p requestedAddress requestedPages).1 with
  | none => []
  | some mapAddress =>
    if memory = 0 then [] else (List.range requestedPages.toNat).map fun i => vpn (pageAt mapAddress i)

section

variable {supply : ℕ → Word} {p : Process} {requestedAddress requestedPages memory mapAddress : Word} {st : Vm}

lemma Built.zeroBlock {root : Word} {b : Frames} (hB : Built root st) (hapart : ∀ t ∈ st.tables root, ¬ b.Has t) :
    Built root (zeroBlock st b) ∧ ((st.tables root).Nodup →
      ∀ v, translate (zeroBlock st b).mem root v = translate st.mem root v) := by
  have hmem : ∀ t ∈ st.tables root, (Alloc.zeroBlock st b).mem t = st.mem t := fun t ht => if_neg (hapart t ht)
  exact ⟨⟨hB.free, fun hnd => (hB.tree hnd).congr hmem⟩, fun hnd v => (hB.tree hnd).translate_congr hmem v⟩

lemma allocAddress_pageTable {p' : Process} {result : Option Word}
    (h : allocAddress p requestedAddress requestedPages = (result, p')) : p'.pageTable = p.pageTable := by
  rw [allocAddress] at h
  split_ifs at h <;> cases h <;> rfl

/-- **What a call does to the page table.** It maps the pages of `mappedPages`, and leaves the others
alone. -/
theorem syscallAlloc_maps (hs : Supplied supply) (hB : Built p.pageTable st) (hnd : (st.tables p.pageTable).Nodup)
    (hgranted : Granted memory requestedPages)
    (hmemory : memory ≠ 0) (hapart : ∀ t ∈ st.tables p.pageTable, ¬ (block memory requestedPages).Has t) :
    ∃ r p' st', syscallAlloc supply p requestedAddress requestedPages memory st = some (r, p', st') ∧
      ((st'.tables p.pageTable).Nodup → ∀ v < 2 ^ 36,
        (v ∈ mappedPages p requestedAddress requestedPages memory → (translate st'.mem p.pageTable v).isSome) ∧
        (v ∉ mappedPages p requestedAddress requestedPages memory →
          translate st'.mem p.pageTable v = translate st.mem p.pageTable v)) := by
  obtain ⟨haligned, hbound⟩ := hgranted hmemory
  rw [syscallAlloc, mappedPages]
  rcases haddress : allocAddress p requestedAddress requestedPages with ⟨_ | mapAddress, p'⟩
  · exact ⟨_, _, _, rfl, fun _ _ _ => ⟨fun hv => absurd hv not_mem_nil, fun _ => rfl⟩⟩
  · have hpageTable : p'.pageTable = p.pageTable := allocAddress_pageTable haddress
    obtain ⟨hB', hsame⟩ := Built.zeroBlock hB hapart
    have hok : (Vmm.MapOp.map mapAddress memory requestedPages.toNat 0x07).Ok p.pageTable
        (zeroBlock st (block memory requestedPages)) := by
      refine ⟨by omega, ⟨haligned, by omega⟩, ?_⟩
      decide
    obtain ⟨st', hmap, -, hmapped⟩ := hB'.vmmMap hs hok
    dsimp only
    rw [if_neg hmemory, hpageTable, hmap]
    refine ⟨_, _, _, rfl, fun hnd' v hv => ?_⟩
    rw [if_neg hmemory, mem_map]
    refine ⟨fun hin => ?_, fun hout => ?_⟩
    · obtain ⟨i, hi, rfl⟩ := hin
      rw [(hmapped hnd').mapped i (mem_range.mp hi), Option.isSome_some]
    · rw [(hmapped hnd').frame v hv, hsame hnd]
      intro i hi heq
      exact hout ⟨i, mem_range.mpr hi, heq.symm⟩

lemma mappedPages_nil (h : (allocAddress p requestedAddress requestedPages).1 = none ∨ memory = 0) :
    mappedPages p requestedAddress requestedPages memory = [] := by
  rw [mappedPages]
  rcases h with h | h
  · rw [h]
  · split
    · rfl
    · exact if_pos h

lemma mappedPages_eq (h : (allocAddress p requestedAddress requestedPages).1 = some mapAddress) (hmemory : memory ≠ 0) :
    mappedPages p requestedAddress requestedPages memory =
      (List.range requestedPages.toNat).map fun i => vpn (pageAt mapAddress i) := by
  rw [mappedPages, h]
  exact if_neg hmemory

lemma toNat_pages {pages : Word} (h : pages.toNat * 0x1000 < 2 ^ 64) :
    (pages * 0x1000).toNat = pages.toNat * 0x1000 := by
  rw [BitVec.toNat_mul]
  exact Nat.mod_eq_of_lt h

lemma pages_below_iff {m : Word} {n : ℕ} (hm : m.toNat % 2 ^ 48 < 2 ^ 47) (hn : n ≤ 2 ^ 35) :
    (∀ v ∈ (List.range n).map fun i => vpn (pageAt m i), v * 0x1000 < 0x0000800000000000) ↔
      m.toNat % 2 ^ 48 / 0x1000 + n ≤ 2 ^ 35 := by
  have hvpn : vpn m = m.toNat % 2 ^ 48 / 0x1000 := by
    rw [vpn]
    omega
  constructor
  · intro h
    by_contra hlt
    have hmem : vpn (pageAt m (2 ^ 35 - vpn m)) ∈ (List.range n).map fun i => vpn (pageAt m i) := by
      refine mem_map.mpr ⟨_, mem_range.mpr ?_, rfl⟩
      omega
    have hbelow := h _ hmem
    rw [Vmm.vpn_pageAt] at hbelow
    omega
  · intro hle v hv
    obtain ⟨i, hi, rfl⟩ := mem_map.mp hv
    have hi := mem_range.mp hi
    rw [Vmm.vpn_pageAt, hvpn]
    omega

end

/-- **Where a call maps.** With a requested address, all pages are in the user half exactly if the range
ends there, or the call is refused for bit 47 of `a` or of `a * 4097`, or there is no memory. Without one
they always are. -/
theorem alloc_below_iff (p : Process) (requestedAddress requestedPages memory : Word)
    (haligned : requestedAddress.toNat % 0x1000 = 0) (hgranted : Granted memory requestedPages) :
    (∀ v ∈ mappedPages p requestedAddress requestedPages memory, v * 0x1000 < 0x0000800000000000) ↔
      requestedAddress = 0 ∨ memory = 0 ∨ 2 ^ 47 ≤ requestedAddress.toNat % 2 ^ 48 ∨
        2 ^ 47 ≤ (requestedAddress.toNat * 0x1001) % 2 ^ 48 ∨
        requestedAddress.toNat % 2 ^ 48 + requestedPages.toNat * 0x1000 ≤ 2 ^ 47 := by
  by_cases hmemory : memory = 0
  · refine iff_of_true (fun v hv => ?_) (.inr (.inl hmemory))
    rw [mappedPages_nil (.inr hmemory)] at hv
    cases hv
  obtain ⟨hmem, hbound⟩ := hgranted hmemory
  have hpos : 0 < memory.toNat := Nat.pos_of_ne_zero fun h => hmemory (BitVec.eq_of_toNat_eq h)
  have hpages : requestedPages.toNat < 2 ^ 35 := by omega
  by_cases haddress : requestedAddress = 0
  · refine iff_of_true ?_ (.inl haddress)
    by_cases hcheck : syscallPrivilegeCheck p.currentAllocAddress (requestedPages * 0x1000) = true
    · rw [mappedPages_nil (.inl (by rw [allocAddress, if_neg (not_not_intro haddress), if_pos hcheck]))]
      exact fun v hv => by cases hv
    · rw [mappedPages_eq (by rw [allocAddress, if_neg (not_not_intro haddress), if_neg hcheck]) hmemory]
      obtain ⟨hbase, hend⟩ := (syscallPrivilegeCheck_iff _ _).mp (Bool.not_eq_true _ ▸ hcheck)
      rw [toNat_pages (by omega)] at hend
      exact (pages_below_iff hbase (by omega)).mpr (by omega)
  · have hproduct : (requestedAddress.toNat + (requestedAddress * 0x1000).toNat) % 2 ^ 48 =
        requestedAddress.toNat * 0x1001 % 2 ^ 48 := by
      rw [BitVec.toNat_mul, show (0x1000 : Word).toNat = 0x1000 by rfl]
      omega
    have hnonzero : requestedAddress.toNat ≠ 0 := fun h => haddress (BitVec.eq_of_toNat_eq h)
    have hiff := syscallPrivilegeCheck_iff requestedAddress (requestedAddress * 0x1000)
    rw [hproduct] at hiff
    by_cases hcheck : syscallPrivilegeCheck requestedAddress (requestedAddress * 0x1000) = true
    · rw [mappedPages_nil (.inl (by rw [allocAddress, if_pos haddress, if_pos hcheck]))]
      refine iff_of_true (fun v hv => by cases hv) (.inr (.inr ?_))
      have hrefused := mt hiff.mpr (by rw [hcheck]; decide)
      omega
    · rw [mappedPages_eq (by rw [allocAddress, if_pos haddress, if_neg hcheck]) hmemory]
      obtain ⟨hbase, hend⟩ := hiff.mp (Bool.not_eq_true _ ▸ hcheck)
      rw [pages_below_iff hbase (by omega)]
      simp only [haddress, hmemory, false_or]
      omega

theorem alloc_below_one : Granted 0x200000 1 ∧
    ((∀ v ∈ mappedPages ⟨0x1000, 0⟩ 0x400000 1 0x200000, v * 0x1000 < 0x0000800000000000) ↔
    (0x400000 : Word) = 0 ∨ (0x200000 : Word) = 0 ∨ 2 ^ 47 ≤ (0x400000 : Word).toNat % 2 ^ 48 ∨
      2 ^ 47 ≤ ((0x400000 : Word).toNat * 0x1001) % 2 ^ 48 ∨
      (0x400000 : Word).toNat % 2 ^ 48 + (1 : Word).toNat * 0x1000 ≤ 2 ^ 47) :=
  ⟨fun _ => by decide, alloc_below_iff ⟨0x1000, 0⟩ 0x400000 1 0x200000 (by decide) fun _ => by decide⟩

/-- Two pages from the last one of the user half on: the second one is the first of the kernel half. -/
theorem alloc_maps_kernel_page :
    2 ^ 35 ∈ mappedPages ⟨0x1000, BitVec.ofNat 64 baseAllocAddress⟩ 0x7FFFFFFFF000 2 0x200000 ∧
    (syscallAlloc Vmm.eightPages ⟨0x1000, BitVec.ofNat 64 baseAllocAddress⟩ 0x7FFFFFFFF000 2 0x200000 Vmm.emptyVm).map
      (fun r => (r.1, Vmm.translate r.2.2.mem 0x1000 (2 ^ 35))) = some (0x7FFFFFFFF000, some (0x201000, 7)) := by
  decide +kernel

/-! ### Calls without an address -/

/-- Where `thread_create` puts the stack of a thread: four pages above the guard page. -/
def stackGuardPage (tid : ℕ) : ℕ := stackLocationTop - 0x5000 * (tid + 1)
def stackBottom (tid : ℕ) : ℕ := stackGuardPage tid + 0x1000

abbrev Range := ℕ × ℕ

def Apart (x y : Range) : Prop := x.1 + x.2 ≤ y.1 ∨ y.1 + y.2 ≤ x.1

instance (x y : Range) : Decidable (Apart x y) := inferInstanceAs (Decidable (_ ∨ _))

def stack (tid : ℕ) : Range := (stackBottom tid, 0x4000)

structure State where
  process : Process
  vm : Vm
  ranges : List Range

structure Request where
  pages : Word
  memory : Word
  granted : Granted memory pages

def Request.exec (supply : ℕ → Word) (s : State) (q : Request) : Option (Word × State) :=
  (syscallAlloc supply s.process 0 q.pages q.memory s.vm).map fun r =>
    (r.1, ⟨r.2.1, r.2.2, if r.1 = 0 then s.ranges else s.ranges ++ [(r.1.toNat, q.pages.toNat * 0x1000)]⟩)

def Request.step (supply : ℕ → Word) (s : State) (q : Request) : Option State := (q.exec supply s).map Prod.snd

/-- What a call should do: without a result it leaves the process and its page table alone; and the ranges
returned are apart from each other and from the stacks. -/
structure Serves (s : State) (result : Word) (s' : State) : Prop where
  failed : result = 0 → s'.process = s.process ∧
    ∀ v, translate s'.vm.mem s.process.pageTable v = translate s.vm.mem s.process.pageTable v
  apart : s'.ranges.Pairwise Apart
  threads : ∀ x ∈ s'.ranges, ∀ tid < maxThreads, Apart x (stack tid)

/-- The call is refused; or memory is found, and the range ends below the stacks; or none is asked for. -/
def Fits (s : State) (q : Request) : Prop :=
  syscallPrivilegeCheck s.process.currentAllocAddress (q.pages * 0x1000) = true ∨
    if q.memory = 0 then q.pages.toNat % 2 ^ 52 = 0
    else s.process.currentAllocAddress.toNat + q.pages.toNat * 0x1000 ≤ stackBottom (maxThreads - 1)

instance (s : State) (q : Request) : Decidable (Fits s q) := inferInstanceAs (Decidable (_ ∨ _))

/-- What the calls keep: the ranges end at the bump pointer, below the stacks. -/
structure Inv (s : State) : Prop where
  lower : baseAllocAddress ≤ s.process.currentAllocAddress.toNat
  upper : s.process.currentAllocAddress.toNat ≤ stackBottom (maxThreads - 1)
  below : ∀ x ∈ s.ranges, x.1 + x.2 ≤ s.process.currentAllocAddress.toNat
  apart : s.ranges.Pairwise Apart
  lock : s.process.pageTable ∉ s.vm.held

section

variable {supply : ℕ → Word} {s s' : State} {q : Request}

lemma stackBottom_le {tid : ℕ} (h : tid < maxThreads) : stackBottom (maxThreads - 1) ≤ stackBottom tid := by
  have hle : 0x5000 * (tid + 1) ≤ 0x5000 * (maxThreads - 1 + 1) := Nat.mul_le_mul_left _ h
  exact Nat.add_le_add_right (Nat.sub_le_sub_left hle _) _

lemma Inv.threads (h : Inv s) : ∀ x ∈ s.ranges, ∀ tid < maxThreads, Apart x (stack tid) := by
  intro x hx tid htid
  refine .inl ?_
  calc x.1 + x.2 ≤ s.process.currentAllocAddress.toNat := h.below x hx
    _ ≤ stackBottom (maxThreads - 1) := h.upper
    _ ≤ stackBottom tid := stackBottom_le htid

lemma stackBottom_last : stackBottom (maxThreads - 1) = 2 ^ 47 - 0x4FF000 := rfl

lemma exec_refused (hcheck : syscallPrivilegeCheck s.process.currentAllocAddress (q.pages * 0x1000) = true) :
    q.exec supply s = some (0, s) := by
  rw [Request.exec, syscallAlloc, allocAddress, if_neg (not_not_intro rfl), if_pos hcheck]
  rfl

def advanced (s : State) (q : Request) : Process :=
  { s.process with currentAllocAddress := s.process.currentAllocAddress + q.pages * 0x1000 }

lemma exec_failed (hcheck : ¬ syscallPrivilegeCheck s.process.currentAllocAddress (q.pages * 0x1000) = true)
    (hmemory : q.memory = 0) :
    q.exec supply s = some (0, ⟨advanced s q, zeroBlock s.vm (block q.memory q.pages), s.ranges⟩) := by
  rw [Request.exec, syscallAlloc, allocAddress, if_neg (not_not_intro rfl), if_neg hcheck]
  dsimp only
  rw [if_pos hmemory]
  rfl

lemma exec_mapped (hs : Supplied supply) (hlock : s.process.pageTable ∉ s.vm.held)
    (hcheck : ¬ syscallPrivilegeCheck s.process.currentAllocAddress (q.pages * 0x1000) = true) (hmemory : q.memory ≠ 0)
    (hpos : s.process.currentAllocAddress ≠ 0) : ∃ vm, vm.held = s.vm.held ∧ q.exec supply s =
      some (s.process.currentAllocAddress, ⟨advanced s q, vm,
        s.ranges ++ [(s.process.currentAllocAddress.toNat, q.pages.toNat * 0x1000)]⟩) := by
  have hlock : s.process.pageTable ∉ (zeroBlock s.vm (block q.memory q.pages)).held := hlock
  obtain ⟨vm, hmap, new, took⟩ := Vmm.vmmMapAdvanced_returns hs hlock s.process.currentAllocAddress q.memory
    q.pages.toNat
    0x07 false
  refine ⟨vm, took.held, ?_⟩
  rw [Request.exec, syscallAlloc, allocAddress, if_neg (not_not_intro rfl), if_neg hcheck]
  dsimp only
  rw [if_neg hmemory, vmmMap, hmap]
  dsimp only [Option.map_some]
  rw [if_neg hpos]
  rfl

lemma toNat_bytes (pages : Word) : (pages * 0x1000).toNat = pages.toNat % 2 ^ 52 * 0x1000 := by
  rw [BitVec.toNat_mul, show (0x1000 : Word).toNat = 0x1000 by rfl]
  omega

lemma mul_page_eq_zero {pages : Word} (h : pages.toNat % 2 ^ 52 = 0) : pages * 0x1000 = 0 := by
  apply BitVec.eq_of_toNat_eq
  rw [toNat_bytes, h]
  rfl

lemma zeroBlock_none {memory pages : Word} (h : pages.toNat % 2 ^ 52 = 0) (st : Vm) :
    zeroBlock st (block memory pages) = st := by
  have hnone : ∀ p, ¬ (block memory pages).Has p := by
    intro p hp
    have hcount : (block memory pages).count = 0 := by
      rw [block, toNat_bytes, h]
    have hlt := hp.2
    rw [hcount] at hlt
    exact Nat.not_lt_zero _ hlt
  rw [zeroBlock, funext fun p => if_neg (hnone p)]

lemma failed_iff (h : Inv s) : Serves s 0 ⟨advanced s q, zeroBlock s.vm (block q.memory q.pages), s.ranges⟩ ↔
    q.pages.toNat % 2 ^ 52 = 0 := by
  constructor
  · intro hserves
    have hsame : s.process.currentAllocAddress + q.pages * 0x1000 = s.process.currentAllocAddress :=
      congrArg Process.currentAllocAddress (hserves.failed rfl).1
    have hbytes : q.pages * 0x1000 = 0 := by
      simpa using hsame
    have hzero := toNat_bytes q.pages
    rw [hbytes, show (0 : Word).toNat = 0 by rfl] at hzero
    omega
  · intro hnone
    rw [advanced, mul_page_eq_zero hnone, add_zero, zeroBlock_none hnone]
    exact ⟨fun _ => ⟨rfl, fun _ => rfl⟩, h.apart, h.threads⟩

lemma toNat_advanced (hupper : s.process.currentAllocAddress.toNat ≤ stackBottom (maxThreads - 1))
    (hmemory : q.memory ≠ 0) :
    (advanced s q).currentAllocAddress.toNat = s.process.currentAllocAddress.toNat + q.pages.toNat * 0x1000 := by
  have hbound := (q.granted hmemory).2
  rw [stackBottom_last] at hupper
  rw [advanced, BitVec.toNat_add, toNat_pages (by omega)]
  omega

lemma Inv.mapped (h : Inv s) {vm : Vm} (hheld : vm.held = s.vm.held) (hmemory : q.memory ≠ 0)
    (hfit : s.process.currentAllocAddress.toNat + q.pages.toNat * 0x1000 ≤ stackBottom (maxThreads - 1)) :
    Inv ⟨advanced s q, vm, s.ranges ++ [(s.process.currentAllocAddress.toNat, q.pages.toNat * 0x1000)]⟩ := by
  have haddress := toNat_advanced h.upper hmemory
  refine ⟨?_, ?_, ?_, ?_, ?_⟩
  · rw [haddress]
    exact Nat.le_add_right_of_le h.lower
  · rw [haddress]
    exact hfit
  · intro x hx
    rw [haddress]
    rcases mem_append.mp hx with hx | hx
    · exact Nat.le_add_right_of_le (h.below x hx)
    · rw [mem_singleton.mp hx]
  · rw [pairwise_append]
    refine ⟨h.apart, pairwise_singleton _ _, fun x hx y hy => ?_⟩
    rw [mem_singleton.mp hy]
    exact .inl (h.below x hx)
  · rw [hheld]
    exact h.lock

/-- **One call**: it returns, it does what it should exactly if its range fits, and then it keeps the
invariant. -/
lemma Inv.serves_iff (hs : Supplied supply) (h : Inv s) (q : Request) :
    ∃ r s', q.exec supply s = some (r, s') ∧ (Serves s r s' ↔ Fits s q) ∧ (Fits s q → Inv s') := by
  by_cases hcheck : syscallPrivilegeCheck s.process.currentAllocAddress (q.pages * 0x1000) = true
  · exact ⟨0, s, exec_refused hcheck, iff_of_true ⟨fun _ => ⟨rfl, fun _ => rfl⟩, h.apart, h.threads⟩ (.inl hcheck),
      fun _ => h⟩
  rw [Fits, or_iff_right hcheck]
  by_cases hmemory : q.memory = 0
  · rw [if_pos hmemory]
    refine ⟨_, _, exec_failed hcheck hmemory, failed_iff h, fun hnone => ?_⟩
    rw [zeroBlock_none hnone, advanced, mul_page_eq_zero hnone, add_zero]
    exact h
  · rw [if_neg hmemory]
    have hpos : s.process.currentAllocAddress ≠ 0 := by
      intro hzero
      have hlower := h.lower
      rw [hzero] at hlower
      exact absurd hlower (by decide)
    obtain ⟨vm, hheld, hexec⟩ := exec_mapped hs h.lock hcheck hmemory hpos
    refine ⟨_, _, hexec, ⟨fun hserves => ?_, fun hfit => ?_⟩, h.mapped hheld hmemory⟩
    · -- the range starts below the lowest stack, so it is apart from it only if it ends there
      have hlast := hserves.threads _ (mem_append_right _ (mem_singleton.mpr rfl)) (maxThreads - 1) (by decide)
      have hupper := h.upper
      rcases hlast with hle | hle
      · exact hle
      · exact absurd (Nat.le_trans hle hupper) (by rw [stack]; omega)
    · have hinv := h.mapped hheld hmemory hfit
      exact ⟨fun hzero => absurd hzero hpos, hinv.apart, hinv.threads⟩

structure Start (s : State) : Prop where
  address : s.process.currentAllocAddress = BitVec.ofNat 64 baseAllocAddress
  ranges : s.ranges = []
  lock : s.process.pageTable ∉ s.vm.held

lemma Start.inv (h : Start s) : Inv s := by
  have haddress : s.process.currentAllocAddress.toNat = baseAllocAddress := by
    rw [h.address]
    rfl
  refine ⟨Nat.le_of_eq haddress.symm, ?_, ?_, ?_, h.lock⟩
  · rw [haddress]
    decide
  · rw [h.ranges]
    exact fun x hx => by cases hx
  · rw [h.ranges]
    exact List.Pairwise.nil

end

/-- **Runs of calls without an address.** As long as every call fits, they all return, and the ranges are
apart from each other and from the stacks. The next call then does what it should exactly if it fits. -/
theorem allocs_apart_iff {supply : ℕ → Word} (hs : Supplied supply) {s₀ : State} (hstart : Start s₀)
    (calls : List Request) (hfits : Along (Request.step supply) Fits s₀ calls) :
    ∃ s, run (Request.step supply) s₀ calls = some s ∧ s.ranges.Pairwise Apart ∧
      (∀ x ∈ s.ranges, ∀ tid < maxThreads, Apart x (stack tid)) ∧
      ∀ q : Request, ∃ r s', q.exec supply s = some (r, s') ∧ (Serves s r s' ↔ Fits s q) := by
  have hstep : ∀ s q, Inv s → Fits s q → ∃ s', Request.step supply s q = some s' ∧ Inv s' := by
    intro s q h hfit
    obtain ⟨r, s', hexec, -, hinv⟩ := h.serves_iff hs q
    exact ⟨s', by rw [Request.step, hexec]; rfl, hinv hfit⟩
  obtain ⟨s, hrun, h⟩ := run_total_along _ hstep calls s₀ hstart.inv hfits
  refine ⟨s, hrun, h.apart, h.threads, fun q => ?_⟩
  obtain ⟨r, s', hexec, hiff, -⟩ := h.serves_iff hs q
  exact ⟨r, s', hexec, hiff⟩

def fresh : State := ⟨⟨0x1000, BitVec.ofNat 64 baseAllocAddress⟩, Vmm.emptyVm, []⟩

def twoCalls : List Request := [⟨1, 0x200000, fun _ => by decide⟩, ⟨0x80000000, 0, fun h => absurd rfl h⟩]

theorem allocs_apart_two : Along (Request.step Vmm.eightPages) Fits fresh twoCalls ∧
    ∃ s, run (Request.step Vmm.eightPages) fresh twoCalls = some s ∧ s.ranges.Pairwise Apart ∧
      (∀ x ∈ s.ranges, ∀ tid < maxThreads, Apart x (stack tid)) ∧
      ∀ q : Request, ∃ r s', q.exec Vmm.eightPages s = some (r, s') ∧ (Serves s r s' ↔ Fits s q) := by
  have hfits : Along (Request.step Vmm.eightPages) Fits fresh twoCalls := by
    decide +kernel
  exact ⟨hfits, allocs_apart_iff Vmm.eightPages_supplied ⟨rfl, rfl, by decide⟩ twoCalls hfits⟩

/-- No memory for one page: the call returns `NULL`, and the bump pointer has moved. -/
theorem alloc_failed_moves : fresh.process.currentAllocAddress = 0x780000000000 ∧
    (Request.exec Vmm.eightPages fresh ⟨1, 0, fun h => absurd rfl h⟩).map
      (fun r => (r.1, r.2.process.currentAllocAddress)) = some (0, 0x780000001000) := by
  decide

end WivOS.Alloc
