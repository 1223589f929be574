/-
# Starting a program in a process

`elf_load` and `execve` of `kernel/modules/modules.c`, on the bytes of the files, the page tables, and the threads. The
environment of a call are the files that `kopen` finds and the answers of `pmm_alloc`; `kmalloc` finds memory.

`execve` does not look at what `elf_load` returns: a file that cannot be opened is the one failure that leaves the
process alone (`execve_keeps_iff`). One with a bad header takes the place of the program (`execve_badHeader`), and a segment
that there are no pages for stops the call (`execve_noPages`).
-/
import WivOS.Loader.Elf
import WivOS.Mem.VmmSpace
import WivOS.Tasking.Scheduler
import WivOS.Utils.Strings

namespace WivOS.Loader

open Elf Function List Option Utils Vmm
open Scheduler (Tasks Entry maxThreads execClear threadRecreate schedulerAddTask)

structure Env where
  files : List Byte → Option (List Byte)
  /-- The variables for the headers in the two calls of `elf_load`, before they are read. -/
  stack : List Byte
  ldStack : List Byte
  supply : ℕ → Word
  kernel : KernelImage

variable (env : Env)

def kopen (path : List Byte) : Option (List Byte) := env.files (chars path)

/-! ### `elf_load` -/

structure ElfValue where
  entry : ℕ
  phdr : ℕ
  phent : ℕ
  phnum : ℕ

def pokeByte (vm : Vm) (addr : Word) (b : Byte) : Vm :=
  let p := addr &&& ~~~ 0xFFF#64
  let i := Fin.ofNat 512 (addr.toNat / 8)
  let shift := 8 * (addr.toNat % 8)
  vm.poke p i ((vm.mem p i &&& ~~~ (0xFF#64 <<< shift)) ||| (b.setWidth 64 <<< shift))

def pokeBytes : List Byte → Word → Vm → Vm
  | [], _, vm => vm
  | b :: bytes, addr, vm => pokeBytes bytes (addr + 1) (pokeByte vm addr b)

/-- The variables of the loop of `elf_load`, and `node->offset`. -/
structure Loading where
  phdr : ℕ
  ldPath : Option (List Byte)
  pos : ℕ
  vm : Vm

def readLdPath (file : List Byte) (pheader : ProgramHeader) (l : Loading) : Option Loading := do
  let block ← kmalloc true ((pheader.fileSize + 1) % 2 ^ 64)
  let (path, pos) ← readAt file l.pos pheader.fileOffset pheader.fileSize block.bytes
  let path ← storeByte path pheader.fileSize 0
  some { l with ldPath := some path, pos }

/-- A round of the loop up to the pages: `some none` for a header without them. `wanted` is whether the caller asks for
the path of the linker. -/
def enterSegment (file : List Byte) (base : ℕ) (wanted : Bool) (l : Loading) (pheader : ProgramHeader) :
    Option (Option Loading) :=
  if pheader.type = 0x3 then
    if wanted then (readLdPath file pheader l).map some else some none
  else if pheader.type = 0x6 then some (some { l with phdr := (base + pheader.virtualAddress) % 2 ^ 64 })
  else if pheader.type = 0x1 then some (some l)
  else some none

/-- `pageCount` and the answer of `pmm_alloc`, which for no pages is the page 0. -/
def segmentPages (pheader : ProgramHeader) (vm : Vm) : ℕ × Word × Vm :=
  let misalign := pheader.virtualAddress % 0x1000
  let pageCount := (misalign + pheader.memorySize + 0xFFF) % 2 ^ 64 / 0x1000
  (pageCount, if pageCount = 0 then (0, vm) else pmmAlloc env.supply pageCount vm)

/-- The pages of a segment. Without them `kfree` gets the `NULL`, and reads from the last page of the addresses. -/
def mapSegment (file : List Byte) (pml4 : Word) (base : ℕ) (pheader : ProgramHeader) (l : Loading) : Option Loading :=
  let (pageCount, address, vm) := segmentPages env pheader l.vm
  if address = 0 then none
  else
    (vmmMap env.supply pml4 (BitVec.ofNat 64 (base + pheader.virtualAddress)) address pageCount
      (if pheader.flags &&& 0x2 ≠ 0 then 0x7 else 0x5) vm).map fun r =>
        { l with
          pos := readEnd file l.pos pheader.fileOffset pheader.fileSize
          vm := pokeBytes (dataAt file l.pos pheader.fileOffset pheader.fileSize)
            (address + BitVec.ofNat 64 (pheader.virtualAddress % 0x1000)) r.2 }

def loadSegment (file : List Byte) (pml4 : Word) (base : ℕ) (wanted : Bool) (l : Loading) (pheader : ProgramHeader) :
    Option Loading := do
  match ← enterSegment file base wanted l pheader with
  | some l => mapSegment env file pml4 base pheader l
  | none => some l

def loadSegments (file programTable : List Byte) (pml4 : Word) (base : ℕ) (wanted : Bool) (l : Loading) (n : ℕ) :
    Option Loading :=
  (List.range n).foldlM
    (fun l i => (programHeaderAt programTable i).bind (loadSegment env file pml4 base wanted l)) l

def readPrograms (file : List Byte) (header : Header) : Option (List Byte × ℕ) :=
  readTable file (headerEnd file) header.programHeaderTableAddress header.programHeaderEntryCount
    header.programHeaderEntrySize

/-- `elf_load`: what it returns, `*value` and `*out_ld_path` afterwards, and the memory. -/
def elfLoad (file stack : List Byte) (pml4 : Word) (base : ℕ) (wanted : Bool) (vm : Vm) :
    Option (Bool × ElfValue × Option (List Byte) × Vm) := do
  let header ← readHeader file stack
  if ¬ header.Valid then some (false, ⟨0, 0, 0, 0⟩, none, vm)
  else
    let count := header.programHeaderEntryCount
    let (table, pos) ← readPrograms file header
    let l ← loadSegments env file table pml4 base wanted ⟨0, none, pos, vm⟩ count
    some (true, ⟨(base + header.entryAddress) % 2 ^ 64, l.phdr, 56, count⟩, l.ldPath, l.vm)

/-- `elf_load` rejects the file for its header. -/
def BadHeader (file stack : List Byte) : Prop := ∃ header, readHeader file stack = some header ∧ ¬ header.Valid

/-- `elf_load` comes to a segment that `pmm_alloc` has no pages for, and rejects the file. -/
def NoPages (file stack : List Byte) (pml4 : Word) (base : ℕ) (wanted : Bool) (vm : Vm) : Prop :=
  ∃ header table pos i l pheader l', readHeader file stack = some header ∧ header.Valid ∧
    readPrograms file header = some (table, pos) ∧ i < header.programHeaderEntryCount ∧
    loadSegments env file table pml4 base wanted ⟨0, none, pos, vm⟩ i = some l ∧
    programHeaderAt table i = some pheader ∧ enterSegment file base wanted l pheader = some (some l') ∧
    (segmentPages env pheader l'.vm).2.1 = 0

def Rejected (file stack : List Byte) (pml4 : Word) (base : ℕ) (wanted : Bool) (vm : Vm) : Prop :=
  BadHeader file stack ∨ NoPages env file stack pml4 base wanted vm

/-! ### `execve` -/

structure Context where
  rip : ℕ
  memoryStackPhys : Word

/-- The processes: their page tables, their `current_alloc_address` and their threads. -/
structure System where
  vm : Vm
  pageTable : ℕ → Pt
  currentAllocAddress : ℕ → ℕ
  contexts : ℕ → Context
  tasks : Tasks

def baseAllocAddress : ℕ := 0x0000780000000000

def stackLocationTop : Word := 0x0000800000000000

/-- The second loop over the threads gives the stacks back, that of thread 0 apart. -/
def freeStacks (table : ℕ → Entry) (contexts : ℕ → Context) (vm : Vm) : Vm :=
  (List.range' 1 (maxThreads - 1)).foldl (fun vm tid =>
    match table tid with
    | .thread t =>
      if (contexts t).memoryStackPhys = 0 then vm else vm.pmmFree ⟨(contexts t).memoryStackPhys, 4⟩
    | _ => vm) vm

/-- `thread_recreate` of thread 0. Only the kernel's process has no stack of its own; without memory for
the stack the call is taken to stop. -/
def recreate (s : System) (pid entry : ℕ) : Option (Option ℕ × System) :=
  match s.tasks.procs pid, threadRecreate s.tasks pid 0 with
  | some table, (some tid, tasks) =>
    match table tid with
    | .thread t =>
      if pid = 0 then some (some tid, { s with tasks, contexts := update s.contexts t ⟨entry, 0⟩ })
      else
        let memoryStack := pmmAlloc env.supply 4 s.vm
        let stackGuardPage := stackLocationTop - 0x5000
        if memoryStack.1 = 0 then none
        else
          (vmmMap env.supply (s.pageTable pid).entries (stackGuardPage + 0x1000) memoryStack.1 4 0x7 memoryStack.2).bind
          fun r => (vmmUnmap (s.pageTable pid).entries stackGuardPage 1 r.2).map fun r =>
            (some tid, { s with vm := r.2, tasks, contexts := update s.contexts t ⟨entry, memoryStack.1⟩ })
    | _ => some (none, s)
  | _, _ => some (none, s)

def loadProgram (program : List Byte) (pml4 : Word) (vm : Vm) : Option (ℕ × Vm) := do
  let (_, value, ldPath, vm) ← elfLoad env program env.stack pml4 0 true vm
  match ldPath with
  | none => some (value.entry, vm)
  | some ldPath =>
    -- without the file, `elf_load` reads nothing, and `kfree` gets the `NULL`
    let ld ← kopen env ldPath
    let (_, value, _, vm) ← elfLoad env ld env.ldStack pml4 0x40000000 false vm
    some (value.entry, vm)

def replace (s : System) (pid : ℕ) (table : ℕ → Entry) (pml4 : Pt) (entry : ℕ) (vm : Vm) : Option System := do
  let _ ← s.tasks.procs 0
  let vm := copyUpper (s.pageTable 0).entries pml4.entries vm
  let tasks ← execClear s.tasks pid
  let vm := freeStacks table s.contexts vm
  let oldPagemap := s.pageTable pid
  let s := { s with
    vm, tasks
    pageTable := update s.pageTable pid pml4
    currentAllocAddress := update s.currentAllocAddress pid baseAllocAddress }
  let (tid, s) ← recreate env s pid entry
  let (_, tasks) ← schedulerAddTask s.tasks pid tid
  let vm ← vmmFreePml4 oldPagemap s.vm
  some { s with vm, tasks }

def execve (s : System) (pid : ℕ) (filename : List Byte) : Option (Bool × System) := do
  let table ← s.tasks.procs pid
  match kopen env filename with
  | none => some (false, s)
  | some program =>
    let (pml4, vm) ← vmmSetupPml4 env.supply env.kernel s.vm
    let (entry, vm) ← loadProgram env program pml4.entries vm
    let s ← replace env s pid table pml4 entry vm
    some (true, s)

/-- The file cannot be opened or is rejected, or this holds for the file that its `PT_INTERP` names. -/
def Refused (s : System) (filename : List Byte) : Prop :=
  kopen env filename = none ∨ ∃ program pml4 vm, kopen env filename = some program ∧
    vmmSetupPml4 env.supply env.kernel s.vm = some (pml4, vm) ∧
    (Rejected env program env.stack pml4.entries 0 true vm ∨ ∃ value ldPath vm',
      elfLoad env program env.stack pml4.entries 0 true vm = some (true, value, some ldPath, vm') ∧
      (kopen env ldPath = none ∨ ∃ ld, kopen env ldPath = some ld ∧
        Rejected env ld env.ldStack pml4.entries 0x40000000 false vm'))

structure Kept (s s' : System) (pid : ℕ) : Prop where
  pageTable : s'.pageTable pid = s.pageTable pid
  notFreed : page (s.pageTable pid).entries ∈ s'.vm.frees → page (s.pageTable pid).entries ∈ s.vm.frees
  threads : s'.tasks.procs pid = s.tasks.procs pid ∧ s'.tasks.threads = s.tasks.threads ∧ s'.contexts = s.contexts
  active : s'.tasks.active = s.tasks.active
  currentAllocAddress : s'.currentAllocAddress pid = s.currentAllocAddress pid

section

variable {env : Env} {s : System} {pid : ℕ} {table : ℕ → Entry} {file stack program filename : List Byte} {pml4 : Word}
  {base : ℕ} {wanted : Bool} {vm : Vm}

/-! ### What `elf_load` does with a rejected file -/

lemma elfLoad_of_badHeader (h : BadHeader file stack) :
    elfLoad env file stack pml4 base wanted vm = some (false, ⟨0, 0, 0, 0⟩, none, vm) := by
  obtain ⟨header, hheader, hinvalid⟩ := h
  rw [elfLoad, hheader, bind_eq_bind, bind_some, if_pos hinvalid]

lemma loadSegment_of_noPages {l l' : Loading} {pheader : ProgramHeader}
    (henter : enterSegment file base wanted l pheader = some (some l'))
    (hpages : (segmentPages env pheader l'.vm).2.1 = 0) : loadSegment env file pml4 base wanted l pheader = none := by
  rw [loadSegment, henter, bind_eq_bind, bind_some]
  exact if_pos hpages

lemma elfLoad_of_noPages (h : NoPages env file stack pml4 base wanted vm) :
    elfLoad env file stack pml4 base wanted vm = none := by
  obtain ⟨header, programTable, pos, i, l, pheader, l', hheader, hvalid, htable, hi, hl, hpheader, henter, hpages⟩ := h
  obtain ⟨n, hn⟩ := Nat.exists_eq_add_of_lt hi
  have hrounds : List.range header.programHeaderEntryCount = List.range i ++ i :: (List.range' (i + 1) n) := by
    rw [List.range_eq_range', List.range_eq_range', hn, ← List.range'_succ, Nat.add_assoc, ← List.range'_append_1,
      Nat.zero_add]
  have hnone : loadSegments env file programTable pml4 base wanted ⟨0, none, pos, vm⟩ header.programHeaderEntryCount =
      none := by
    rw [loadSegments] at hl ⊢
    rw [hrounds, foldlM_append, hl, bind_eq_bind, bind_some, foldlM_cons, hpheader, bind_some,
      loadSegment_of_noPages henter hpages, bind_eq_bind, bind_none]
  rw [elfLoad, hheader, bind_eq_bind, bind_some, if_neg (not_not.mpr hvalid), htable, bind_eq_bind, bind_some]
  dsimp only
  rw [hnone, bind_eq_bind, bind_none]

/-! ### What `execve` does -/

lemma foldl_held {f : Vm → ℕ → Vm} (hf : ∀ vm i, (f vm i).held = vm.held) :
    ∀ (l : List ℕ) (vm : Vm), (l.foldl f vm).held = vm.held
  | [], _ => rfl
  | i :: l, vm => (foldl_held hf l (f vm i)).trans (hf vm i)

lemma execve_cases {result : Bool} {s' : System} (h : execve env s pid filename = some (result, s')) :
    (kopen env filename = none ∧ result = false ∧ s' = s) ∨ ((kopen env filename).isSome ∧ result = true) := by
  rw [execve, bind_eq_bind] at h
  obtain ⟨table, -, h⟩ := bind_eq_some_iff.mp h
  cases hopen : kopen env filename with
  | none =>
    rw [hopen] at h
    cases h
    exact Or.inl ⟨rfl, rfl, rfl⟩
  | some program =>
    rw [hopen] at h
    obtain ⟨r1, -, h⟩ := bind_eq_some_iff.mp h
    obtain ⟨r2, -, h⟩ := bind_eq_some_iff.mp h
    obtain ⟨s1, -, h⟩ := bind_eq_some_iff.mp h
    cases h
    exact Or.inr ⟨rfl, rfl⟩

lemma copyUpper_held (pml4 newPml4 : Word) (vm : Vm) : (copyUpper pml4 newPml4 vm).held = vm.held := by
  unfold copyUpper
  generalize List.range' 256 256 = l
  refine foldl_held (fun vm i => ?_) l vm
  rfl

lemma freeStacks_held (table : ℕ → Entry) (contexts : ℕ → Context) (vm : Vm) :
    (freeStacks table contexts vm).held = vm.held := by
  unfold freeStacks
  generalize List.range' 1 (maxThreads - 1) = l
  refine foldl_held (fun vm tid => ?_) l vm
  split
  · split <;> rfl
  · rfl

lemma vmmUnmap_returns {root : Word} (hfree : root ∉ vm.held) (addr : Word) (size : ℕ) :
    ∃ r vm', vmmUnmap root addr size vm = some (r, vm') ∧ vm'.held = vm.held := by
  have hlock : vm.lock root = some { vm with held := root :: vm.held } := if_neg hfree
  refine ⟨_, _, by rw [vmmUnmap, hlock, map_some], ?_⟩
  exact (vmmUnmapLoop_took root size size addr { vm with held := root :: vm.held }).unlock.held

lemma execve_noPages {new : Pt} (hopen : kopen env filename = some program)
    (hsetup : vmmSetupPml4 env.supply env.kernel s.vm = some (new, vm))
    (h : NoPages env program env.stack new.entries 0 true vm) : execve env s pid filename = none := by
  rw [execve, bind_eq_bind]
  refine bind_eq_none_iff.mpr fun table _ => ?_
  rw [hopen, hsetup]
  simp only [bind_some, loadProgram, elfLoad_of_noPages h, bind_eq_bind, bind_none]

lemma recreate_spec (hs : Supplied env.supply) (hfree : (s.pageTable pid).entries ∉ s.vm.held) (entry : ℕ) :
    ∃ tid s' r, recreate env s pid entry = some (tid, s') ∧ s'.pageTable = s.pageTable ∧
      s'.currentAllocAddress = s.currentAllocAddress ∧ s'.vm.held = s.vm.held ∧
        schedulerAddTask s'.tasks pid tid = some r := by
  have hnone : ∀ tasks : Tasks, ∃ r, schedulerAddTask tasks pid none = some r := by
    intro tasks
    unfold schedulerAddTask
    split <;> exact ⟨_, rfl⟩
  cases htable : s.tasks.procs pid with
  | none =>
    obtain ⟨r, hr⟩ := hnone s.tasks
    exact ⟨none, s, r, by rw [recreate, htable], rfl, rfl, rfl, hr⟩
  | some table =>
    cases hentry : table 0 with
    | null =>
      obtain ⟨r, hr⟩ := hnone s.tasks
      exact ⟨none, s, r, by simp only [recreate, threadRecreate, htable, hentry], rfl, rfl, rfl, hr⟩
    | deleted =>
      obtain ⟨r, hr⟩ := hnone s.tasks
      exact ⟨none, s, r, by simp only [recreate, threadRecreate, htable, hentry], rfl, rfl, rfl, hr⟩
    | thread t =>
      -- the thread that is added is the one made anew
      generalize htasks : { s.tasks with threads := update s.tasks.threads t ⟨pid, 0, none⟩ } = tasks
      have hadd : ∃ r, schedulerAddTask tasks pid (some 0) = some r := by
        have htable' : tasks.procs pid = some table := by rw [← htasks, htable]
        simp only [schedulerAddTask, htable', elim_some, hentry]
        split
        · exact ⟨_, rfl⟩
        · split <;> exact ⟨_, rfl⟩
      obtain ⟨r, hr⟩ := hadd
      simp only [recreate, threadRecreate, htable, hentry, htasks]
      by_cases hpid : pid = 0
      · rw [if_pos hpid]
        exact ⟨_, _, r, rfl, rfl, rfl, rfl, hr⟩
      · have hstack : (pmmAlloc env.supply 4 s.vm).1 ≠ 0 := (hs _).1
        have hfree0 : (s.pageTable pid).entries ∉ (pmmAlloc env.supply 4 s.vm).2.held := hfree
        obtain ⟨vm1, hmap, new, took⟩ := vmmMapAdvanced_returns hs hfree0
          (stackLocationTop - 0x5000 + 0x1000) (pmmAlloc env.supply 4 s.vm).1 4 0x7 false
        have hfree1 : (s.pageTable pid).entries ∉ vm1.held := by rw [took.held]; exact hfree
        obtain ⟨unmapped, vm2, hunmap, hheld⟩ := vmmUnmap_returns hfree1 (stackLocationTop - 0x5000) 1
        rw [if_neg hpid, if_neg hstack, vmmMap, hmap, bind_some, hunmap, map_some]
        exact ⟨_, _, r, rfl, rfl, rfl, hheld.trans took.held, hr⟩

/-- **A file whose header `elf_load` rejects** takes the place of the program all the same: the call returns
`true`, and the old page table is freed. -/
lemma execve_badHeader (hs : Supplied env.supply) (hproc : (s.tasks.procs pid).isSome)
    (hkernel : (s.tasks.procs 0).isSome)
    (hfree : (s.pageTable pid).entries ∉ s.vm.held) (hopen : kopen env filename = some program)
    (hrejected : BadHeader program env.stack) :
    ∃ s', execve env s pid filename = some (true, s') ∧ s'.pageTable pid = ⟨env.supply s.vm.allocs.length + 0x1000,
        env.supply (s.vm.allocs.length + 1)⟩ ∧ s'.currentAllocAddress pid = baseAllocAddress ∧
      page (s.pageTable pid).entries ∈ s'.vm.frees := by
  obtain ⟨table, htable⟩ := isSome_iff_exists.mp hproc
  obtain ⟨kernelTable, hkernelTable⟩ := isSome_iff_exists.mp hkernel
  obtain ⟨vm1, hsetup, -, hheld1⟩ := vmmSetupPml4_returns hs env.kernel s.vm
  generalize hpml4 : (⟨env.supply s.vm.allocs.length + 0x1000, env.supply (s.vm.allocs.length + 1)⟩ : Pt) =
    pml4 at hsetup ⊢
  have hload : loadProgram env program pml4.entries vm1 = some (0, vm1) := by
    rw [loadProgram, elfLoad_of_badHeader hrejected, bind_eq_bind, bind_some]
  obtain ⟨tasks, hclear⟩ : ∃ tasks, execClear s.tasks pid = some tasks := by
    rw [execClear, htable]
    exact ⟨_, rfl⟩
  -- the state in which thread 0 is made anew
  generalize hs2 : ({ s with
    vm := freeStacks table s.contexts (copyUpper (s.pageTable 0).entries pml4.entries vm1)
    tasks := tasks
    pageTable := update s.pageTable pid pml4
    currentAllocAddress := update s.currentAllocAddress pid baseAllocAddress } : System) = s2
  have hpageTable : s2.pageTable pid = pml4 := by
    rw [← hs2]
    exact update_self pid pml4 s.pageTable
  have hheld2 : s2.vm.held = s.vm.held.filter (· ≠ pml4.entries) := by
    rw [← hs2, freeStacks_held, copyUpper_held, hheld1, ← hpml4]
  have hfree2 : (s2.pageTable pid).entries ∉ s2.vm.held := by
    rw [hpageTable, hheld2, mem_filter]
    exact fun h => of_decide_eq_true h.2 rfl
  obtain ⟨tid, s3, r, hrecreate, hpageTable3, halloc3, hheld3, hadd⟩ := recreate_spec hs hfree2 0
  have hfree3 : (s.pageTable pid).entries ∉ s3.vm.held := by
    rw [hheld3, hheld2, mem_filter]
    exact fun h => hfree h.1
  obtain ⟨vm4, hfreed, hgiven, -⟩ := vmmFreePml4_returns hfree3
  have hreplace : replace env s pid table pml4 0 vm1 = some { s3 with vm := vm4, tasks := r.2 } := by
    simp only [replace, hkernelTable, hclear, bind_eq_bind, bind_some, hs2, hrecreate, hadd, hfreed]
  refine ⟨{ s3 with vm := vm4, tasks := r.2 }, ?_, ?_, ?_, hgiven⟩
  · simp only [execve, htable, hopen, bind_eq_bind, bind_some, hsetup, hload, hreplace]
  · exact (congrFun hpageTable3 pid).trans hpageTable
  · refine (congrFun halloc3 pid).trans ?_
    rw [← hs2]
    exact update_self pid baseAllocAddress s.currentAllocAddress

end

/-- **A failed `execve`.** It returns `false` and leaves the process as it was exactly if what failed was
to open the file itself. -/
theorem execve_keeps_iff (env : Env) (s : System) (pid : ℕ) (filename : List Byte)
    (hproc : (s.tasks.procs pid).isSome) :
    (Refused env s filename → ∃ s', execve env s pid filename = some (false, s') ∧ Kept s s' pid) ↔
      (Refused env s filename → kopen env filename = none) := by
  refine imp_congr_right fun _ => ⟨fun h => ?_, fun h => ?_⟩
  · obtain ⟨s', hexecve, -⟩ := h
    rcases execve_cases hexecve with ⟨hopen, -, -⟩ | ⟨-, hresult⟩
    · exact hopen
    · cases hresult
  · obtain ⟨table, htable⟩ := isSome_iff_exists.mp hproc
    refine ⟨s, ?_, rfl, fun h => h, ⟨rfl, rfl, rfl⟩, rfl, rfl⟩
    rw [execve, htable, bind_eq_bind, bind_some, h]

def emptyFileEnv : Env where
  files := fun path => if path = [0x61] then some [] else none
  stack := List.replicate 64 0
  ldStack := List.replicate 64 0
  supply := eightPages
  kernel := ⟨0xFFFFFFFF80000000, 0x100000, 0x1000⟩

def twoProcesses : System where
  vm := emptyVm
  pageTable := fun pid => if pid = 0 then ⟨0x100000, 0x101000⟩ else ⟨0x102000, 0x103000⟩
  currentAllocAddress := fun _ => baseAllocAddress + 0x5000
  contexts := fun _ => ⟨0x400000, 0⟩
  tasks := { Tasks.empty with
    threads := fun t => ⟨t, 0, none⟩
    next := 2
    procs := fun pid => if pid < 2 then some fun tid => if tid = 0 then .thread pid else .null else none }

/-- The empty file is rejected, but `execve` returns `true`. -/
theorem execve_takes_empty_file : BadHeader [] emptyFileEnv.stack ∧ Refused emptyFileEnv twoProcesses [0x61, 0] ∧
    ∃ s', execve emptyFileEnv twoProcesses 1 [0x61, 0] = some (true, s') ∧ s'.pageTable 1 ≠ twoProcesses.pageTable 1 ∧
      page (twoProcesses.pageTable 1).entries ∈ s'.vm.frees ∧
        s'.currentAllocAddress 1 ≠ twoProcesses.currentAllocAddress 1 := by
  have hrejected : BadHeader [] emptyFileEnv.stack := ⟨_, rfl, by decide +kernel⟩
  obtain ⟨vm, hsetup, -⟩ := vmmSetupPml4_returns eightPages_supplied emptyFileEnv.kernel twoProcesses.vm
  obtain ⟨s', hexecve, hpageTable, halloc, hfreed⟩ := @execve_badHeader emptyFileEnv twoProcesses 1 [] [0x61, 0]
    eightPages_supplied rfl rfl (by decide) rfl hrejected
  refine ⟨hrejected, .inr ⟨[], _, vm, rfl, hsetup, .inl (.inl hrejected)⟩, s', hexecve, ?_, hfreed, ?_⟩
  · rw [hpageTable]
    decide
  · rw [halloc]
    decide

theorem execve_keeps_missing_file : Refused emptyFileEnv twoProcesses [0x62, 0] ∧
    ∃ s', execve emptyFileEnv twoProcesses 1 [0x62, 0] = some (false, s') ∧ Kept twoProcesses s' 1 :=
  ⟨.inl rfl, (execve_keeps_iff emptyFileEnv twoProcesses 1 [0x62, 0] rfl).mpr (fun _ => rfl) (.inl rfl)⟩

end WivOS.Loader
