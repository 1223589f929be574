/-
# System calls on file handles

`kernel/tasking/syscalls.c` with `process_create`, `module_load_node` and the state `kentry_threaded` leaves behind. A
process has a table of 256 handles. A handle does not own its node: `fork` copies the table, and opening a mount point
puts the mounted node into it. `syscall_close` frees the node all the same, as does `module_load_node`. A system call
is one step; what the drivers and the file on disk answer is part of the call.
-/
import WivOS.Fs.Vfs
import WivOS.Lib.Machine

namespace WivOS.Syscalls

open List Option Machine

open Lifetime (Heap Event Safe)
open Vfs (Node Path MountTree Drivers kopen vfsMount mem_vfsMount kopen_spec)

abbrev Word := BitVec 64

def maxFileHandles : ℕ := 256

def maxProcesses : ℕ := 256

/-- An entry of `file_handles`: not given out (`-1`), closed (`NULL`), or a node. -/
inductive Handle where
  | unused
  | null
  | node (n : Node)
deriving DecidableEq

def Handle.node? : Handle → Option Node
  | node n => some n
  | _ => none

abbrev Handles := Fin maxFileHandles → Handle

/-- The nodes and their heap, the VFS tree, and the handles of each process. No
process is ever taken out of `SchedulerProcesses`, so the used entries come first. -/
structure Kernel where
  heap : Heap
  tree : MountTree
  procs : List Handles

namespace Kernel

def handle (st : Kernel) (pid : ℕ) (fd : ℤ) : Option Node :=
  if h : 0 ≤ fd ∧ fd < maxFileHandles then
    (st.procs[pid]?).bind fun table => (table ⟨fd.toNat, by omega⟩).node?
  else none

def setHandle (st : Kernel) (pid : ℕ) (fd : ℤ) (x : Handle) : Kernel :=
  { st with procs := st.procs.modify pid fun table i => if (i : ℤ) = fd then x else table i }

def vfsOp (st : Kernel) (n : Node) : Kernel := { st with heap := st.heap.use n }

def kfree (st : Kernel) (n : Node) : Kernel := { st with heap := st.heap.free n }

def mountNew (st : Kernel) (path : Path) : Kernel :=
  { st with heap := st.heap.alloc.2, tree := vfsMount path st.heap.alloc.1 st.tree }

end Kernel

def syscallPrivilegeCheck (base size : Word) : Bool :=
  base &&& 0x800000000000 ≠ 0 || (base + size) &&& 0x800000000000 ≠ 0

/-! ### Modules -/

/-- What `module_load_node` checks of the header. -/
structure ElfHeader where
  magic : BitVec 32
  x86Flag : BitVec 8
  bigEndianFlag : BitVec 8
  instructionSet : BitVec 16

def ElfHeader.Valid (h : ElfHeader) : Prop :=
  ¬ (h.magic ≠ 0x464C457F ∨ h.x86Flag ≠ 0x2 ∨ h.bigEndianFlag ≠ 0x1 ∨ h.instructionSet ≠ 0x3E)

instance (h : ElfHeader) : Decidable h.Valid := inferInstanceAs (Decidable (¬ _))

/-- A section; `relocated` says whether its relocations, if it has any, can all be
applied. -/
structure ElfSection where
  name : Path
  type : BitVec 32
  flags : Word
  relocated : Bool

/-- What is read from a module's file, the first section left out. If the module
has a `module_info_` symbol, its init function mounts new nodes at the paths
`moduleInfo`. -/
structure ElfFile where
  header : ElfHeader
  sections : List ElfSection
  moduleInfo : Option (List Path)

def relocate : List ElfSection → ℕ × Bool
  | [] => (0, true)
  | s :: ss =>
    if s.type = 0x4 then
      if s.relocated then ((relocate ss).1 + 1, (relocate ss).2) else (1, false)
    else relocate ss

/-- How often the file is read after its header: the section table and the section
names, the string table, the dependencies, the contents, the symbols, and the
relocations. -/
def ElfFile.reads (elf : ElfFile) : ℕ :=
  2 + elf.sections.countP (fun s => s.type = 0x3 ∧ s.name = ['.', 's', 't', 'r', 't', 'a', 'b'])
    + elf.sections.countP (fun s => s.type = 0x1 ∧ s.name = ['m', 'o', 'd', 'd', 'e', 'p', 's'])
    + elf.sections.countP (fun s => s.type = 0x1 ∧ s.flags &&& 0x7 ≠ 0)
    + 1 + (relocate elf.sections).1

def readTimes (n : Node) : ℕ → Kernel → Kernel
  | 0, st => st
  | k + 1, st => readTimes n k ((st.vfsOp n).vfsOp n)

/-- `module_load_node`. A file that is no module is closed and its node freed. -/
def moduleLoadNode (elf : ElfFile) (elfNode : Node) (st : Kernel) : Bool × Kernel :=
  let st := readTimes elfNode 1 st
  if ¬ elf.header.Valid then (false, (st.vfsOp elfNode).kfree elfNode)
  else
    let st := readTimes elfNode elf.reads st
    if (relocate elf.sections).2 then
      match elf.moduleInfo with
      | some paths => (true, paths.foldl Kernel.mountNew st)
      | none => (false, st)
    else (false, st)

/-! ### The calls -/

variable (st : Kernel) (pid : ℕ)

/-- The part that all calls on a handle share: a bad handle is an error. -/
def onNode (fd : ℤ) (f : Node → Option (Word × Kernel)) : Option (Word × Kernel) :=
  match st.handle pid fd with
  | some node => f node
  | none => some (-1, st)

/-- The loop of `syscall_read` and `syscall_write`. `rets` is what the driver returns,
call by call; the loop does not end if it needs more. -/
def transfer (node : Node) (length : Word) : List Word → Word → Kernel → Option (Word × Kernel)
  | [], currentIndex, st => if currentIndex < length then none else some (currentIndex, st)
  | retValue :: rets, currentIndex, st =>
    if currentIndex < length then
      let step := if length < currentIndex + 16777216 then length % 16777216 else 16777216
      let st := st.vfsOp node
      if retValue < step then some (currentIndex + retValue, st)
      else transfer node length rets (currentIndex + retValue) st
    else some (currentIndex, st)

def syscallTransfer (fd : ℤ) (buffer length : Word) (rets : List Word) : Option (Word × Kernel) :=
  if syscallPrivilegeCheck buffer length then some (-1, st)
  else onNode st pid fd fun node => transfer node length rets 0 st

def syscallRead := syscallTransfer st pid

def syscallWrite := syscallTransfer st pid

def syscallSeek (fd : ℤ) (retValue : Word) : Option (Word × Kernel) :=
  onNode st pid fd fun node => some (retValue, st.vfsOp node)

def syscallIoctl := syscallSeek st pid

def freeHandle (table : Handles) : Option (Fin maxFileHandles) :=
  (List.finRange maxFileHandles).find? (table · = .unused)

def syscallOpen (drv : Drivers) (addr : Word) (path : Path) (mode : Word) : Option (Word × Kernel) :=
  if syscallPrivilegeCheck addr (BitVec.ofNat 64 (path.length + 1)) then some (-1, st)
  else (st.procs[pid]?).bind fun table =>
    match freeHandle table with
    | none => some (-1, st)
    | some fd =>
      match kopen drv st.tree path (mode.setWidth 32) st.heap with
      | (none, heap) => some (-1, { st with heap })
      | (some node, heap) => some (fd.val, Kernel.setHandle { st with heap } pid fd (.node node))

/-- `syscall_close`. The handle becomes `NULL`, which is never given out again. -/
def syscallClose (fd : ℤ) : Option (Word × Kernel) :=
  onNode st pid fd fun node => some (0, ((st.vfsOp node).kfree node).setHandle pid fd .null)

/-- `syscall_fork`. With no process left, `SchedulerProcesses[-1]` is read. -/
def syscallFork : Option (Word × Kernel) :=
  (st.procs[pid]?).bind fun table =>
    if st.procs.length < maxProcesses then
      some (BitVec.ofNat 64 st.procs.length, { st with procs := st.procs ++ [table] })
    else none

def syscallLoadModule (fd : ℤ) (elf : ElfFile) : Option (Word × Kernel) :=
  onNode st pid fd fun node =>
    let r := moduleLoadNode elf node st
    some (if r.1 then 0 else -1, r.2)

inductive Syscall where
  | openPath (drv : Drivers) (addr : Word) (path : Path) (mode : Word)
  | close (fd : ℤ)
  | read (fd : ℤ) (buffer length : Word) (rets : List Word)
  | write (fd : ℤ) (buffer length : Word) (rets : List Word)
  | seek (fd : ℤ) (retValue : Word)
  | ioctl (fd : ℤ) (retValue : Word)
  | fork
  | loadModule (fd : ℤ) (elf : ElfFile)

def Syscall.call : Syscall → Option (Word × Kernel)
  | openPath drv addr path mode => syscallOpen st pid drv addr path mode
  | close fd => syscallClose st pid fd
  | read fd buffer length rets => syscallRead st pid fd buffer length rets
  | write fd buffer length rets => syscallWrite st pid fd buffer length rets
  | seek fd retValue => syscallSeek st pid fd retValue
  | ioctl fd retValue => syscallIoctl st pid fd retValue
  | fork => syscallFork st pid
  | loadModule fd elf => syscallLoadModule st pid fd elf

def Syscall.step (op : ℕ × Syscall) : Option Kernel :=
  if op.1 < st.procs.length then (op.2.call st op.1).map Prod.snd else none

/-- `vfs_init`: an empty tree, and devfs mounted in it. -/
def vfsInit : Kernel :=
  Kernel.mountNew { heap := ⟨0, []⟩, tree := .entry ['r', 'o', 'o', 't'] none [], procs := [] }
    ['/', 'd', 'e', 'v', '/']

/-- What `kentry_threaded` leaves behind: the file systems `mounts` are mounted, the
kernel's process has no handles, and handles 0, 1 and 2 of the init process are
the node opened for `/dev/log`. -/
def kentryThreaded (mounts : List Path) : Kernel :=
  let st := mounts.foldl Kernel.mountNew vfsInit
  { st with
    heap := st.heap.alloc.2
    procs := [fun _ => .unused, fun fd => if fd.val < 3 then .node st.heap.alloc.1 else .unused] }

/-! ### What a call does to the handles -/

variable {st : Kernel} {pid pid' : ℕ} {fd fd' : ℤ} {n : Node}

lemma handle_eq_some : st.handle pid fd = some n ↔
    ∃ table, st.procs[pid]? = some table ∧ ∃ i : Fin maxFileHandles, (i : ℤ) = fd ∧ table i = .node n := by
  constructor
  · intro h
    rw [Kernel.handle] at h
    split_ifs at h with hfd
    obtain ⟨table, htable, h⟩ := bind_eq_some_iff.mp h
    refine ⟨table, htable, ⟨fd.toNat, by omega⟩, Int.toNat_of_nonneg hfd.1, ?_⟩
    revert h
    cases table ⟨fd.toNat, by omega⟩ <;> simp [Handle.node?]
  · rintro ⟨table, htable, i, rfl, hi⟩
    have hfd : 0 ≤ (i : ℤ) ∧ (i : ℤ) < maxFileHandles := ⟨by omega, by exact_mod_cast i.isLt⟩
    rw [Kernel.handle, dif_pos hfd, htable]
    simp [hi, Handle.node?]

lemma handle_setHandle {x : Handle} (h : (st.setHandle pid fd x).handle pid' fd' = some n) :
    (pid' = pid ∧ fd' = fd ∧ x = .node n) ∨ (¬ (pid' = pid ∧ fd' = fd) ∧ st.handle pid' fd' = some n) := by
  obtain ⟨table', htable', i, rfl, hi⟩ := handle_eq_some.mp h
  rw [Kernel.setHandle, getElem?_modify, Option.map_eq_map, map_eq_some_iff] at htable'
  obtain ⟨table, htable, rfl⟩ := htable'
  by_cases hpid : pid' = pid
  · rw [if_pos hpid.symm] at hi
    by_cases hfd : (i : ℤ) = fd
    · rw [if_pos hfd] at hi
      exact .inl ⟨hpid, hfd, hi⟩
    · rw [if_neg hfd] at hi
      exact .inr ⟨fun hc => hfd hc.2, handle_eq_some.mpr ⟨table, htable, i, rfl, hi⟩⟩
  · rw [if_neg fun hc => hpid hc.symm] at hi
    exact .inr ⟨fun hc => hpid hc.1, handle_eq_some.mpr ⟨table, htable, i, rfl, hi⟩⟩

lemma handle_fork {table : Handles} (htable : st.procs[pid]? = some table)
    (h : Kernel.handle { st with procs := st.procs ++ [table] } pid' fd = some n) :
    ∃ pid'', st.handle pid'' fd = some n := by
  obtain ⟨table', htable', hi⟩ := handle_eq_some.mp h
  rcases Nat.lt_or_ge pid' st.procs.length with hlt | hge
  · rw [getElem?_append_left hlt] at htable'
    exact ⟨pid', handle_eq_some.mpr ⟨table', htable', hi⟩⟩
  · rw [getElem?_append_right hge] at htable'
    obtain rfl : table' = table := mem_singleton.mp (mem_of_getElem? htable')
    exact ⟨pid, handle_eq_some.mpr ⟨table', htable, hi⟩⟩

/-! ### The invariant -/

/-- No node was used or freed after it was freed, and the nodes the kernel can still
reach, through the tree or through a handle, are live. -/
structure Sound (st : Kernel) : Prop where
  good : st.heap.Good
  mounted : ∀ n ∈ st.tree.nodes, st.heap.Live n
  handles : ∀ pid fd n, st.handle pid fd = some n → st.heap.Live n

lemma Sound.kept (hs : Sound st) {heap : Heap} (hk : Heap.Kept st.heap heap) : Sound { st with heap } :=
  ⟨hk.good hs.good, fun n hn => hk.live n (hs.mounted n hn), fun pid fd n h => hk.live n (hs.handles pid fd n h)⟩

lemma Sound.vfsOp (hs : Sound st) (hn : st.heap.Live n) : Sound (st.vfsOp n) := hs.kept (.use hn)

lemma live_vfsOp {m : Node} (hn : st.heap.Live n) (hm : st.heap.Live m) : (st.vfsOp m).heap.Live n :=
  (Heap.Kept.use hm).live n hn

lemma Sound.setHandle (hs : Sound st) (hn : st.heap.Live n) (pid : ℕ) (fd : ℤ) :
    Sound (st.setHandle pid fd (.node n)) := by
  refine ⟨hs.good, hs.mounted, fun pid' fd' m h => ?_⟩
  rcases handle_setHandle h with ⟨-, -, hx⟩ | ⟨-, h⟩
  · exact Handle.node.inj hx ▸ hn
  · exact hs.handles pid' fd' m h

lemma Sound.mountNew (hs : Sound st) (path : Path) : Sound (st.mountNew path) := by
  have hk := Heap.Kept.alloc st.heap
  refine ⟨hk.good hs.good, fun n hn => ?_, fun pid fd n h => hk.live n (hs.handles pid fd n h)⟩
  rcases mem_vfsMount hn with rfl | hn
  · exact hs.good.live_alloc
  · exact hk.live n (hs.mounted n hn)

lemma Sound.mountAll : ∀ (paths : List Path) {st : Kernel}, Sound st → Sound (paths.foldl Kernel.mountNew st)
  | [], _, hs => hs
  | path :: paths, _, hs => Sound.mountAll paths (hs.mountNew path)

/-! ### The calls that free nothing -/

lemma Sound.transfer {length : Word} : ∀ {rets : List Word} {currentIndex r : Word} {st st' : Kernel},
    Sound st → st.heap.Live n → transfer n length rets currentIndex st = some (r, st') → Sound st'
  | [], currentIndex, r, st, st', hs, _, h => by
    rw [Syscalls.transfer] at h
    split_ifs at h
    cases h
    exact hs
  | retValue :: rets, currentIndex, r, st, st', hs, hn, h => by
    rw [Syscalls.transfer] at h
    by_cases hlt : currentIndex < length
    · rw [if_pos hlt] at h
      simp only at h
      generalize (if length < currentIndex + 16777216 then length % 16777216 else 16777216) = step at h
      split_ifs at h
      · cases h
        exact hs.vfsOp hn
      · exact Sound.transfer (hs.vfsOp hn) (live_vfsOp hn hn) h
    · rw [if_neg hlt] at h
      cases h
      exact hs

lemma Sound.readTimes : ∀ (k : ℕ) {st : Kernel}, Sound st → st.heap.Live n →
    Sound (readTimes n k st) ∧ (readTimes n k st).heap.Live n
  | 0, _, hs, hn => ⟨hs, hn⟩
  | k + 1, st, hs, hn => by
    have hn' := live_vfsOp hn hn
    exact Sound.readTimes k ((hs.vfsOp hn).vfsOp hn') (live_vfsOp hn' hn')

variable {r : Word} {st' : Kernel}

lemma Sound.openPath (hs : Sound st) {drv : Drivers} {addr mode : Word} {path : Path}
    (h : syscallOpen st pid drv addr path mode = some (r, st')) : Sound st' := by
  rw [syscallOpen] at h
  split_ifs at h
  · cases h
    exact hs
  · obtain ⟨table, -, h⟩ := bind_eq_some_iff.mp h
    split at h
    · cases h
      exact hs
    · split at h
      · rename_i hopen
        cases h
        exact hs.kept (kopen_spec hs.good hs.mounted hopen).1
      · rename_i node heap hopen
        cases h
        obtain ⟨hk, hl⟩ := kopen_spec hs.good hs.mounted hopen
        exact (hs.kept hk).setHandle (hl node rfl) pid _

lemma Sound.fork (hs : Sound st) (h : syscallFork st pid = some (r, st')) : Sound st' := by
  obtain ⟨table, htable, h⟩ := bind_eq_some_iff.mp h
  split_ifs at h
  cases h
  refine ⟨hs.good, hs.mounted, fun pid' fd n h => ?_⟩
  obtain ⟨pid'', h⟩ := handle_fork htable h
  exact hs.handles pid'' fd n h

/-! ### The calls that free a node -/

/-- No other handle refers to the node of this one, and it is not mounted. -/
def Unshared (st : Kernel) (pid : ℕ) (fd : ℤ) : Prop :=
  ∀ n, st.handle pid fd = some n → n ∉ st.tree.nodes ∧ ∀ pid' fd', st.handle pid' fd' = some n → pid' = pid ∧ fd' = fd

instance (st : Kernel) (pid : ℕ) (fd : ℤ) : Decidable (Unshared st pid fd) :=
  decidable_of_iff (∀ n ∈ (st.handle pid fd).toList, n ∉ st.tree.nodes ∧
      ∀ pid' < st.procs.length, ∀ i : Fin maxFileHandles, st.handle pid' i = some n → pid' = pid ∧ (i : ℤ) = fd) <| by
    simp only [mem_toList]
    refine forall₂_congr fun n _ => and_congr_right fun _ => ⟨fun h pid' fd' hn => ?_, fun h pid' _ i => h pid' i⟩
    obtain ⟨table, htable, i, rfl, -⟩ := handle_eq_some.mp hn
    exact h pid' (List.getElem?_eq_some_iff.mp htable).1 i hn

lemma Sound.close (hs : Sound st) (hu : Unshared st pid fd) (h : st.handle pid fd = some n) :
    Sound (((st.vfsOp n).kfree n).setHandle pid fd .null) := by
  have hn := hs.handles pid fd n h
  have hs' := hs.vfsOp hn
  have hn' := live_vfsOp hn hn
  obtain ⟨hmnt, honly⟩ := hu n h
  refine ⟨hs'.good.free hn', fun m hm => ?_, fun pid' fd' m hm => ?_⟩
  · exact (hs'.mounted m hm).free fun heq => hmnt (heq ▸ hm)
  · rcases handle_setHandle hm with ⟨-, -, hx⟩ | ⟨hne, hm⟩
    · exact absurd hx nofun
    · exact (hs'.handles pid' fd' m hm).free fun heq => hne (honly pid' fd' (heq ▸ hm))

lemma Sound.loadModule (hs : Sound st) {elf : ElfFile} (hv : elf.header.Valid) (hn : st.heap.Live n) :
    Sound (moduleLoadNode elf n st).2 := by
  obtain ⟨hs1, hn1⟩ := Sound.readTimes 1 hs hn
  obtain ⟨hs2, -⟩ := Sound.readTimes elf.reads hs1 hn1
  rw [moduleLoadNode, if_neg (not_not_intro hv)]
  simp only
  split_ifs
  · cases elf.moduleInfo with
    | none => exact hs2
    | some paths => exact Sound.mountAll paths hs2
  · exact hs2

/-! ### Runs -/

/-- A call that frees no node in use: a close of a handle that is the only way to
its node, or the load of a file that is a module. -/
def Syscall.Ok (st : Kernel) (op : ℕ × Syscall) : Prop :=
  match op.2 with
  | close fd => Unshared st op.1 fd
  | loadModule fd elf => st.handle op.1 fd ≠ none → elf.header.Valid
  | _ => True

instance (st : Kernel) : ∀ op : ℕ × Syscall, Decidable (Syscall.Ok st op)
  | (pid, .close fd) => inferInstanceAs (Decidable (Unshared st pid fd))
  | (pid, .loadModule fd elf) => inferInstanceAs (Decidable (st.handle pid fd ≠ none → elf.header.Valid))
  | (_, .openPath ..) | (_, .read ..) | (_, .write ..) | (_, .seek ..) | (_, .ioctl ..) | (_, .fork) =>
    isTrue trivial

lemma Sound.onNode (hs : Sound st) {f : Node → Option (Word × Kernel)}
    (hf : ∀ n, st.handle pid fd = some n → f n = some (r, st') → Sound st') (h : onNode st pid fd f = some (r, st')) :
    Sound st' := by
  rw [Syscalls.onNode] at h
  split at h
  · rename_i n hn
    exact hf n hn h
  · cases h
    exact hs

lemma Sound.syscallTransfer (hs : Sound st) {buffer length : Word} {rets : List Word}
    (h : syscallTransfer st pid fd buffer length rets = some (r, st')) : Sound st' := by
  rw [Syscalls.syscallTransfer] at h
  split_ifs at h
  · cases h
    exact hs
  · exact hs.onNode (fun n hn hf => hs.transfer (hs.handles pid fd n hn) hf) h

lemma Sound.syscallSeek (hs : Sound st) {retValue : Word} (h : syscallSeek st pid fd retValue = some (r, st')) :
    Sound st' := by
  refine hs.onNode (fun n hn hf => ?_) h
  cases hf
  exact hs.vfsOp (hs.handles pid fd n hn)

lemma Sound.step (hs : Sound st) {op : ℕ × Syscall} (hok : Syscall.Ok st op) (h : Syscall.step st op = some st') :
    Sound st' := by
  obtain ⟨pid, op⟩ := op
  rw [Syscall.step] at h
  split_ifs at h
  obtain ⟨⟨r, _⟩, hcall, rfl⟩ := map_eq_some_iff.mp h
  cases op with
  | openPath drv addr path mode => exact hs.openPath hcall
  | close fd =>
    refine hs.onNode (fun n hn hf => ?_) hcall
    cases hf
    exact hs.close hok hn
  | read fd buffer length rets => exact hs.syscallTransfer hcall
  | write fd buffer length rets => exact hs.syscallTransfer hcall
  | seek fd retValue => exact hs.syscallSeek hcall
  | ioctl fd retValue => exact hs.syscallSeek hcall
  | fork => exact hs.fork hcall
  | loadModule fd elf =>
    refine hs.onNode (fun n hn hf => ?_) hcall
    cases hf
    exact hs.loadModule (hok (by rw [hn]; exact some_ne_none n)) (hs.handles pid fd n hn)

lemma Sound.vfsInit : Sound vfsInit := by
  have hs : Sound ⟨⟨0, []⟩, .entry ['r', 'o', 'o', 't'] none [], []⟩ := by
    refine ⟨⟨List.Pairwise.nil, fun n hn => absurd hn not_mem_nil⟩, fun n hn => ?_, fun pid fd n h => ?_⟩
    · exact absurd hn not_mem_nil
    · obtain ⟨table, htable, -⟩ := handle_eq_some.mp h
      exact absurd htable nofun
  exact hs.mountNew _

lemma Sound.kentryThreaded (mounts : List Path) : Sound (kentryThreaded mounts) := by
  have hs := Sound.mountAll mounts .vfsInit
  have hk := Heap.Kept.alloc (mounts.foldl Kernel.mountNew Syscalls.vfsInit).heap
  refine ⟨hk.good hs.good, fun n hn => hk.live n (hs.mounted n hn), fun pid fd n h => ?_⟩
  obtain ⟨table, htable, i, -, hi⟩ := handle_eq_some.mp h
  -- the only node in a table is the one opened last
  rcases mem_pair.mp (mem_of_getElem? htable) with rfl | rfl
  · exact absurd hi nofun
  · beta_reduce at hi
    split_ifs at hi
    cases hi
    exact hs.good.live_alloc

/-- **No node is used or freed after it was freed, if each close is of a handle that is the only way to its node and
each file loaded is a module**, in every run from the state `kentry_threaded` leaves behind; and no mounted node was
freed. -/
theorem nodes_not_used_after_free (mounts : List Path) (ops : List (ℕ × Syscall))
    (hok : Along Syscall.step Syscall.Ok (kentryThreaded mounts) ops) (st : Kernel)
    (hrun : run Syscall.step (kentryThreaded mounts) ops = some st) :
    Safe st.heap.log ∧ ∀ n ∈ st.tree.nodes, .free n ∉ st.heap.log := by
  have hs : Sound st := run_invariant_along _ (fun _ _ _ hs hok h => hs.step hok h) ops _ st
    (.kentryThreaded mounts) hok hrun
  exact ⟨hs.good.safe, fun n hn => (hs.mounted n hn).2⟩

def everyFile : Drivers := ⟨fun _ => some true, false⟩

def textFile : ElfFile := ⟨⟨0, 0, 0, 0⟩, [], none⟩

/-- From the state after the boot: the init process closes handle 0 and writes to handle 1, the same node; a process
and its child both close handle 0; a process closes the root directory; a process closes a file that it loaded and
that is no module. -/
theorem node_used_after_free : (∃ st, run Syscall.step (kentryThreaded [['/']])
      [(1, .close 0), (1, .write 1 0x1000 1 [1])] = some st ∧ ¬ Safe st.heap.log) ∧
    (∃ st, run Syscall.step (kentryThreaded [['/']])
      [(1, .fork), (1, .close 0), (2, .close 0)] = some st ∧ ¬ Safe st.heap.log) ∧
    (∃ st, run Syscall.step (kentryThreaded [['/']])
      [(1, .openPath everyFile 0x1000 ['/'] 0), (1, .close 3)] = some st ∧ ∃ n ∈ st.tree.nodes, .free n ∈ st.heap.log) ∧
    (∃ st, run Syscall.step (kentryThreaded [['/']])
      [(1, .openPath everyFile 0x1000 ['/', 'f'] 0), (1, .loadModule 3 textFile), (1, .close 3)] = some st ∧
        ¬ Safe st.heap.log) := by
  refine ⟨?_, ?_, ?_, ?_⟩ <;> exact exists_run _ (by decide +kernel)

def mountsOne : ElfFile := ⟨⟨0x464C457F, 2, 1, 0x3E⟩, [], some [['/', 'd', 'e', 'v', '/', 'p']]⟩

/-- Two processes open a file each; one reads its file and closes it, the other loads
a module. -/
def openTwo : List (ℕ × Syscall) :=
  [(1, .fork), (1, .openPath everyFile 0x1000 ['/', 'f'] 0), (2, .openPath everyFile 0x1000 ['/', 'f'] 0),
    (1, .read 3 0x1000 1 [1]), (1, .close 3), (2, .loadModule 3 mountsOne), (1, .write 1 0x1000 1 [1])]

theorem nodes_not_used_after_free_two :
    ∃ st, run Syscall.step (kentryThreaded [['/']]) openTwo = some st ∧ .free 3 ∈ st.heap.log ∧
      Safe st.heap.log ∧ ∀ n ∈ st.tree.nodes, .free n ∉ st.heap.log := by
  obtain ⟨st, hst, hfree⟩ := exists_run Syscall.step (by decide +kernel :
    (run Syscall.step (kentryThreaded [['/']]) openTwo).any fun st => decide (.free 3 ∈ st.heap.log))
  exact ⟨st, hst, hfree, nodes_not_used_after_free _ _ (by decide +kernel) st hst⟩

end WivOS.Syscalls
