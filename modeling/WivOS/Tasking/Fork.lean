/-
# A fork that fails

`process_create` of `kernel/tasking/process.c` and `syscall_fork` of `kernel/tasking/syscalls.c`, on the records of the
processes and on `Scheduler.Tasks`; an access outside of a table is `none`. `syscall_fork` looks neither at what
`process_create` returns nor at what `scheduler_add_task` does: without a free task it returns the pid of a process
that never runs.
-/
import WivOS.Tasking.Scheduler
import WivOS.Tasking.Syscalls

namespace WivOS.Fork

open Function List Option

open Scheduler (Tasks Entry maxTasks schedulerAddTask)
open Syscalls (Handle Handles)

structure Process where
  pageTable : ℕ
  currentAllocAddress : ℕ
  handles : Handles
  parentPid : ℕ
  shmAlloc : ℕ

/-- What a thread runs on: its registers, `rax` apart, and `fs_base`. -/
structure Context where
  rax : ℕ
  regs : List ℕ
  fsBase : ℕ

structure System where
  tasks : Tasks
  processes : ℕ → Process
  contexts : ℕ → Context

/-- The task that makes the call: `currentTaskID` and `currentPid` of its CPU. -/
structure Caller where
  taskID : ℕ
  pid : ℕ

def minusOne : ℕ := 2 ^ 64 - 1

def baseAllocAddress : ℕ := 0x0000780000000000

def userShmLow : ℕ := 0x0000400100000000

def processAt (s : System) (pid : ℕ) : Option (Option (ℕ → Entry)) :=
  if pid < Scheduler.maxProcesses then some (s.tasks.procs pid) else none

def taskAt (s : System) (taskID : ℕ) : Option Entry :=
  if taskID < maxTasks then some (s.tasks.active taskID) else none

def processCreate (s : System) (pageTable : ℕ) : ℕ × System :=
  match Scheduler.processCreate s.tasks with
  | (none, _) => (minusOne, s)
  | (some pid, tasks) =>
    (pid, { s with
      tasks
      processes := update s.processes pid ⟨pageTable, baseAllocAddress, fun _ => .unused, 0, userShmLow⟩ })

/-- `syscall_fork`; `newPagemap` is the copy of the caller's page table. -/
def syscallFork (s : System) (caller : Caller) (newPagemap : ℕ) (regs : Context) : Option (ℕ × System) := do
  let .thread oldThread ← taskAt s caller.taskID | none
  let some _ ← processAt s caller.pid | none
  let (newPid, s) := processCreate s newPagemap
  let some table ← processAt s newPid | none
  let old := s.processes caller.pid
  let processes := update s.processes newPid
    { s.processes newPid with
      parentPid := (s.tasks.threads oldThread).pid
      currentAllocAddress := old.currentAllocAddress
      handles := old.handles }
  let contexts := update s.contexts s.tasks.next
    { regs with rax := 0, fsBase := (s.contexts oldThread).fsBase }
  let r ← schedulerAddTask (s.tasks.newThread newPid 0 table) newPid (some 0)
  return (newPid, ⟨r.2, processes, contexts⟩)

/-! ### What the call should do -/

/-- No entry of `SchedulerProcesses` is free, or none of `ActiveTasks`. -/
def CannotCreate (s : System) : Prop :=
  (∀ pid < Scheduler.maxProcesses, s.tasks.procs pid ≠ none) ∨ ∀ i < maxTasks, (s.tasks.active i).free = false

/-- The call returns, with no index out of range; and if there is no room for the child, it returns `-1`
and has changed nothing. -/
def FailsCleanly (s : System) (caller : Caller) (newPagemap : ℕ) (regs : Context) : Prop :=
  ∃ r s', syscallFork s caller newPagemap regs = some (r, s') ∧ (CannotCreate s →
    r = minusOne ∧ s'.tasks.procs = s.tasks.procs ∧ s'.tasks.active = s.tasks.active ∧
      s'.processes caller.pid = s.processes caller.pid)

section

variable {s : System} {caller : Caller} {newPagemap : ℕ} {regs : Context}

structure Running (s : System) (caller : Caller) : Prop where
  taskID : caller.taskID < maxTasks
  task : (s.tasks.active caller.taskID).free = false
  pid : caller.pid < Scheduler.maxProcesses
  process : s.tasks.procs caller.pid ≠ none

lemma processCreate_cases (s : System) (pageTable : ℕ) :
    (∀ pid < Scheduler.maxProcesses, s.tasks.procs pid ≠ none) ∧ processCreate s pageTable = (minusOne, s) ∨
    ∃ pid < Scheduler.maxProcesses, s.tasks.procs pid = none ∧ processCreate s pageTable = (pid, { s with
      tasks := { s.tasks with procs := update s.tasks.procs pid (some fun _ => .null) }
      processes := update s.processes pid ⟨pageTable, baseAllocAddress, fun _ => .unused, 0, userShmLow⟩ }) ∧
      Scheduler.processCreate s.tasks = (some pid,
        { s.tasks with procs := update s.tasks.procs pid (some fun _ => .null) }) := by
  rw [processCreate, Scheduler.processCreate]
  cases hfind : (List.range Scheduler.maxProcesses).find? fun pid => (s.tasks.procs pid).isNone with
  | none =>
    refine .inl ⟨fun pid hpid hnone => ?_, rfl⟩
    rw [find?_eq_none] at hfind
    exact hfind pid (mem_range.mpr hpid) (by rw [hnone]; rfl)
  | some pid =>
    have hlt := mem_range.mp (mem_of_find?_eq_some hfind)
    have hnone := find?_some hfind
    exact .inr ⟨pid, hlt, isNone_iff_eq_none.mp hnone, rfl, rfl⟩

lemma addTask_returns (tasks : Tasks) (pid : ℕ) (table : ℕ → Entry) :
    ∃ r, schedulerAddTask (tasks.newThread pid 0 table) pid (some 0) = some r ∧ r.2.procs pid ≠ none := by
  have htable : (tasks.newThread pid 0 table).procs pid = some (update table 0 (.thread tasks.next)) :=
    update_self ..
  have hentry : update table 0 (.thread tasks.next) 0 = .thread tasks.next := update_self ..
  have hsome : (tasks.newThread pid 0 table).procs pid ≠ none := htable ▸ some_ne_none _
  rw [schedulerAddTask, htable]
  simp only [elim_some, hentry]
  split
  · exact ⟨_, rfl, hsome⟩
  · split
    · exact ⟨_, rfl, hsome⟩
    · exact ⟨_, rfl, hsome⟩

/-- **What `syscall_fork` does.** Without a free process it uses the index `-1`, else it returns the pid of
the child, whatever `scheduler_add_task` does. -/
lemma syscallFork_cases (h : Running s caller) :
    (∀ pid < Scheduler.maxProcesses, s.tasks.procs pid ≠ none) ∧ syscallFork s caller newPagemap regs = none ∨
    ∃ pid < Scheduler.maxProcesses, s.tasks.procs pid = none ∧
      ∃ s', syscallFork s caller newPagemap regs = some (pid, s') ∧ s'.tasks.procs pid ≠ none ∧
        Scheduler.syscallFork s.tasks = some s'.tasks := by
  obtain ⟨t, ht⟩ : ∃ t, s.tasks.active caller.taskID = .thread t := by
    have htask := h.task
    cases hentry : s.tasks.active caller.taskID with
    | thread t => exact ⟨t, rfl⟩
    | null => rw [hentry] at htask; cases htask
    | deleted => rw [hentry] at htask; cases htask
  obtain ⟨table, htable⟩ := ne_none_iff_exists'.mp h.process
  have htask : taskAt s caller.taskID = some (.thread t) := by rw [taskAt, if_pos h.taskID, ht]
  have hprocess : processAt s caller.pid = some (some table) := by rw [processAt, if_pos h.pid, htable]
  rcases processCreate_cases s newPagemap with ⟨hfull, hcreate⟩ | ⟨pid, hpid, hnone, hcreate, hcreate'⟩
  · refine .inl ⟨hfull, ?_⟩
    have hout : processAt s minusOne = none := if_neg (by decide)
    simp only [syscallFork, htask, hprocess, hcreate, hout, bind_eq_bind, bind_some, bind_none]
  · refine .inr ⟨pid, hpid, hnone, ?_⟩
    generalize htasks : ({ s.tasks with procs := update s.tasks.procs pid (some fun _ => .null) } : Tasks) = tasks
      at hcreate hcreate'
    obtain ⟨r, hr, hchild⟩ := addTask_returns tasks pid fun _ => .null
    have hnew : ∀ processes, processAt ⟨tasks, processes, s.contexts⟩ pid = some (some fun _ => .null) := by
      intro processes
      rw [processAt, if_pos hpid, ← htasks]
      exact congrArg some (update_self ..)
    have hfork : ∃ processes contexts, syscallFork s caller newPagemap regs =
        some (pid, ⟨r.2, processes, contexts⟩) := by
      simp only [syscallFork, htask, hprocess, hcreate, hnew, hr, bind_eq_bind, bind_some, Option.pure_def]
      exact ⟨_, _, rfl⟩
    obtain ⟨processes, contexts, hfork⟩ := hfork
    refine ⟨⟨r.2, processes, contexts⟩, hfork, hchild, ?_⟩
    simp only [Scheduler.syscallFork, hcreate', hr, map_some]

end

/-- **A fork that has no room for the child** fails cleanly in no case: the call does what it should exactly
if there is a free entry in both tables. -/
theorem fork_fails_cleanly_iff (s : System) (caller : Caller) (newPagemap : ℕ) (regs : Context)
    (hrunning : Running s caller) :
    FailsCleanly s caller newPagemap regs ↔
      (∃ pid < Scheduler.maxProcesses, s.tasks.procs pid = none) ∧ ∃ i < maxTasks, (s.tasks.active i).free = true := by
  rcases @syscallFork_cases s caller newPagemap regs hrunning with ⟨hfull, hfork⟩ | ⟨pid, hpid, hnone, s', hfork, -, -⟩
  · refine iff_of_false ?_ ?_
    · rintro ⟨r, s', h, -⟩
      rw [hfork] at h
      cases h
    · rintro ⟨⟨pid, hpid, hnone⟩, -⟩
      exact hfull pid hpid hnone
  · constructor
    · rintro ⟨r, s'', h, hclean⟩
      refine ⟨⟨pid, hpid, hnone⟩, ?_⟩
      by_contra hfree
      have htasks : ∀ i < maxTasks, (s.tasks.active i).free = false := by
        intro i hi
        rw [← Bool.not_eq_true]
        exact fun h => hfree ⟨i, hi, h⟩
      obtain ⟨hr, -⟩ := hclean (.inr htasks)
      have hpid' : pid = r := (Prod.mk.inj (some.inj (hfork.symm.trans h))).1
      rw [hpid', hr] at hpid
      exact absurd hpid (by decide)
    · rintro ⟨-, i, hi, hfree⟩
      refine ⟨pid, s', hfork, fun hcannot => ?_⟩
      rcases hcannot with hfull | htasks
      · exact absurd hnone (hfull pid hpid)
      · rw [htasks i hi] at hfree
        cases hfree

/-- The first `processes` entries of `SchedulerProcesses` and the first `tasks` of `ActiveTasks` are taken. -/
def filled (processes tasks : ℕ) : System where
  tasks := { Tasks.empty with
    threads := fun t => ⟨t, 0, some t⟩
    next := tasks
    procs := fun pid => if pid < processes then some fun tid => if tid = 0 then .thread pid else .null else none
    active := fun i => if i < tasks then .thread i else .null }
  processes := fun pid => ⟨0x100000 + 0x1000 * pid, baseAllocAddress, fun _ => .unused, 0, userShmLow⟩
  contexts := fun _ => ⟨0, [], 0⟩

lemma running_filled {processes tasks : ℕ} (hprocesses : 1 < processes) (htasks : 1 < tasks) :
    Running (filled processes tasks) ⟨1, 1⟩ where
  taskID := by
    unfold maxTasks
    decide
  task := by
    have hactive : (filled processes tasks).tasks.active 1 = .thread 1 := if_pos htasks
    rw [hactive]
    rfl
  pid := by decide
  process := by
    have hproc : (filled processes tasks).tasks.procs 1 = some fun tid => if tid = 0 then .thread 1 else .null :=
      if_pos hprocesses
    rw [hproc]
    exact some_ne_none _

theorem fork_two : Running (filled 2 2) ⟨1, 1⟩ ∧ (FailsCleanly (filled 2 2) ⟨1, 1⟩ 0x200000 ⟨0, [], 0⟩ ↔
    (∃ pid < Scheduler.maxProcesses, (filled 2 2).tasks.procs pid = none) ∧ ∃ i < maxTasks,
    ((filled 2 2).tasks.active i).free = true) :=
  ⟨running_filled (by decide) (by decide), fork_fails_cleanly_iff (filled 2 2) ⟨1, 1⟩ 0x200000 ⟨0, [], 0⟩
    (running_filled (by decide) (by decide))⟩

/-- With 256 processes the call uses the index `-1`. With 512 tasks it returns the pid of a child that is in
no slot, and that stays in `SchedulerProcesses`. -/
theorem fork_fails_open : syscallFork (filled 256 2) ⟨1, 1⟩ 0x200000 ⟨0, [], 0⟩ = none ∧
    ∃ pid s', syscallFork (filled 2 512) ⟨1, 1⟩ 0x200000 ⟨0, [], 0⟩ = some (pid, s') ∧ pid ≠ minusOne ∧
      (filled 2 512).tasks.procs pid = none ∧ s'.tasks.procs pid ≠ none := by
  constructor
  · rcases @syscallFork_cases (filled 256 2) ⟨1, 1⟩ 0x200000 ⟨0, [], 0⟩ (running_filled (by decide) (by decide)) with
      ⟨-, hfork⟩ | ⟨pid, hpid, hnone, -⟩
    · exact hfork
    · have hpid : pid < 256 := hpid
      have hproc : (filled 256 2).tasks.procs pid = some fun tid => if tid = 0 then .thread pid else .null :=
        if_pos hpid
      rw [hproc] at hnone
      cases hnone
  · rcases @syscallFork_cases (filled 2 512) ⟨1, 1⟩ 0x200000 ⟨0, [], 0⟩ (running_filled (by decide) (by decide)) with
      ⟨hfull, -⟩ | ⟨pid, hpid, hnone, s', hfork, hchild, -⟩
    · exact absurd rfl (hfull 2 (by decide))
    · refine ⟨pid, s', hfork, fun heq => ?_, hnone, hchild⟩
      rw [heq] at hpid
      exact absurd hpid (by decide)

end WivOS.Fork
