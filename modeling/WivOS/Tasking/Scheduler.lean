/-
# The table of active tasks

`ActiveTasks` of `kernel/tasking/scheduler.c` and the code that writes it or a thread's `taskID`: `scheduler_add_task`,
`thread_create`, `thread_recreate`, `syscall_fork` and `execve`. `execve` holds `SchedulerLock` from its start to its
end, but releases the lock of the process twice, and other calls may come between. The slot of a thread and its `taskID`
are inverse to each other after every run in which none of them adds thread 0 of that process
(`slots_and_task_ids_agree`); `thread_recreate` forgets the slot that such a call has given it
(`thread_in_two_slots`).
-/
import WivOS.Lib.Machine

namespace WivOS.Scheduler

open Function List Option Machine

def maxProcesses : ℕ := 256

def maxThreads : ℕ := 256

/-- The length of `ActiveTasks`, `MAX_THREADS * 2`. -/
@[irreducible] def maxTasks : ℕ := 512

/-- A pointer in a table of threads: `NULL`, `(void *)-1`, or a thread. -/
inductive Entry where
  | null
  | deleted
  | thread (t : ℕ)
deriving DecidableEq

def Entry.free : Entry → Bool
  | .thread _ => false
  | _ => true

structure Thread where
  pid : ℕ
  tid : ℕ
  taskID : Option ℕ

/-- How far a call of `execve` has come: the slots are cleared, or thread 0 is made anew
as well (with what `thread_recreate` has returned). -/
inductive ExecStage where
  | cleared
  | recreated (tid : Option ℕ)

structure Tasks where
  threads : ℕ → Thread
  next : ℕ
  procs : ℕ → Option (ℕ → Entry)
  active : ℕ → Entry
  total : ℕ
  exec : Option (ℕ × ExecStage)

/-! ### The calls -/

def processCreate (s : Tasks) : Option ℕ × Tasks :=
  match (List.range maxProcesses).find? fun pid => (s.procs pid).isNone with
  | none => (none, s)
  | some pid => (some pid, { s with procs := update s.procs pid (some fun _ => .null) })

def Tasks.newThread (s : Tasks) (pid tid : ℕ) (table : ℕ → Entry) : Tasks :=
  { s with
    threads := update s.threads s.next ⟨pid, tid, none⟩
    next := s.next + 1
    procs := update s.procs pid (some (update table tid (.thread s.next))) }

def threadCreate (s : Tasks) (pid : ℕ) : Option ℕ × Tasks :=
  match s.procs pid with
  | none => (none, s)
  | some table =>
    match (List.range maxThreads).find? fun tid => (table tid).free with
    | none => (none, s)
    | some tid => (some tid, s.newThread pid tid table)

def Tasks.place (s : Tasks) (t i : ℕ) : Tasks :=
  { s with
    threads := update s.threads t { s.threads t with taskID := some i }
    active := update s.active i (.thread t)
    total := s.total + 1 }

/-- `scheduler_add_task`: the slot, or `-1`. A `tid` of `-1` is read as `NULL`, from the
zeroed page before the table of the process. -/
def schedulerAddTask (s : Tasks) (pid : ℕ) (tid : Option ℕ) : Option (Option ℕ × Tasks) :=
  match s.procs pid with
  | none => some (none, s)
  | some table =>
    match tid.elim .null table with
    | .null => some (none, s)
    | .deleted => none
    | .thread t =>
      if (s.threads t).taskID ≠ none then some (none, s)
      else match (List.range maxTasks).find? fun i => (s.active i).free with
        | none => some (none, s)
        | some i => some (some i, s.place t i)

/-- `syscall_fork`, as far as the new process and its thread. Without a free process the
call writes through `SchedulerProcesses[-1]`. -/
def syscallFork (s : Tasks) : Option Tasks :=
  match processCreate s with
  | (none, _) => none
  | (some pid, s) => (schedulerAddTask (s.newThread pid 0 fun _ => .null) pid (some 0)).map Prod.snd

def killThread (s : Tasks) (t : ℕ) : Tasks :=
  { s with
    threads := update s.threads t { s.threads t with taskID := none }
    active := match (s.threads t).taskID with
      | none => s.active
      | some i => update s.active i .null }

def killEntry (table : ℕ → Entry) (s : Tasks) (tid : ℕ) : Tasks :=
  match table tid with
  | .thread t => killThread s t
  | _ => s

def keepFirst (table : ℕ → Entry) (tid : ℕ) : Entry :=
  if 1 ≤ tid ∧ tid < maxThreads ∧ (table tid).free = false then .null else table tid

def execClear (s : Tasks) (pid : ℕ) : Option Tasks :=
  match s.procs pid with
  | none => none
  | some table =>
    let s := (List.range maxThreads).foldl (killEntry table) s
    some { s with procs := update s.procs pid (some (keepFirst table)) }

/-- `thread_recreate`, on the fields modelled here. -/
def threadRecreate (s : Tasks) (pid tid : ℕ) : Option ℕ × Tasks :=
  match s.procs pid with
  | none => (none, s)
  | some table =>
    match table tid with
    | .thread t => (some tid, { s with threads := update s.threads t ⟨pid, tid, none⟩ })
    | _ => (none, s)

/-! ### Runs -/

inductive TaskOp where
  | processCreate
  | threadCreate (pid : ℕ)
  | addTask (pid : ℕ) (tid : Option ℕ)
  | fork
  | execClear (pid : ℕ)
  | execRecreate
  | execAdd

def Tasks.step (s : Tasks) : TaskOp → Option Tasks
  | .processCreate => some (Scheduler.processCreate s).2
  | .threadCreate pid => some (Scheduler.threadCreate s pid).2
  | .addTask pid tid => (schedulerAddTask s pid tid).map Prod.snd
  | .fork => syscallFork s
  | .execClear pid =>
    match s.exec with
    | none => (Scheduler.execClear s pid).map fun s => { s with exec := some (pid, .cleared) }
    | _ => none
  | .execRecreate =>
    match s.exec with
    | some (pid, .cleared) =>
      let r := threadRecreate s pid 0
      some { r.2 with exec := some (pid, .recreated r.1) }
    | _ => none
  | .execAdd =>
    match s.exec with
    | some (pid, .recreated tid) => (schedulerAddTask s pid tid).map fun r => { r.2 with exec := none }
    | _ => none

/-- While a process is in `execve`, its thread 0 is added by that call only. -/
def AddsApart (s : Tasks) : TaskOp → Prop
  | .addTask pid tid => s.exec.map Prod.fst = some pid → tid ≠ some 0
  | _ => True

instance (s : Tasks) : ∀ op, Decidable (AddsApart s op)
  | .addTask _ _ => inferInstanceAs (Decidable (_ → _))
  | .processCreate | .threadCreate _ | .fork | .execClear _ | .execRecreate | .execAdd =>
      inferInstanceAs (Decidable True)

def Tasks.empty : Tasks where
  threads := fun _ => ⟨0, 0, none⟩
  next := 0
  procs := fun _ => none
  active := fun _ => .null
  total := 0
  exec := none

/-! ### Slots and task IDs -/

structure Linked (s : Tasks) : Prop where
  slot : ∀ i t, s.active i = .thread t → (s.threads t).taskID = some i
  task : ∀ t i, (s.threads t).taskID = some i → s.active i = .thread t
  own : ∀ pid table, s.procs pid = some table → ∀ tid t, table tid = .thread t →
    t < s.next ∧ (s.threads t).pid = pid ∧ (s.threads t).tid = tid
  fresh : ∀ t, s.next ≤ t → (s.threads t).taskID = none

structure ExecOut (s : Tasks) : Prop where
  running : ∀ pid stage, s.exec = some (pid, stage) → s.procs pid ≠ none
  out : ∀ pid stage, s.exec = some (pid, stage) → ∀ table t, s.procs pid = some table → table 0 = .thread t →
    (s.threads t).taskID = none

lemma Linked.empty : Linked Tasks.empty where
  slot := fun _ _ h => by cases h
  task := fun _ _ h => by cases h
  own := fun _ _ h => by cases h
  fresh := fun _ _ => rfl

variable {s s' : Tasks} {t i pid : ℕ} {table : ℕ → Entry} {tid r : Option ℕ}

lemma Linked.retask (h : Linked s) {id : Option ℕ}
    (hthreads : s'.threads = update s.threads t { s.threads t with taskID := id })
    (hactive : ∀ j u, s'.active j = .thread u ↔ if u = t then id = some j else s.active j = .thread u)
    (hprocs : s'.procs = s.procs) (hnext : s'.next = s.next) (hid : id = none ∨ t < s.next) : Linked s' := by
  have hself : s'.threads t = { s.threads t with taskID := id } := by rw [hthreads, update_self]
  have hother : ∀ u, u ≠ t → s'.threads u = s.threads u := fun u hu => by rw [hthreads, update_of_ne hu]
  refine ⟨fun j u hju => ?_, fun u j huj => ?_, fun pid table htable tid u hu => ?_, fun u hu => ?_⟩
  · rw [hactive] at hju
    split at hju
    · rename_i hut
      rw [hut, hself]
      exact hju
    · rename_i hut
      rw [hother u hut]
      exact h.slot j u hju
  · rw [hactive]
    split
    · rename_i hut
      rw [hut, hself] at huj
      exact huj
    · rename_i hut
      rw [hother u hut] at huj
      exact h.task u j huj
  · rw [hprocs] at htable
    rw [hnext]
    obtain ⟨hlt, hpid, htid⟩ := h.own pid table htable tid u hu
    by_cases hut : u = t
    · subst hut
      rw [hself]
      exact ⟨hlt, hpid, htid⟩
    · rw [hother u hut]
      exact ⟨hlt, hpid, htid⟩
  · rw [hnext] at hu
    by_cases hut : u = t
    · rw [hut, hself]
      rcases hid with hid | hid
      · exact hid
      · omega
    · rw [hother u hut]
      exact h.fresh u hu

lemma Linked.place (h : Linked s) (ht : (s.threads t).taskID = none) (hlt : t < s.next)
    (hi : (s.active i).free = true) : Linked (s.place t i) := by
  refine h.retask rfl (fun j u => ?_) rfl rfl (Or.inr hlt)
  show update s.active i (.thread t) j = .thread u ↔ _
  by_cases hj : j = i
  · subst hj
    rw [update_self, Entry.thread.injEq]
    split
    · rename_i hut
      exact ⟨fun _ => rfl, fun _ => hut.symm⟩
    · rename_i hut
      refine ⟨fun he => absurd he.symm hut, fun he => ?_⟩
      rw [he] at hi
      cases hi
  · rw [update_of_ne hj]
    split
    · rename_i hut
      subst hut
      refine ⟨fun he => ?_, fun he => absurd (some.inj he).symm hj⟩
      rw [h.slot j u he] at ht
      cases ht
    · rfl

lemma Linked.killThread (h : Linked s) (t : ℕ) : Linked (killThread s t) := by
  refine h.retask rfl (fun j u => ?_) rfl rfl (Or.inl rfl)
  -- a slot that holds the thread is the one in its `taskID`
  have hslot : ∀ i, s.active i = .thread t → (s.threads t).taskID = some i := fun i => h.slot i t
  cases htask : (s.threads t).taskID with
  | none =>
    simp only [Scheduler.killThread, htask]
    split
    · rename_i hut
      subst hut
      refine ⟨fun he => ?_, fun he => by cases he⟩
      rw [hslot j he] at htask
      cases htask
    · rfl
  | some i =>
    simp only [Scheduler.killThread, htask]
    by_cases hj : j = i
    · subst hj
      rw [update_self, h.task t j htask]
      split
      · exact ⟨nofun, nofun⟩
      · rename_i hut
        exact ⟨nofun, fun he => absurd (Entry.thread.inj he).symm hut⟩
    · rw [update_of_ne hj]
      split
      · rename_i hut
        subst hut
        refine ⟨fun he => ?_, fun he => by cases he⟩
        rw [hslot j he, some.injEq] at htask
        exact absurd htask hj
      · rfl

lemma Linked.killEntry (h : Linked s) (table : ℕ → Entry) (tid : ℕ) : Linked (killEntry table s tid) := by
  unfold Scheduler.killEntry
  split
  · exact h.killThread _
  · exact h

/-- What the first loop of `execve` does to the threads of `table` with a `tid` in `l`. -/
structure Cleared (table : ℕ → Entry) (l : List ℕ) (s s' : Tasks) : Prop where
  linked : Linked s'
  procs : s'.procs = s.procs
  next : s'.next = s.next
  total : s'.total = s.total
  exec : s'.exec = s.exec
  kept : ∀ t, (s.threads t).taskID = none → (s'.threads t).taskID = none
  out : ∀ tid ∈ l, ∀ t, table tid = .thread t → (s'.threads t).taskID = none
  slots : ∀ j, s'.active j = s.active j ∨
    s'.active j = .null ∧ ∃ tid ∈ l, ∃ t, table tid = .thread t ∧ s.active j = .thread t

lemma Linked.cleared_of_no_thread (h : Linked s) {tid : ℕ} (hno : ∀ t, table tid ≠ .thread t) :
    Cleared table [tid] s s := by
  refine ⟨h, rfl, rfl, rfl, rfl, fun _ => id, fun tid' htid' u hu => ?_, fun _ => .inl rfl⟩
  rw [mem_singleton.mp htid'] at hu
  exact absurd hu (hno u)

lemma killEntry_cleared (h : Linked s) (table : ℕ → Entry) (tid : ℕ) :
    Cleared table [tid] s (killEntry table s tid) := by
  have hlinked := h.killEntry table tid
  cases htid : table tid with
  | thread t =>
    simp only [killEntry, htid] at hlinked ⊢
    have hself : ((killThread s t).threads t).taskID = none := by
      simp only [killThread, update_self]
    refine ⟨hlinked, rfl, rfl, rfl, rfl, fun u hu => ?_, fun tid' htid' u hu => ?_, fun j => ?_⟩
    · by_cases hut : u = t
      · rw [hut]
        exact hself
      · simp only [killThread, update_of_ne hut]
        exact hu
    · rw [mem_singleton] at htid'
      rw [htid', htid] at hu
      cases hu
      exact hself
    · cases htask : (s.threads t).taskID with
      | none =>
        left
        simp only [killThread, htask]
      | some i =>
        simp only [killThread, htask]
        by_cases hj : j = i
        · subst hj
          exact Or.inr ⟨update_self _ _ _, tid, mem_singleton_self _, t, htid, h.task t j htask⟩
        · exact Or.inl (update_of_ne hj _ _)
  | null =>
    simp only [killEntry, htid]
    exact h.cleared_of_no_thread fun u => by rw [htid]; nofun
  | deleted =>
    simp only [killEntry, htid]
    exact h.cleared_of_no_thread fun u => by rw [htid]; nofun

lemma Cleared.trans {l l' : List ℕ} {s'' : Tasks} (h : Cleared table l s s') (h' : Cleared table l' s' s'') :
    Cleared table (l ++ l') s s'' := by
  refine ⟨h'.linked, h'.procs.trans h.procs, h'.next.trans h.next, h'.total.trans h.total, h'.exec.trans h.exec,
    fun t ht => h'.kept t (h.kept t ht), fun tid htid t ht => ?_, fun j => ?_⟩
  · rcases mem_append.mp htid with htid | htid
    · exact h'.kept t (h.out tid htid t ht)
    · exact h'.out tid htid t ht
  · rcases h'.slots j with hj | ⟨hj, tid, htid, t, ht, hslot⟩
    · rw [hj]
      rcases h.slots j with hj | ⟨hj, tid, htid, t, ht, hslot⟩
      · exact Or.inl hj
      · exact Or.inr ⟨hj, tid, mem_append_left _ htid, t, ht, hslot⟩
    · refine Or.inr ⟨hj, tid, mem_append_right _ htid, t, ht, ?_⟩
      rcases h.slots j with hj' | ⟨hj', -⟩
      · exact hj' ▸ hslot
      · rw [hj'] at hslot
        cases hslot

lemma killEntries_cleared (table : ℕ → Entry) : ∀ (l : List ℕ) (s : Tasks), Linked s →
    Cleared table l s (l.foldl (killEntry table) s)
  | [], _, h => ⟨h, rfl, rfl, rfl, rfl, fun _ => id, fun _ htid => (by cases htid), fun _ => Or.inl rfl⟩
  | tid :: l, s, h =>
    (killEntry_cleared h table tid).trans (killEntries_cleared table l _ (h.killEntry table tid))

lemma Linked.newThread (h : Linked s) {tid : ℕ}
    (hown : ∀ a t, table a = .thread t → t < s.next ∧ (s.threads t).pid = pid ∧ (s.threads t).tid = a) :
    Linked (s.newThread pid tid table) := by
  have hself : (s.newThread pid tid table).threads s.next = ⟨pid, tid, none⟩ := update_self _ _ _
  have hother : ∀ u, u ≠ s.next → (s.newThread pid tid table).threads u = s.threads u := fun u hu => update_of_ne hu _ _
  have hfresh := h.fresh s.next (Nat.le_refl _)
  refine ⟨fun j u hju => ?_, fun u j huj => ?_, fun p tb htb a u hu => ?_, fun u hu => ?_⟩
  · have hslot := h.slot j u hju
    rw [hother u, hslot]
    rintro rfl
    rw [hfresh] at hslot
    cases hslot
  · by_cases hu : u = s.next
    · rw [hu, hself] at huj
      cases huj
    · rw [hother u hu] at huj
      exact h.task u j huj
  · -- an entry is the new thread's, or it was there before
    have hold : ∀ q, q < s.next ∧ (s.threads q).pid = p ∧ (s.threads q).tid = a →
        q < s.next + 1 ∧ ((s.newThread pid tid table).threads q).pid = p ∧
          ((s.newThread pid tid table).threads q).tid = a := by
      rintro q ⟨hlt, hpid, htid⟩
      rw [hother q (by omega)]
      exact ⟨by omega, hpid, htid⟩
    by_cases hp : p = pid
    · subst hp
      have htb' : update table tid (.thread s.next) = tb :=
        some.inj ((update_self p _ s.procs).symm.trans htb)
      rw [← htb'] at hu
      by_cases ha : a = tid
      · subst ha
        rw [update_self] at hu
        cases hu
        rw [hself]
        exact ⟨Nat.lt_succ_self _, rfl, rfl⟩
      · rw [update_of_ne ha] at hu
        exact hold u (hown a u hu)
    · have htb' : s.procs p = some tb := (update_of_ne hp _ s.procs).symm.trans htb
      exact hold u (h.own p tb htb' a u hu)
  · have hle : s.next + 1 ≤ u := hu
    rw [hother u (by omega)]
    exact h.fresh u (by omega)

/-! ### What the calls do -/

lemma find_range_some {n : ℕ} {p : ℕ → Bool} (h : (List.range n).find? p = some i) :
    i < n ∧ p i = true ∧ ∀ j < i, p j = false := by
  rw [find?_range_eq_some] at h
  obtain ⟨hp, hi, hbefore⟩ := h
  exact ⟨mem_range.mp hi, hp, fun j hj => by simpa using hbefore j hj⟩

lemma processCreate_cases (s : Tasks) : processCreate s = (none, s) ∨ ∃ pid, s.procs pid = none ∧
      processCreate s = (some pid, { s with procs := update s.procs pid (some fun _ => .null) }) := by
  unfold processCreate
  split
  · exact Or.inl rfl
  · rename_i pid hpid
    have hnone : (s.procs pid).isNone = true := (find_range_some hpid).2.1
    exact Or.inr ⟨pid, isNone_iff_eq_none.mp hnone, rfl⟩

lemma threadCreate_cases (s : Tasks) (pid : ℕ) : (threadCreate s pid).2 = s ∨
    ∃ table tid, s.procs pid = some table ∧ tid < maxThreads ∧ (table tid).free = true ∧
      (∀ a < tid, (table a).free = false) ∧ (threadCreate s pid).2 = s.newThread pid tid table := by
  unfold threadCreate
  split
  · exact Or.inl rfl
  · rename_i table htable
    split
    · exact Or.inl rfl
    · rename_i tid htid
      obtain ⟨hlt, hfree, hbefore⟩ := find_range_some htid
      exact Or.inr ⟨table, tid, htable, hlt, hfree, hbefore, rfl⟩

lemma schedulerAddTask_cases (h : schedulerAddTask s pid tid = some (r, s')) : (r = none ∧ s' = s) ∨
    ∃ table a t i, s.procs pid = some table ∧ tid = some a ∧ table a = .thread t ∧ (s.threads t).taskID = none ∧
      i < maxTasks ∧ (s.active i).free = true ∧ (∀ j < i, (s.active j).free = false) ∧ r = some i ∧
        s' = s.place t i := by
  unfold schedulerAddTask at h
  split at h
  · cases h
    exact Or.inl ⟨rfl, rfl⟩
  rename_i table htable
  split at h
  · cases h
    exact Or.inl ⟨rfl, rfl⟩
  · cases h
  rename_i t ht
  split at h
  · cases h
    exact Or.inl ⟨rfl, rfl⟩
  rename_i htask
  split at h
  · cases h
    exact Or.inl ⟨rfl, rfl⟩
  rename_i i hi
  cases h
  obtain ⟨hlt, hfree, hbefore⟩ := find_range_some hi
  cases tid with
  | none => cases ht
  | some a => exact Or.inr ⟨table, a, t, i, htable, rfl, ht, not_not.mp htask, hlt, hfree, hbefore, rfl, rfl⟩

lemma processCreate_exec (s : Tasks) : (processCreate s).2.exec = s.exec := by
  rcases processCreate_cases s with he | ⟨pid, -, he⟩ <;> rw [he]

lemma addTask_exec (hcall : schedulerAddTask s pid tid = some (r, s')) : s'.exec = s.exec := by
  rcases schedulerAddTask_cases hcall with ⟨-, rfl⟩ | ⟨-, -, t, i, -, -, -, -, -, -, -, -, rfl⟩ <;> rfl

lemma Linked.processCreate (h : Linked s) : Linked (processCreate s).2 := by
  rcases processCreate_cases s with he | ⟨pid, hnone, he⟩
  · rw [he]
    exact h
  · rw [he]
    refine ⟨h.slot, h.task, fun p table htable tid t ht => ?_, h.fresh⟩
    by_cases hp : p = pid
    · subst hp
      have htable' : (fun _ => Entry.null) = table :=
        some.inj ((update_self p _ s.procs).symm.trans htable)
      rw [← htable'] at ht
      cases ht
    · exact h.own p table ((update_of_ne hp _ s.procs).symm.trans htable) tid t ht

lemma Linked.threadCreate (h : Linked s) (pid : ℕ) : Linked (threadCreate s pid).2 := by
  rcases threadCreate_cases s pid with he | ⟨table, tid, htable, -, -, -, he⟩
  · rw [he]
    exact h
  · rw [he]
    exact h.newThread (h.own pid table htable)

lemma Linked.addTask (h : Linked s) (hcall : schedulerAddTask s pid tid = some (r, s')) : Linked s' := by
  rcases schedulerAddTask_cases hcall with ⟨-, rfl⟩ | ⟨table, a, t, i, htable, -, ht, htask, -, hfree, -, -, rfl⟩
  · exact h
  · exact h.place htask (h.own pid table htable a t ht).1 hfree

/-- What the first part of `execve` does: the threads of the process leave their slots, and
all but thread 0 leave the process. -/
lemma execClear_cases (hL : Linked s) (hcall : execClear s pid = some s') :
    ∃ table s1, s.procs pid = some table ∧ Cleared table (List.range maxThreads) s s1 ∧
      s' = { s1 with procs := update s1.procs pid (some (keepFirst table)) } := by
  unfold execClear at hcall
  split at hcall
  · cases hcall
  · rename_i table htable
    cases hcall
    exact ⟨table, _, htable, killEntries_cleared table (List.range maxThreads) s hL, rfl⟩

lemma keepFirst_thread {a : ℕ} (h : keepFirst table a = .thread t) : table a = .thread t := by
  unfold keepFirst at h
  split at h
  · cases h
  · exact h

lemma keepFirst_zero (table : ℕ → Entry) : keepFirst table 0 = table 0 := by
  rw [keepFirst, if_neg (fun hle => absurd hle.1 (by decide))]

/-! ### No thread leaves its place

Of the calls, only `execve` takes a thread out of a slot or out of its process. -/

structure Grows (s s' : Tasks) : Prop where
  next : s.next ≤ s'.next
  slots : ∀ i t, s.active i = .thread t → s'.active i = .thread t
  names : ∀ t < s.next, (s'.threads t).pid = (s.threads t).pid ∧ (s'.threads t).tid = (s.threads t).tid
  entries : ∀ pid table, s.procs pid = some table →
    ∃ table', s'.procs pid = some table' ∧ ∀ a t, table a = .thread t → table' a = .thread t

lemma Grows.refl (s : Tasks) : Grows s s :=
  ⟨Nat.le_refl _, fun _ _ => id, fun _ _ => ⟨rfl, rfl⟩, fun _ table htable => ⟨table, htable, fun _ _ => id⟩⟩

lemma Grows.trans {s'' : Tasks} (h : Grows s s') (h' : Grows s' s'') : Grows s s'' := by
  refine ⟨Nat.le_trans h.next h'.next, fun i t hi => h'.slots i t (h.slots i t hi),
    fun t ht => ?_, fun pid table htable => ?_⟩
  · obtain ⟨hpid, htid⟩ := h.names t ht
    obtain ⟨hpid', htid'⟩ := h'.names t (Nat.lt_of_lt_of_le ht h.next)
    exact ⟨hpid'.trans hpid, htid'.trans htid⟩
  · obtain ⟨table', htable', hsub⟩ := h.entries pid table htable
    obtain ⟨table'', htable'', hsub'⟩ := h'.entries pid table' htable'
    exact ⟨table'', htable'', fun a t ht => hsub' a t (hsub a t ht)⟩

lemma processCreate_grows (s : Tasks) : Grows s (processCreate s).2 := by
  rcases processCreate_cases s with he | ⟨pid, hnone, he⟩
  · rw [he]
    exact Grows.refl s
  · rw [he]
    refine ⟨Nat.le_refl _, fun _ _ => id, fun _ _ => ⟨rfl, rfl⟩, fun p table htable => ⟨table, ?_, fun _ _ => id⟩⟩
    have hp : p ≠ pid := by
      rintro rfl
      rw [hnone] at htable
      cases htable
    exact (update_of_ne hp _ _).trans htable

lemma newThread_grows {tid : ℕ} (htable : s.procs pid = some table) (hfree : (table tid).free = true) :
    Grows s (s.newThread pid tid table) := by
  refine ⟨Nat.le_succ _, fun _ _ => id, fun t ht => ?_, fun p tb htb => ?_⟩
  · have hold : (s.newThread pid tid table).threads t = s.threads t := update_of_ne (Nat.ne_of_lt ht) _ _
    rw [hold]
    exact ⟨rfl, rfl⟩
  · by_cases hp : p = pid
    · subst hp
      rw [htable] at htb
      cases htb
      refine ⟨update table tid (.thread s.next), update_self _ _ _, fun a t ha => ?_⟩
      rw [update_of_ne, ha]
      rintro rfl
      rw [ha] at hfree
      cases hfree
    · exact ⟨tb, (update_of_ne hp _ _).trans htb, fun _ _ => id⟩

lemma threadCreate_grows (s : Tasks) (pid : ℕ) : Grows s (threadCreate s pid).2 := by
  rcases threadCreate_cases s pid with he | ⟨table, tid, htable, -, hfree, -, he⟩
  · rw [he]
    exact Grows.refl s
  · rw [he]
    exact newThread_grows htable hfree

lemma place_grows (hfree : (s.active i).free = true) : Grows s (s.place t i) := by
  refine ⟨Nat.le_refl _, fun j u hj => ?_, fun u _ => ?_, fun pid table htable => ⟨table, htable, fun _ _ => id⟩⟩
  · show update s.active i (.thread t) j = .thread u
    rw [update_of_ne, hj]
    rintro rfl
    rw [hj] at hfree
    cases hfree
  · show (update s.threads t { s.threads t with taskID := some i } u).pid = _ ∧
      (update s.threads t { s.threads t with taskID := some i } u).tid = _
    by_cases hut : u = t
    · subst hut
      rw [update_self]
      exact ⟨rfl, rfl⟩
    · rw [update_of_ne hut]
      exact ⟨rfl, rfl⟩

lemma addTask_grows (hcall : schedulerAddTask s pid tid = some (r, s')) : Grows s s' := by
  rcases schedulerAddTask_cases hcall with ⟨-, rfl⟩ | ⟨-, -, t, i, -, -, -, -, -, hfree, -, -, rfl⟩
  · exact Grows.refl _
  · exact place_grows hfree

lemma syscallFork_cases (hcall : syscallFork s = some s') :
    ∃ pid r, s.procs pid = none ∧ (processCreate s).1 = some pid ∧
      (processCreate s).2.procs pid = some (fun _ => .null) ∧
      schedulerAddTask ((processCreate s).2.newThread pid 0 fun _ => .null) pid (some 0) = some (r, s') := by
  rcases processCreate_cases s with he | ⟨pid, hnone, he⟩
  · simp only [syscallFork, he] at hcall
    cases hcall
  · simp only [syscallFork, he] at hcall
    obtain ⟨⟨r, s''⟩, hadd, rfl⟩ := map_eq_some_iff.mp hcall
    refine ⟨pid, r, hnone, ?_, ?_, ?_⟩
    · rw [he]
    · rw [he]
      exact update_self _ _ _
    · rw [he]
      exact hadd

lemma fork_grows (hcall : syscallFork s = some s') : Grows s s' := by
  obtain ⟨pid, r, -, -, htable, hadd⟩ := syscallFork_cases hcall
  exact ((processCreate_grows s).trans (newThread_grows htable rfl)).trans (addTask_grows hadd)

/-! ### Steps -/

lemma ExecOut.processCreate (h : ExecOut s) : ExecOut (processCreate s).2 := by
  rcases processCreate_cases s with he | ⟨pid, hnone, he⟩
  · rw [he]
    exact h
  · rw [he]
    have hne : ∀ p stage, s.exec = some (p, stage) → p ≠ pid := fun p stage hp heq => h.running p stage hp (heq ▸ hnone)
    refine ⟨fun p stage hp => ?_, fun p stage hp table t htable ht => ?_⟩
    · show update s.procs pid _ p ≠ none
      rw [update_of_ne (hne p stage hp)]
      exact h.running p stage hp
    · exact h.out p stage hp table t ((update_of_ne (hne p stage hp) _ s.procs).symm.trans htable) ht

lemma ExecOut.newThread (h : ExecOut s) (hL : Linked s) {tid : ℕ}
    (htable : s.procs pid = some table ∨ ∀ stage, s.exec ≠ some (pid, stage)) :
    ExecOut (s.newThread pid tid table) := by
  -- the thread that was at 0 is an older one
  have hold : ∀ u, u < s.next → (s.threads u).taskID = none →
      ((s.newThread pid tid table).threads u).taskID = none := by
    intro u hu hnone
    show (update s.threads s.next _ u).taskID = none
    rw [update_of_ne (Nat.ne_of_lt hu)]
    exact hnone
  refine ⟨fun p stage hp => ?_, fun p stage hp tb t htb ht => ?_⟩
  · show update s.procs pid _ p ≠ none
    by_cases hpp : p = pid
    · subst hpp
      rw [update_self]
      exact some_ne_none _
    · rw [update_of_ne hpp]
      exact h.running p stage hp
  · by_cases hpp : p = pid
    · subst hpp
      rcases htable with htable | hnot
      · have htb' : update table tid (.thread s.next) = tb :=
          some.inj ((update_self p _ s.procs).symm.trans htb)
        rw [← htb'] at ht
        by_cases h0 : 0 = tid
        · subst h0
          rw [update_self] at ht
          cases ht
          show (update s.threads s.next _ s.next).taskID = none
          rw [update_self]
        · rw [update_of_ne h0] at ht
          exact hold t (hL.own p table htable 0 t ht).1 (h.out p stage hp table t htable ht)
      · exact absurd hp (hnot stage)
    · have htb' : s.procs p = some tb := (update_of_ne hpp _ s.procs).symm.trans htb
      exact hold t (hL.own p tb htb' 0 t ht).1 (h.out p stage hp tb t htb' ht)

lemma ExecOut.addTask (h : ExecOut s) (hL : Linked s) (hguard : tid = some 0 → ∀ stage, s.exec ≠ some (pid, stage))
    (hcall : schedulerAddTask s pid tid = some (r, s')) : ExecOut s' := by
  rcases schedulerAddTask_cases hcall with ⟨-, rfl⟩ | ⟨table, a, t, i, htable, rfl, ht, -, -, -, -, -, rfl⟩
  · exact h
  · refine ⟨h.running, fun p stage hp tb u htb hu => ?_⟩
    obtain ⟨-, hpid, htid⟩ := hL.own pid table htable a t ht
    obtain ⟨-, hpid', htid'⟩ := hL.own p tb htb 0 u hu
    have hut : u ≠ t := by
      rintro rfl
      refine hguard (by rw [← htid, htid']) stage ?_
      rw [← hpid, hpid']
      exact hp
    show (update s.threads t _ u).taskID = none
    rw [update_of_ne hut]
    exact h.out p stage hp tb u htb hu

structure Sound (s : Tasks) : Prop where
  linked : Linked s
  out : ExecOut s

lemma Sound.empty : Sound Tasks.empty := ⟨Linked.empty, ⟨nofun, nofun⟩⟩

lemma Sound.fork (h : Sound s) (hcall : syscallFork s = some s') : Sound s' := by
  obtain ⟨pid, r, hnone, -, -, hadd⟩ := syscallFork_cases hcall
  have hnot : ∀ stage, (processCreate s).2.exec ≠ some (pid, stage) := fun stage hp =>
    h.out.running pid stage ((processCreate_exec s).symm.trans hp) hnone
  have hL := h.linked.processCreate
  have hL' : Linked ((processCreate s).2.newThread pid 0 fun _ => .null) := hL.newThread nofun
  have hE' : ExecOut ((processCreate s).2.newThread pid 0 fun _ => .null) :=
    h.out.processCreate.newThread hL (Or.inr hnot)
  exact ⟨hL'.addTask hadd, hE'.addTask hL' (fun _ => hnot) hadd⟩

lemma Sound.execClear (h : Sound s) (hcall : execClear s pid = some s') :
    Sound { s' with exec := some (pid, .cleared) } := by
  obtain ⟨table, s1, htable, hc, rfl⟩ := execClear_cases h.linked hcall
  refine ⟨⟨hc.linked.slot, hc.linked.task, fun p tb htb a t ht => ?_, hc.linked.fresh⟩, fun p stage hp => ?_,
    fun p stage hp tb t htb ht => ?_⟩
  · by_cases hp : p = pid
    · subst hp
      cases (update_self p _ s1.procs).symm.trans htb
      exact hc.linked.own p table (hc.procs ▸ htable) a t (keepFirst_thread ht)
    · exact hc.linked.own p tb ((update_of_ne hp _ s1.procs).symm.trans htb) a t ht
  · cases hp
    show update s1.procs pid _ pid ≠ none
    rw [update_self]
    exact some_ne_none _
  · cases hp
    cases (update_self pid _ s1.procs).symm.trans htb
    exact hc.out 0 (mem_range.mpr (by decide)) t (keepFirst_thread ht)

lemma Sound.threadRecreate (h : Sound s) {stage : ExecStage} (hexec : s.exec = some (pid, stage)) :
    (threadRecreate s pid 0).2 = s := by
  unfold Scheduler.threadRecreate
  split
  · rfl
  rename_i table htable
  split
  · rename_i t ht
    obtain ⟨-, hpid, htid⟩ := h.linked.own pid table htable 0 t ht
    have hnone := h.out.out pid _ hexec table t htable ht
    have hthread : (⟨pid, 0, none⟩ : Thread) = s.threads t := by
      rw [← hpid, ← htid, ← hnone]
    show { s with threads := update s.threads t ⟨pid, 0, none⟩ } = s
    rw [hthread, update_eq_self]
  · rfl

lemma Sound.execRecreate (h : Sound s) (hexec : s.exec = some (pid, .cleared)) :
    Sound { (Scheduler.threadRecreate s pid 0).2 with
      exec := some (pid, .recreated (Scheduler.threadRecreate s pid 0).1) } := by
  rw [h.threadRecreate hexec]
  refine ⟨⟨h.linked.slot, h.linked.task, h.linked.own, h.linked.fresh⟩, fun p stage hp => ?_,
    fun p stage hp table t htable ht => ?_⟩
  · cases hp
    exact h.out.running pid _ hexec
  · cases hp
    exact h.out.out pid _ hexec table t htable ht

/-- **One call** keeps slots and task IDs inverse to each other. -/
lemma Sound.step (s : Tasks) (op : TaskOp) (s' : Tasks) (h : Sound s) (hapart : AddsApart s op)
    (hstep : s.step op = some s') : Sound s' := by
  cases op with
  | processCreate =>
    cases hstep
    exact ⟨h.linked.processCreate, h.out.processCreate⟩
  | threadCreate pid =>
    cases hstep
    refine ⟨h.linked.threadCreate pid, ?_⟩
    rcases threadCreate_cases s pid with he | ⟨table, tid, htable, -, -, -, he⟩
    · rw [he]
      exact h.out
    · rw [he]
      exact h.out.newThread h.linked (Or.inl htable)
  | addTask pid tid =>
    obtain ⟨⟨r, s''⟩, hadd, rfl⟩ := map_eq_some_iff.mp hstep
    refine ⟨h.linked.addTask hadd, h.out.addTask h.linked (fun htid stage hexec => hapart ?_ htid) hadd⟩
    rw [hexec]
    rfl
  | fork => exact h.fork hstep
  | execClear pid =>
    simp only [Tasks.step] at hstep
    split at hstep
    · obtain ⟨s1, hclear, rfl⟩ := map_eq_some_iff.mp hstep
      exact h.execClear hclear
    · cases hstep
  | execRecreate =>
    simp only [Tasks.step] at hstep
    split at hstep
    · rename_i pid hexec
      cases hstep
      exact h.execRecreate hexec
    · cases hstep
  | execAdd =>
    simp only [Tasks.step] at hstep
    split at hstep
    · obtain ⟨⟨r, s1⟩, hadd, rfl⟩ := map_eq_some_iff.mp hstep
      have hL := h.linked.addTask hadd
      exact ⟨⟨hL.slot, hL.task, hL.own, hL.fresh⟩, ⟨nofun, nofun⟩⟩
    · cases hstep

/-- **Slots and task IDs agree** after every run in which thread 0 of a process in `execve` is added by that call only:
a thread in slot `i` has the `taskID` `i`. `scheduler_add_task` takes a slot that holds no thread and leaves the others
alone; if it fails it changes nothing. -/
theorem slots_and_task_ids_agree (ops : List TaskOp) (s : Tasks) (hok : Along Tasks.step AddsApart Tasks.empty ops)
    (hrun : run Tasks.step Tasks.empty ops = some s) :
    (∀ i t, s.active i = .thread t → (s.threads t).taskID = some i) ∧
    (∀ i j t, s.active i = .thread t → s.active j = .thread t → i = j) ∧
    (∀ t, (s.threads t).taskID = none → ∀ i, s.active i ≠ .thread t) ∧
    (∀ pid tid i s', schedulerAddTask s pid tid = some (some i, s') →
      (∀ t, s.active i ≠ .thread t) ∧ ∀ j, j ≠ i → s'.active j = s.active j) ∧
    ∀ pid tid s', schedulerAddTask s pid tid = some (none, s') → s' = s := by
  have hL := (run_invariant_along Tasks.step Sound.step ops _ s Sound.empty hok hrun).linked
  refine ⟨hL.slot, fun i j t hi hj => ?_, fun t hnone i hi => ?_, fun pid tid i s' hadd => ?_,
    fun pid tid s' hadd => ?_⟩
  · exact some.inj ((hL.slot i t hi).symm.trans (hL.slot j t hj))
  · rw [hL.slot i t hi] at hnone
    cases hnone
  · rcases schedulerAddTask_cases hadd with ⟨hr, -⟩ | ⟨-, -, t, j, -, -, -, -, -, hfree, -, hr, rfl⟩
    · cases hr
    · cases hr
      refine ⟨fun u hu => ?_, fun j hj => update_of_ne hj _ _⟩
      rw [hu] at hfree
      cases hfree
  · rcases schedulerAddTask_cases hadd with ⟨-, rfl⟩ | ⟨-, -, -, j, -, -, -, -, -, -, -, hr, -⟩
    · rfl
    · cases hr

/-- Process 1 calls `fork` and then `execve`, and another process is made meanwhile. -/
theorem slots_and_task_ids_agree_three : ∃ s, run Tasks.step Tasks.empty
    [.processCreate, .threadCreate 0, .addTask 0 (some 0), .processCreate, .threadCreate 1, .addTask 1 (some 0), .fork,
      .execClear 1, .execRecreate, .fork, .execAdd] = some s ∧ s.active 3 = .thread 1 ∧
      (s.threads 1).taskID = some 3 ∧ ∀ i, s.active i = .thread 1 → i = 3 := by
  obtain ⟨s, hrun, hslot⟩ : ∃ s, run Tasks.step Tasks.empty
      [.processCreate, .threadCreate 0, .addTask 0 (some 0), .processCreate, .threadCreate 1, .addTask 1 (some 0),
        .fork,
        .execClear 1, .execRecreate, .fork, .execAdd] = some s ∧ s.active 3 = .thread 1 :=
    exists_run Tasks.step (by decide +kernel)
  obtain ⟨htask, huniq, -⟩ := slots_and_task_ids_agree _ s (by decide +kernel) hrun
  exact ⟨s, hrun, hslot, htask 3 1 hslot, fun i hi => huniq i 3 1 hi hslot⟩

/-- **A thread in two slots**: the thread of process 0 is added while the process is in `execve`, before
`thread_recreate` sets its `taskID` to `-1`. -/
theorem thread_in_two_slots : ∃ s, run Tasks.step Tasks.empty
    [.fork, .execClear 0, .addTask 0 (some 0), .execRecreate, .execAdd] = some s ∧ s.active 0 = .thread 0 ∧
      s.active 1 = .thread 0 ∧ (s.threads 0).taskID = some 1 :=
  exists_run Tasks.step (by decide +kernel)

end WivOS.Scheduler
