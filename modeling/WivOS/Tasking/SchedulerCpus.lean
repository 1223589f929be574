/-
# Several CPUs and the kernel stacks

`scheduler_schedule` and `yield` of `kernel/tasking/scheduler.c`, `force_reschedule` of `kernel/cpu/cpu.asm` and
`execve` on any number of CPUs. A CPU is on the kernel stack of the thread it has switched to, whose lock keeps the
others away. `execve` makes that lock anew and releases `SchedulerLock` before its CPU has left the stack
(`kernel_stack_used_twice`). `scheduler_schedule` and `scheduler_add_task` hold `ReSchedulerLock`, so each is one step.
-/
import WivOS.Tasking.SchedulerScan

namespace WivOS.Scheduler

open Function List Option Machine

/-! ### The CPUs -/

/-- A CPU runs, or it is behind the release of `SchedulerLock` in `force_reschedule`, from
where it calls `scheduler_schedule` until that switches. -/
inductive Phase where
  | running
  | resched
deriving DecidableEq

inductive Holding where
  | yield
  | exec
deriving DecidableEq

structure Cpu where
  currentTaskID : Option ℕ
  currentPid : Option ℕ
  stack : Option ℕ
  phase : Phase

def Cpu.idle : Cpu := ⟨none, none, none, .running⟩

structure Cpus (n : ℕ) where
  tasks : Tasks
  waits : Waits
  cpu : Fin n → Cpu
  holder : Option (Fin n × Holding)

def Cpus.unlockCurrent {n : ℕ} (s : Cpus n) (c : Fin n) : Waits :=
  match (s.cpu c).currentTaskID with
  | none => s.waits
  | some i => match s.tasks.active i with
    | .thread t => { s.waits with unlocked := update s.waits.unlocked t true }
    | _ => s.waits

def Cpus.switch {n : ℕ} (s : Cpus n) (c : Fin n) : Option ℕ × Waits → Cpus n
  | (none, w) => { s with waits := w, cpu := update s.cpu c Cpu.idle }
  | (some t, w) => { s with
      waits := w
      cpu := update s.cpu c ⟨(s.tasks.threads t).taskID, some (s.tasks.threads t).pid, some t, .running⟩ }

def schedulerSchedule {n : ℕ} (s : Cpus n) (c : Fin n) : Option (Cpus n) :=
  if s.holder ≠ none then some s
  else (schedulerGetNextTask s.tasks (s.cpu c).currentTaskID (s.unlockCurrent c)).map (s.switch c)

def Tasks.execThread (s : Tasks) : Option ℕ :=
  match s.exec with
  | none => none
  | some (pid, _) => match s.procs pid with
    | none => none
    | some table => match table 0 with
      | .thread t => some t
      | _ => none

def Waits.recreate (w : Waits) (t : ℕ) : Waits :=
  { w with
    unlocked := update w.unlocked t true
    yieldTarget := update w.yieldTarget t 0
    eventPointer := update w.eventPointer t none
    eventAbort := update w.eventAbort t 0
    eventTimeout := update w.eventTimeout t 0 }

def Waits.create (w : Waits) (first last : ℕ) : Waits :=
  { w with unlocked := fun t => if first ≤ t ∧ t < last then true else w.unlocked t }

def singleThreaded (s : Tasks) (pid : ℕ) : Bool :=
  (s.procs pid).all fun table => (List.range maxThreads).all fun tid => tid == 0 || (table tid).free

def TaskOp.execve : TaskOp → Bool
  | .execClear _ | .execRecreate | .execAdd => true
  | _ => false

inductive CpuOp (n : ℕ) where
  | schedule (c : Fin n)
  | yield (c : Fin n)
  | reschedule (c : Fin n)
  | wait (w : Waits)
  | call (op : TaskOp)
  | execClear (c : Fin n)
  | execRecreate (c : Fin n)
  | execAdd (c : Fin n)

/-- A step. `yield` takes `SchedulerLock` and `reschedule` is its release in
`force_reschedule`; `wait` is any change to what the threads wait for; `call` is a call
that makes or adds threads, on any CPU. `execve` is called by a process with one thread;
it takes the lock before its first part and releases it after its last. -/
def Cpus.step {n : ℕ} (s : Cpus n) : CpuOp n → Option (Cpus n)
  | .schedule c => schedulerSchedule s c
  | .yield c =>
    if s.holder = none ∧ (s.cpu c).phase = .running ∧ (s.cpu c).stack ≠ none then
      some { s with holder := some (c, .yield) }
    else none
  | .reschedule c =>
    if s.holder = some (c, .yield) then
      some { s with holder := none, cpu := update s.cpu c { s.cpu c with phase := .resched } }
    else none
  | .wait w => some { s with waits := { w with unlocked := s.waits.unlocked } }
  | .call op =>
    if op.execve then none
    else (s.tasks.step op).map fun tasks => { s with tasks, waits := s.waits.create s.tasks.next tasks.next }
  | .execClear c =>
    match (s.cpu c).currentPid with
    | none => none
    | some pid =>
      if s.holder = none ∧ (s.cpu c).phase = .running ∧ singleThreaded s.tasks pid = true then
        (s.tasks.step (.execClear pid)).map fun tasks => { s with tasks, holder := some (c, .exec) }
      else none
  | .execRecreate c =>
    if s.holder = some (c, .exec) then
      (s.tasks.step .execRecreate).map fun tasks =>
        { s with tasks, waits := s.tasks.execThread.elim s.waits s.waits.recreate }
    else none
  | .execAdd c =>
    if s.holder = some (c, .exec) then
      (s.tasks.step .execAdd).map fun tasks =>
        { s with
          tasks
          holder := none
          cpu := update s.cpu c { s.cpu c with currentTaskID := none, phase := .resched } }
    else none

def Cpus.init (n : ℕ) : Cpus n where
  tasks := Tasks.empty
  waits := ⟨0, fun _ => 0, fun _ => true, fun _ => none, fun _ => 0, fun _ => 0, fun _ => 0⟩
  cpu := fun _ => Cpu.idle
  holder := none

/-- The CPU has released `SchedulerLock` at the end of `execve`, and has not switched. -/
def Window (cpu : Cpu) : Prop := cpu.phase = .resched ∧ cpu.currentTaskID = none

instance (cpu : Cpu) : Decidable (Window cpu) := inferInstanceAs (Decidable (_ ∧ _))

/-- No CPU gets the locks in `scheduler_schedule` while another one is between the end of
`execve` and its own `scheduler_schedule`, and no call adds thread 0 of a process between the parts of its `execve`. -/
def NoneBetween {n : ℕ} (s : Cpus n) : CpuOp n → Prop
  | .schedule c => s.holder = none → ∀ c', c' ≠ c → ¬ Window (s.cpu c')
  | .call op => AddsApart s.tasks op
  | _ => True

instance {n : ℕ} (s : Cpus n) : ∀ op, Decidable (NoneBetween s op)
  | .schedule c => inferInstanceAs (Decidable (s.holder = none → ∀ c', c' ≠ c → ¬ Window (s.cpu c')))
  | .call op => inferInstanceAs (Decidable (AddsApart s.tasks op))
  | .yield _ | .reschedule _ | .wait _ | .execClear _ | .execRecreate _ | .execAdd _ => inferInstanceAs (Decidable True)

/-! ### Where the threads are -/

structure Placed (s : Tasks) : Prop where
  small : ∀ pid table a t, s.procs pid = some table → table a = .thread t → a < maxThreads
  active : ∀ i t, s.active i = .thread t →
    ∃ table, s.procs (s.threads t).pid = some table ∧ table (s.threads t).tid = .thread t

lemma Placed.empty : Placed Tasks.empty := ⟨nofun, nofun⟩

variable {s s' tasks : Tasks} {table : ℕ → Entry} {t pid i : ℕ}

lemma Linked.active_lt (h : Linked s) (ht : s.active i = .thread t) : t < s.next := by
  by_contra hge
  have hnone := h.fresh t (by omega)
  rw [h.slot i t ht] at hnone
  cases hnone

section

variable (h : Placed s) (hL : Linked s)
include h hL

lemma Placed.grows (hg : Grows s s') (hactive : s'.active = s.active)
    (hsmall : ∀ pid table a t, s'.procs pid = some table → table a = .thread t → a < maxThreads) : Placed s' := by
  refine ⟨hsmall, fun i t hi => ?_⟩
  rw [hactive] at hi
  obtain ⟨table, htable, ht⟩ := h.active i t hi
  obtain ⟨hpid, htid⟩ := hg.names t (hL.active_lt hi)
  obtain ⟨table', htable', hsub⟩ := hg.entries _ table htable
  rw [hpid, htid]
  exact ⟨table', htable', hsub _ t ht⟩

lemma Placed.processCreate : Placed (processCreate s).2 := by
  have hg := processCreate_grows s
  rcases processCreate_cases s with he | ⟨pid, hnone, he⟩
  · rw [he]
    exact h
  rw [he] at hg ⊢
  refine h.grows hL hg rfl fun p table a t htable ht => ?_
  by_cases hp : p = pid
  · subst hp
    cases (update_self p _ s.procs).symm.trans htable
    cases ht
  · exact h.small p table a t ((update_of_ne hp _ _).symm.trans htable) ht

lemma Placed.newThread {tid : ℕ} (htable : s.procs pid = some table)
    (hlt : tid < maxThreads) (hfree : (table tid).free = true) : Placed (s.newThread pid tid table) := by
  refine h.grows hL (newThread_grows htable hfree) rfl fun p tb a t htb ht => ?_
  by_cases hp : p = pid
  · subst hp
    cases (update_self p _ s.procs).symm.trans htb
    by_cases ha : a = tid
    · rw [ha]
      exact hlt
    · rw [update_of_ne ha] at ht
      exact h.small p table a t htable ht
  · exact h.small p tb a t ((update_of_ne hp _ _).symm.trans htb) ht

lemma Placed.addTask {tid r : Option ℕ}
    (hcall : schedulerAddTask s pid tid = some (r, s')) : Placed s' := by
  rcases schedulerAddTask_cases hcall with ⟨-, rfl⟩ | ⟨table, a, t, i, htable, -, ht, -, -, hfree, -, -, rfl⟩
  · exact h
  · refine ⟨h.small, fun j u hj => ?_⟩
    have hg : Grows s (s.place t i) := place_grows hfree
    have hfound : ∃ tb, s.procs (s.threads u).pid = some tb ∧ tb (s.threads u).tid = .thread u := by
      by_cases hji : j = i
      · subst hji
        have hut : t = u := Entry.thread.inj ((update_self j _ s.active).symm.trans hj)
        subst hut
        obtain ⟨-, hpid, htid⟩ := hL.own pid table htable a t ht
        rw [hpid, htid]
        exact ⟨table, htable, ht⟩
      · exact h.active j u ((update_of_ne hji _ _).symm.trans hj)
    obtain ⟨tb, htb, hu⟩ := hfound
    obtain ⟨hpid, htid⟩ := hg.names u (hL.own _ tb htb _ u hu).1
    rw [hpid, htid]
    exact ⟨tb, htb, hu⟩

lemma Placed.fork (hcall : syscallFork s = some s') : Placed s' := by
  obtain ⟨pid, r, -, -, htable, hadd⟩ := syscallFork_cases hcall
  have hL' := hL.processCreate
  have hthread := (h.processCreate hL).newThread hL' htable (by decide : 0 < maxThreads) rfl
  exact hthread.addTask (hL'.newThread nofun) hadd

end

lemma Cleared.names {l : List ℕ} {s1 : Tasks} (hc : Cleared table l s s1) (hP : Placed s)
    (hi : s.active i = .thread t) :
    (s1.threads t).pid = (s.threads t).pid ∧ (s1.threads t).tid = (s.threads t).tid := by
  obtain ⟨tb, htb, ht⟩ := hP.active i t hi
  exact (hc.linked.own _ tb ((congrFun hc.procs _).trans htb) _ t ht).2

lemma Cleared.active {l : List ℕ} {s1 : Tasks} (hc : Cleared table l s s1) (hi : s1.active i = .thread t) :
    s.active i = .thread t := by
  rcases hc.slots i with he | ⟨hnull, -⟩
  · exact he ▸ hi
  · rw [hnull] at hi
    cases hi

lemma Placed.execClear (h : Placed s) (hL : Linked s) (hcall : execClear s pid = some s') : Placed s' := by
  obtain ⟨table, s1, htable, hc, rfl⟩ := execClear_cases hL hcall
  refine ⟨fun p tb a t htb ht => ?_, fun i t hi => ?_⟩
  · by_cases hp : p = pid
    · subst hp
      cases (update_self p _ s1.procs).symm.trans htb
      exact h.small p table a t htable (keepFirst_thread ht)
    · exact h.small p tb a t ((congrFun hc.procs p).symm.trans ((update_of_ne hp _ _).symm.trans htb)) ht
  · have hold := hc.active hi
    obtain ⟨hpid, htid⟩ := hc.names h hold
    obtain ⟨tb, htb, ht⟩ := h.active i t hold
    show ∃ tb, update s1.procs pid (some (keepFirst table)) (s1.threads t).pid = some tb ∧ tb (s1.threads t).tid = _
    rw [hpid, htid]
    by_cases hp : (s.threads t).pid = pid
    · -- a thread of the process is in no slot any more
      rw [hp, htable] at htb
      cases htb
      have hnone := hc.out _ (mem_range.mpr (h.small pid _ _ t htable ht)) t ht
      rw [hc.linked.slot i t hi] at hnone
      cases hnone
    · exact ⟨tb, (update_of_ne hp _ _).trans ((congrFun hc.procs _).trans htb), ht⟩

lemma Placed.step (h : Placed s) (hS : Sound s) {op : TaskOp} (hstep : s.step op = some s') : Placed s' := by
  have hL := hS.linked
  cases op with
  | processCreate =>
    cases hstep
    exact h.processCreate hL
  | threadCreate pid =>
    cases hstep
    rcases threadCreate_cases s pid with he | ⟨table, tid, htable, hlt, hfree, -, he⟩
    · rw [he]
      exact h
    · rw [he]
      exact h.newThread hL htable hlt hfree
  | addTask pid tid =>
    obtain ⟨⟨r, s''⟩, hadd, rfl⟩ := map_eq_some_iff.mp hstep
    exact h.addTask hL hadd
  | fork => exact h.fork hL hstep
  | execClear pid =>
    simp only [Tasks.step] at hstep
    split at hstep
    · obtain ⟨s1, hclear, rfl⟩ := map_eq_some_iff.mp hstep
      have hP := h.execClear hL hclear
      exact ⟨hP.small, hP.active⟩
    · cases hstep
  | execRecreate =>
    simp only [Tasks.step] at hstep
    split at hstep
    · rename_i pid hexec
      cases hstep
      rw [hS.threadRecreate hexec]
      exact ⟨h.small, h.active⟩
    · cases hstep
  | execAdd =>
    simp only [Tasks.step] at hstep
    split at hstep
    · obtain ⟨⟨r, s1⟩, hadd, rfl⟩ := map_eq_some_iff.mp hstep
      have hP := h.addTask hL hadd
      exact ⟨hP.small, hP.active⟩
    · cases hstep

lemma call_grows {op : TaskOp} (hop : op.execve = false) (hstep : s.step op = some s') :
    Grows s s' ∧ s'.exec = s.exec := by
  cases op with
  | processCreate =>
    cases hstep
    exact ⟨processCreate_grows s, processCreate_exec s⟩
  | threadCreate pid =>
    cases hstep
    refine ⟨threadCreate_grows s pid, ?_⟩
    rcases threadCreate_cases s pid with he | ⟨table, tid, -, -, -, -, he⟩
    · rw [he]
    · rw [he]
      rfl
  | addTask pid tid =>
    obtain ⟨⟨r, s''⟩, hadd, rfl⟩ := map_eq_some_iff.mp hstep
    exact ⟨addTask_grows hadd, addTask_exec hadd⟩
  | fork =>
    refine ⟨fork_grows hstep, ?_⟩
    obtain ⟨pid, r, -, -, -, hadd⟩ := syscallFork_cases hstep
    rw [addTask_exec hadd]
    exact processCreate_exec s
  | execClear pid => cases hop
  | execRecreate => cases hop
  | execAdd => cases hop

/-! ### The invariant -/

variable {n : ℕ}

def Holds (s : Cpus n) (c : Fin n) (t : ℕ) : Prop :=
  ∃ i, (s.cpu c).currentTaskID = some i ∧ s.tasks.active i = .thread t ∧ s.waits.unlocked t = false ∧
    (s.cpu c).currentPid = some (s.tasks.threads t).pid

/-- The invariant of a run. A CPU outside `execve` and outside the window behind it holds
its thread; in `execve`, its thread is thread 0 of the process. -/
structure Owned (s : Cpus n) : Prop where
  sound : Sound s.tasks
  placed : Placed s.tasks
  once : ∀ c c' t, (s.cpu c).stack = some t → (s.cpu c').stack = some t → c = c'
  idle : ∀ c, (s.cpu c).stack = none → (s.cpu c).currentTaskID = none ∧ (s.cpu c).currentPid = none
  held : ∀ c t, (s.cpu c).stack = some t → s.holder ≠ some (c, .exec) → Holds s c t ∨ Window (s.cpu c)
  exec : ∀ c, s.holder = some (c, .exec) → ∃ t, (s.cpu c).stack = some t ∧ s.tasks.execThread = some t

lemma Owned.init (n : ℕ) : Owned (Cpus.init n) where
  sound := Sound.empty
  placed := Placed.empty
  once := nofun
  idle := fun _ _ => ⟨rfl, rfl⟩
  held := nofun
  exec := nofun

lemma Holds.frame {s s' : Cpus n} {c : Fin n} (h : Holds s c t) (hcpu : s'.cpu c = s.cpu c)
    (hactive : ∀ i, s.tasks.active i = .thread t → s'.tasks.active i = .thread t)
    (hlock : s.waits.unlocked t = false → s'.waits.unlocked t = false)
    (hpid : ∀ i, s.tasks.active i = .thread t → (s'.tasks.threads t).pid = (s.tasks.threads t).pid) : Holds s' c t := by
  obtain ⟨i, htask, hi, hunlocked, hp⟩ := h
  refine ⟨i, ?_, hactive i hi, hlock hunlocked, ?_⟩
  · rw [hcpu]
    exact htask
  · rw [hcpu, hpid i hi]
    exact hp

lemma Holds.grows {s s' : Cpus n} {c : Fin n} (h : Holds s c t) (hL : Linked s.tasks) (hg : Grows s.tasks s'.tasks)
    (hcpu : s'.cpu c = s.cpu c) (hlock : t < s.tasks.next → s'.waits.unlocked t = s.waits.unlocked t) :
    Holds s' c t := by
  have hlt : t < s.tasks.next := by
    obtain ⟨i, -, hi, -⟩ := h
    exact hL.active_lt hi
  exact h.frame hcpu (fun i => hg.slots i t) (fun hfalse => (hlock hlt).trans hfalse) fun _ _ => (hg.names t hlt).1

lemma execThread_some : s.execThread = some t ↔
    ∃ pid stage table, s.exec = some (pid, stage) ∧ s.procs pid = some table ∧ table 0 = .thread t := by
  unfold Tasks.execThread
  constructor
  · intro h
    split at h
    · cases h
    · rename_i pid stage hexec
      split at h
      · cases h
      · rename_i table htable
        split at h
        · rename_i u hu
          cases h
          exact ⟨pid, stage, table, hexec, htable, hu⟩
        · cases h
  · rintro ⟨pid, stage, table, hexec, htable, ht⟩
    simp only [hexec, htable, ht]

lemma Owned.holds_running {s : Cpus n} (h : Owned s) {c : Fin n} (hstack : (s.cpu c).stack = some t)
    (hfree : s.holder = none) (hphase : (s.cpu c).phase = .running) : Holds s c t := by
  rcases h.held c t hstack (by rw [hfree]; nofun) with hh | hw
  · exact hh
  · rw [hw.1] at hphase
    cases hphase

/-! ### Steps -/

lemma Owned.unlockCurrent {s : Cpus n} (h : Owned s) (hfree : s.holder = none) {c c' : Fin n} (hne : c' ≠ c)
    (hstack : (s.cpu c').stack = some t) (hlock : s.waits.unlocked t = false) :
    (s.unlockCurrent c).unlocked t = false := by
  unfold Cpus.unlockCurrent
  cases htask : (s.cpu c).currentTaskID with
  | none => exact hlock
  | some i =>
    cases hown : (s.cpu c).stack with
    | none =>
      rw [(h.idle c hown).1] at htask
      cases htask
    | some u =>
      rcases h.held c u hown (by rw [hfree]; nofun) with ⟨j, hj, hu, -⟩ | hw
      · rw [htask] at hj
        cases hj
        have htu : t ≠ u := by
          rintro rfl
          exact hne (h.once c' c t hstack hown)
        simp only [hu, update_of_ne htu]
        exact hlock
      · rw [hw.2] at htask
        cases htask

lemma Owned.leave {s : Cpus n} (h : Owned s) (hfree : s.holder = none) {c : Fin n} {w : Waits} {x : Cpu}
    (hkeep : ∀ c' u, c' ≠ c → (s.cpu c').stack = some u → Holds s c' u)
    (hlock : ∀ c' u, c' ≠ c → (s.cpu c').stack = some u → s.waits.unlocked u = false → w.unlocked u = false)
    (hidle : x.stack = none → x.currentTaskID = none ∧ x.currentPid = none)
    (hnew : ∀ t, x.stack = some t → (∀ c', c' ≠ c → (s.cpu c').stack ≠ some t) ∧
      Holds { s with waits := w, cpu := update s.cpu c x } c t) :
    Owned { s with waits := w, cpu := update s.cpu c x } := by
  have hself : update s.cpu c x c = x := update_self _ _ _
  have hother : ∀ c', c' ≠ c → update s.cpu c x c' = s.cpu c' := fun c' hc' => update_of_ne hc' _ _
  refine ⟨h.sound, h.placed, fun a b u ha hb => ?_, fun c' hc' => ?_, fun c' u hu _ => ?_, fun c' hc' => ?_⟩
  · dsimp only at ha hb
    by_cases hac : a = c <;> by_cases hbc : b = c
    · rw [hac, hbc]
    · rw [hac, hself] at ha
      rw [hother b hbc] at hb
      exact absurd hb ((hnew u ha).1 b hbc)
    · rw [hbc, hself] at hb
      rw [hother a hac] at ha
      exact absurd ha ((hnew u hb).1 a hac)
    · rw [hother a hac] at ha
      rw [hother b hbc] at hb
      exact h.once a b u ha hb
  · dsimp only at hc' ⊢
    by_cases hcc : c' = c
    · rw [hcc, hself] at hc' ⊢
      exact hidle hc'
    · rw [hother c' hcc] at hc' ⊢
      exact h.idle c' hc'
  · dsimp only at hu
    left
    by_cases hcc : c' = c
    · rw [hcc, hself] at hu
      rw [hcc]
      exact (hnew u hu).2
    · rw [hother c' hcc] at hu
      exact (hkeep c' u hcc hu).frame (hother c' hcc) (fun _ => id) (hlock c' u hcc hu) fun _ _ => rfl
  · exact absurd (hfree.symm.trans hc') nofun

lemma Owned.schedule {s s' : Cpus n} (h : Owned s) {c : Fin n} (hnone : NoneBetween s (.schedule c))
    (hcall : schedulerSchedule s c = some s') : Owned s' := by
  unfold schedulerSchedule at hcall
  by_cases hfree : s.holder = none
  swap
  · rw [if_pos hfree] at hcall
    cases hcall
    exact h
  rw [if_neg (not_not.mpr hfree)] at hcall
  obtain ⟨⟨r, w⟩, hscan, rfl⟩ := map_eq_some_iff.mp hcall
  have hkeep : ∀ c' t, c' ≠ c → (s.cpu c').stack = some t → Holds s c' t := by
    intro c' t hc' hstack
    rcases h.held c' t hstack (by rw [hfree]; nofun) with hh | hw
    · exact hh
    · exact absurd hw (hnone hfree c' hc')
  have hlock : ∀ c' u, c' ≠ c → (s.cpu c').stack = some u → s.waits.unlocked u = false →
      (s.unlockCurrent c).unlocked u = false := fun c' u hc' => h.unlockCurrent hfree hc'
  rcases scan_result s.tasks _ _ _ _ r w hscan with ⟨rfl, rfl⟩ | ⟨t, j, rfl, hj, hrun, hw⟩
  · exact h.leave hfree hkeep hlock (fun _ => ⟨rfl, rfl⟩) nofun
  · -- the thread was unlocked, so no other CPU is on it
    have hnew : ∀ c', c' ≠ c → (s.cpu c').stack ≠ some t := by
      intro c' hc' hstack
      obtain ⟨i, -, -, hunlocked, -⟩ := hkeep c' t hc' hstack
      have hfalse := hlock c' t hc' hstack hunlocked
      rw [hrun.2.1] at hfalse
      cases hfalse
    refine h.leave hfree hkeep (fun c' u hc' hu hunlocked => ?_) nofun fun u hu => ?_
    · rw [hw, update_of_ne]
      · exact hlock c' u hc' hu hunlocked
      · rintro rfl
        exact hnew c' hc' hu
    · cases hu
      refine ⟨hnew, j, ?_, hj, ?_, ?_⟩
      · dsimp only
        rw [update_self]
        exact h.sound.linked.slot j t hj
      · dsimp only
        rw [hw, update_self]
      · dsimp only
        rw [update_self]

/-- A step that leaves the CPUs alone, keeps the slots in use and the locks of the threads
there are, and starts or ends no `execve`. -/
lemma Owned.grows {s s' : Cpus n} (h : Owned s) (hS : Sound s'.tasks) (hP : Placed s'.tasks)
    (hg : Grows s.tasks s'.tasks)
    (hexec : s'.tasks.exec = s.tasks.exec) (hcpu : s'.cpu = s.cpu) (hholder : s'.holder = s.holder)
    (hlock : ∀ t < s.tasks.next, s'.waits.unlocked t = s.waits.unlocked t) : Owned s' := by
  refine ⟨hS, hP, ?_, ?_, fun c t ht hne => ?_, fun c hc => ?_⟩
  · rw [hcpu]
    exact h.once
  · rw [hcpu]
    exact h.idle
  · rw [hcpu] at ht ⊢
    rw [hholder] at hne
    rcases h.held c t ht hne with hh | hw
    · exact Or.inl (hh.grows h.sound.linked hg (congrFun hcpu c) (hlock t))
    · exact Or.inr hw
  · rw [hholder] at hc
    rw [hcpu]
    obtain ⟨t, ht, hthread⟩ := h.exec c hc
    obtain ⟨pid, stage, table, he, htable, h0⟩ := execThread_some.mp hthread
    obtain ⟨table', htable', hsub⟩ := hg.entries pid table htable
    exact ⟨t, ht, execThread_some.mpr ⟨pid, stage, table', hexec.trans he, htable', hsub 0 t h0⟩⟩

lemma Owned.hold {s s' : Cpus n} (h : Owned s) (htasks : s'.tasks = s.tasks) (hwaits : s'.waits = s.waits)
    (hnot : ∀ c, s.holder ≠ some (c, .exec)) (hnot' : ∀ c, s'.holder ≠ some (c, .exec))
    (hcpu : ∀ c, (s'.cpu c).currentTaskID = (s.cpu c).currentTaskID ∧ (s'.cpu c).currentPid = (s.cpu c).currentPid ∧
      (s'.cpu c).stack = (s.cpu c).stack ∧ ((s.cpu c).phase = .resched → (s'.cpu c).phase = .resched)) : Owned s' := by
  refine ⟨htasks ▸ h.sound, htasks ▸ h.placed, fun c c' t ht ht' => ?_, fun c hc => ?_, fun c t ht _ => ?_,
    fun c hc => absurd hc (hnot' c)⟩
  · rw [(hcpu c).2.2.1] at ht
    rw [(hcpu c').2.2.1] at ht'
    exact h.once c c' t ht ht'
  · rw [(hcpu c).2.2.1] at hc
    rw [(hcpu c).1, (hcpu c).2.1]
    exact h.idle c hc
  · rw [(hcpu c).2.2.1] at ht
    rcases h.held c t ht (hnot c) with ⟨i, htask, hi, hlock, hpid⟩ | hw
    · left
      refine ⟨i, (hcpu c).1.trans htask, ?_, ?_, (hcpu c).2.1.trans ?_⟩
      · rw [htasks]
        exact hi
      · rw [hwaits]
        exact hlock
      · rw [htasks]
        exact hpid
    · exact Or.inr ⟨(hcpu c).2.2.2 hw.1, (hcpu c).1.trans hw.2⟩

lemma singleThreaded_zero (hP : Placed s) {a : ℕ} (hone : singleThreaded s pid = true)
    (htable : s.procs pid = some table) (ht : table a = .thread t) : a = 0 := by
  have ha := hP.small pid table a t htable ht
  simp only [singleThreaded, htable, all_some, List.all_eq_true, mem_range] at hone
  have h := hone a ha
  rw [ht] at h
  simpa [Entry.free] using h

lemma Owned.execClear {s : Cpus n} (h : Owned s) {c : Fin n} (hfree : s.holder = none)
    (hphase : (s.cpu c).phase = .running) (hpid : (s.cpu c).currentPid = some pid)
    (hone : singleThreaded s.tasks pid = true) (hstep : s.tasks.step (.execClear pid) = some tasks) :
    Owned { s with tasks, holder := some (c, .exec) } := by
  have hS := h.sound.step _ (.execClear pid) _ trivial hstep
  have hP := h.placed.step h.sound hstep
  obtain ⟨t, hstack⟩ : ∃ t, (s.cpu c).stack = some t := by
    cases hs : (s.cpu c).stack with
    | none =>
      rw [(h.idle c hs).2] at hpid
      cases hpid
    | some t => exact ⟨t, rfl⟩
  obtain ⟨i, -, hi, -, hpid'⟩ := h.holds_running hstack hfree hphase
  rw [hpid, some.injEq] at hpid'
  subst hpid'
  -- the thread is thread 0 of the process, the only one
  obtain ⟨tb, htb, ht⟩ := h.placed.active i t hi
  rw [singleThreaded_zero h.placed hone htb ht] at ht
  simp only [Tasks.step] at hstep
  split at hstep
  swap
  · cases hstep
  obtain ⟨s2, hclear, rfl⟩ := map_eq_some_iff.mp hstep
  obtain ⟨table, s1, htable, hc, rfl⟩ := execClear_cases h.sound.linked hclear
  rw [htb] at htable
  cases htable
  refine ⟨hS, hP, h.once, h.idle, fun c' u hu hne => ?_, fun c' hc' => ?_⟩
  · have hcc : c' ≠ c := fun he => hne (by rw [he])
    have hut : u ≠ t := by
      rintro rfl
      exact hcc (h.once c' c u hu hstack)
    rcases h.held c' u hu (fun he => by rw [hfree] at he; cases he) with hh | hw
    · refine Or.inl (hh.frame rfl (fun j hj => ?_) id fun j hj => (hc.names h.placed hj).1)
      rcases hc.slots j with he | ⟨-, a, -, v, hv, hslot⟩
      · exact he.trans hj
      · rw [singleThreaded_zero h.placed hone htb hv, ht] at hv
        cases hv
        rw [hj] at hslot
        cases hslot
        exact absurd rfl hut
    · exact Or.inr hw
  · cases hc'
    exact ⟨t, hstack, execThread_some.mpr ⟨_, _, keepFirst tb, rfl, update_self _ _ _, (keepFirst_zero tb).trans ht⟩⟩

lemma Owned.execRecreate {s : Cpus n} (h : Owned s) {c : Fin n} (hholder : s.holder = some (c, .exec))
    (hstep : s.tasks.step .execRecreate = some tasks) :
    Owned { s with tasks, waits := s.tasks.execThread.elim s.waits s.waits.recreate } := by
  have hS := h.sound.step _ .execRecreate _ trivial hstep
  have hP := h.placed.step h.sound hstep
  obtain ⟨t, hstack, hthread⟩ := h.exec c hholder
  simp only [Tasks.step] at hstep
  split at hstep
  swap
  · cases hstep
  rename_i pid hexec
  cases hstep
  have hsame := h.sound.threadRecreate hexec
  refine ⟨hS, hP, h.once, h.idle, fun c' u hu hne => ?_, fun c' hc' => ?_⟩
  · have hut : u ≠ t := by
      rintro rfl
      exact hne (by rw [h.once c' c u hu hstack]; exact hholder)
    rcases h.held c' u hu hne with hh | hw
    · refine Or.inl (hh.frame rfl (fun j hj => ?_) (fun hlock => ?_) fun j hj => ?_)
      · dsimp only
        rw [hsame]
        exact hj
      · rw [hthread]
        exact (update_of_ne hut _ _).trans hlock
      · dsimp only
        rw [hsame]
    · exact Or.inr hw
  · obtain ⟨u, hu, hthread'⟩ := h.exec c' hc'
    obtain ⟨p, stage, table, he, htable, h0⟩ := execThread_some.mp hthread'
    rw [hexec] at he
    cases he
    refine ⟨u, hu, execThread_some.mpr ⟨pid, _, table, rfl, ?_, h0⟩⟩
    dsimp only
    rw [hsame]
    exact htable

lemma Owned.execAdd {s : Cpus n} (h : Owned s) {c : Fin n} (hholder : s.holder = some (c, .exec))
    (hstep : s.tasks.step .execAdd = some tasks) :
    Owned { s with
      tasks
      holder := none
      cpu := update s.cpu c { s.cpu c with currentTaskID := none, phase := .resched } } := by
  have hS := h.sound.step _ .execAdd _ trivial hstep
  have hP := h.placed.step h.sound hstep
  obtain ⟨t, hstack, -⟩ := h.exec c hholder
  have hg : Grows s.tasks tasks := by
    simp only [Tasks.step] at hstep
    split at hstep
    · obtain ⟨⟨r, s1⟩, hadd, rfl⟩ := map_eq_some_iff.mp hstep
      have hg := addTask_grows hadd
      exact ⟨hg.next, hg.slots, hg.names, hg.entries⟩
    · cases hstep
  have hother : ∀ c', c' ≠ c → update s.cpu c { s.cpu c with currentTaskID := none, phase := .resched } c' = s.cpu c' :=
    fun c' hc' => update_of_ne hc' _ _
  have hstacks : ∀ c', (update s.cpu c { s.cpu c with currentTaskID := none, phase := .resched } c').stack =
      (s.cpu c').stack := by
    intro c'
    by_cases hcc : c' = c
    · rw [hcc, update_self]
    · rw [hother c' hcc]
  refine ⟨hS, hP, fun a b u ha hb => ?_, fun c' hc' => ?_, fun c' u hu _ => ?_, fun c' hc' => by cases hc'⟩
  · exact h.once a b u ((hstacks a).symm.trans ha) ((hstacks b).symm.trans hb)
  · have hcc : c' ≠ c := by
      rintro rfl
      rw [(hstacks c').symm.trans hc'] at hstack
      cases hstack
    dsimp only at hc' ⊢
    rw [hother c' hcc] at hc' ⊢
    exact h.idle c' hc'
  · by_cases hcc : c' = c
    · right
      rw [hcc]
      dsimp only
      rw [update_self]
      exact ⟨rfl, rfl⟩
    · have hne : s.holder ≠ some (c', .exec) := by
        rw [hholder]
        intro he
        cases he
        exact hcc rfl
      rcases h.held c' u ((hstacks c').symm.trans hu) hne with hh | hw
      · exact Or.inl (hh.grows h.sound.linked hg (hother c' hcc) fun _ => rfl)
      · right
        dsimp only
        rw [hother c' hcc]
        exact hw

/-- **One step** that does not come between the end of `execve` and the switch behind it
keeps every CPU on a stack of its own. -/
lemma Owned.step (s : Cpus n) (op : CpuOp n) (s' : Cpus n) (h : Owned s) (hnone : NoneBetween s op)
    (hstep : s.step op = some s') : Owned s' := by
  cases op with
  | schedule c => exact h.schedule hnone hstep
  | yield c =>
    simp only [Cpus.step] at hstep
    split at hstep
    · rename_i hguard
      cases hstep
      exact h.hold rfl rfl (by rw [hguard.1]; nofun) nofun fun _ => ⟨rfl, rfl, rfl, id⟩
    · cases hstep
  | reschedule c =>
    simp only [Cpus.step] at hstep
    split at hstep
    · rename_i hguard
      cases hstep
      refine h.hold rfl rfl (by rw [hguard]; nofun) nofun fun c' => ?_
      by_cases hcc : c' = c
      · rw [hcc]
        dsimp only
        rw [update_self]
        exact ⟨rfl, rfl, rfl, fun _ => rfl⟩
      · dsimp only
        rw [update_of_ne hcc]
        exact ⟨rfl, rfl, rfl, id⟩
    · cases hstep
  | wait w =>
    cases hstep
    exact h.grows h.sound h.placed (Grows.refl _) rfl rfl rfl fun _ _ => rfl
  | call op =>
    simp only [Cpus.step] at hstep
    split at hstep
    · cases hstep
    · rename_i hop
      obtain ⟨tasks, htasks, rfl⟩ := map_eq_some_iff.mp hstep
      obtain ⟨hg, hexec⟩ := call_grows (Bool.eq_false_iff.mpr hop) htasks
      refine h.grows (h.sound.step _ _ _ hnone htasks) (h.placed.step h.sound htasks) hg hexec rfl rfl fun t ht => ?_
      exact if_neg fun hle => absurd hle.1 (Nat.not_le.mpr ht)
  | execClear c =>
    simp only [Cpus.step] at hstep
    split at hstep
    · cases hstep
    · rename_i pid hpid
      split at hstep
      · rename_i hguard
        obtain ⟨tasks, htasks, rfl⟩ := map_eq_some_iff.mp hstep
        exact h.execClear hguard.1 hguard.2.1 hpid hguard.2.2 htasks
      · cases hstep
  | execRecreate c =>
    simp only [Cpus.step] at hstep
    split at hstep
    · rename_i hguard
      obtain ⟨tasks, htasks, rfl⟩ := map_eq_some_iff.mp hstep
      exact h.execRecreate hguard htasks
    · cases hstep
  | execAdd c =>
    simp only [Cpus.step] at hstep
    split at hstep
    · rename_i hguard
      obtain ⟨tasks, htasks, rfl⟩ := map_eq_some_iff.mp hstep
      exact h.execAdd hguard htasks
    · cases hstep

/-- **Each kernel stack is used by one CPU**, for any number of CPUs and any interleaving
in which no other CPU schedules between the end of an `execve` and the switch behind it, and no call adds its thread
meanwhile. -/
theorem kernel_stack_used_once (n : ℕ) (ops : List (CpuOp n)) (s : Cpus n)
    (hok : Along Cpus.step NoneBetween (Cpus.init n) ops) (hrun : run Cpus.step (Cpus.init n) ops = some s)
    (c c' : Fin n) (t : ℕ) (hc : (s.cpu c).stack = some t) (hc' : (s.cpu c').stack = some t) : c = c' :=
  (run_invariant_along Cpus.step Owned.step ops _ s (Owned.init n) hok hrun).once c c' t hc hc'

/-- Two CPUs: CPU 1 is idle while process 1 calls `execve` on CPU 0, and takes another
thread when CPU 0 has switched. -/
theorem kernel_stack_used_once_two : ∃ s, run Cpus.step (Cpus.init 2)
    [.call .fork, .call .fork, .schedule 0, .yield 0, .schedule 1, .reschedule 0, .schedule 0, .execClear 0,
      .schedule 1,
      .execRecreate 0, .execAdd 0, .schedule 0, .schedule 1] = some s ∧
      (s.cpu 0).stack = some 0 ∧ (s.cpu 1).stack ≠ some 0 := by
  obtain ⟨s, hrun, hstack⟩ : ∃ s, run Cpus.step (Cpus.init 2)
      [.call .fork, .call .fork, .schedule 0, .yield 0, .schedule 1, .reschedule 0, .schedule 0, .execClear 0,
        .schedule 1,
        .execRecreate 0, .execAdd 0, .schedule 0, .schedule 1] = some s ∧ (s.cpu 0).stack = some 0 :=
    exists_run Cpus.step (by decide +kernel)
  refine ⟨s, hrun, hstack, fun hone => ?_⟩
  cases kernel_stack_used_once 2 _ s (by decide +kernel) hrun 0 1 0 hstack hone

/-- **A kernel stack used twice**: thread 0 runs on CPU 0 and calls `execve`. When CPU 0
has released `SchedulerLock`, CPU 1 schedules first and switches to the same thread. -/
theorem kernel_stack_used_twice : ∃ s, run Cpus.step (Cpus.init 2)
    [.call .fork, .schedule 0, .execClear 0, .execRecreate 0, .execAdd 0, .schedule 1] = some s ∧
      (s.cpu 0).stack = some 0 ∧ (s.cpu 1).stack = some 0 :=
  exists_run Cpus.step (by decide +kernel)

end WivOS.Scheduler
