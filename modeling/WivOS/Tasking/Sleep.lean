/-
# Sleeping threads

`thread_sleep` of `kernel/tasking/scheduler.c` against `scheduler_get_next_task`. The tick at which the thread may run
again is a `uint32_t`, so a thread sleeps for as long as it asked exactly if that tick fits (`sleeps_its_time`).
-/
import Mathlib.Algebra.Group.Nat.Defs
import WivOS.Tasking.SchedulerScan

namespace WivOS.Scheduler

open Function List Option Machine

def timerFreq : ℕ := 1000

def threadSleep (w : Waits) (t ms : ℕ) : Waits :=
  let yieldTarget := (w.timerCounter + ms * timerFreq % 2 ^ 64 / 1000) % 2 ^ 64 % 2 ^ 32
  { w with yieldTarget := update w.yieldTarget t yieldTarget }

/-! ### Steps -/

structure Clock where
  waits : Waits
  returned : List ℕ

/-- A tick; a call of `thread_sleep`; everything else that threads do to locks, events and
time limits; or a search for the next task, over any table. -/
inductive ClockOp where
  | tick
  | sleep (u ms : ℕ)
  | others (w : Waits)
  | schedule (s : Tasks) (currentTask : Option ℕ)

def Clock.step (c : Clock) : ClockOp → Option Clock
  | .tick => some { c with waits := { c.waits with timerCounter := (c.waits.timerCounter + 1) % 2 ^ 64 } }
  | .sleep u ms => some { c with waits := threadSleep c.waits u ms }
  | .others w =>
    some { c with waits := { w with timerCounter := c.waits.timerCounter, yieldTarget := c.waits.yieldTarget } }
  | .schedule s currentTask =>
    (schedulerGetNextTask s currentTask c.waits).map fun r => ⟨r.2, r.1.toList ++ c.returned⟩

/-- A step while the counter is below `limit`, with `t` asleep. -/
def Before (t limit : ℕ) (c : Clock) (op : ClockOp) : Prop :=
  c.waits.timerCounter < limit ∧ ∀ ms, op ≠ .sleep t ms

open Clock

/-- **What `thread_sleep` is for**: the thread is not returned while the counter is below its
value at the call plus the ticks asked for, whatever the others do. -/
def SleepsItsTime (w : Waits) (t ms : ℕ) : Prop :=
  ∀ (ops : List ClockOp) (c : Clock),
    Along step (Before t (w.timerCounter + ms * timerFreq / 1000)) ⟨threadSleep w t ms, []⟩ ops →
    run step ⟨threadSleep w t ms, []⟩ ops = some c → t ∉ c.returned

lemma threadSleep_target (w : Waits) (t : ℕ) {ms : ℕ} (hms : ms * 1000 < 2 ^ 63) :
    (threadSleep w t ms).yieldTarget t = (w.timerCounter + ms) % 2 ^ 64 % 2 ^ 32 := by
  have hlt : ms * 1000 < 2 ^ 64 := by omega
  simp only [threadSleep, update_self, timerFreq]
  rw [Nat.mod_eq_of_lt hlt, Nat.mul_div_cancel ms (by decide)]

lemma ticks_eq (ms : ℕ) : ms * timerFreq / 1000 = ms := Nat.mul_div_cancel ms (by decide)

/-! ### A deadline of 32 bits -/

lemma visit_keeps (w : Waits) (t : ℕ) :
    (visit w t).2.timerCounter = w.timerCounter ∧ (visit w t).2.yieldTarget = w.yieldTarget := by
  unfold visit
  split
  · exact ⟨rfl, rfl⟩
  split
  · exact ⟨rfl, rfl⟩
  dsimp only
  split
  · exact ⟨rfl, rfl⟩
  split
  · exact ⟨rfl, rfl⟩
  split
  · exact ⟨rfl, rfl⟩
  split
  · exact ⟨rfl, rfl⟩
  · exact ⟨rfl, rfl⟩

lemma scan_keeps (s : Tasks) : ∀ (m i currentTask : ℕ) (w : Waits) (r : Option ℕ) (w' : Waits),
    scan s m i currentTask w = some (r, w') → w'.timerCounter = w.timerCounter ∧ w'.yieldTarget = w.yieldTarget
  | 0, _, _, _, _, _, h => by cases h
  | m + 1, i, currentTask, w, r, w', h => by
    simp only [scan] at h
    split at h
    · split at h
      · generalize (if s.active currentTask = .null then 0 else currentTask) = slot at h
        split at h
        · cases h
          exact ⟨rfl, rfl⟩
        · exact scan_keeps s m i _ w r w' h
        · rename_i t _
          have hvisit := visit_keeps w t
          split at h
          · cases h
            exact hvisit
          · obtain ⟨h1, h2⟩ := scan_keeps s m (i + 1) _ _ r w' h
            exact ⟨h1.trans hvisit.1, h2.trans hvisit.2⟩
      · cases h
    · cases h
      exact ⟨rfl, rfl⟩

structure Asleep (t limit : ℕ) (c : Clock) : Prop where
  target : c.waits.yieldTarget t = limit
  hidden : t ∉ c.returned

lemma Asleep.step {t limit : ℕ} (c : Clock) (op : ClockOp) (c' : Clock) (h : Asleep t limit c)
    (hbefore : Before t limit c op) (hstep : c.step op = some c') : Asleep t limit c' := by
  obtain ⟨hlt, hother⟩ := hbefore
  cases op with
  | tick =>
    cases hstep
    exact ⟨h.target, h.hidden⟩
  | sleep u ms =>
    cases hstep
    have hne : t ≠ u := fun htu => hother ms (by rw [htu])
    exact ⟨(update_of_ne hne _ _).trans h.target, h.hidden⟩
  | others w =>
    cases hstep
    exact ⟨h.target, h.hidden⟩
  | schedule s currentTask =>
    obtain ⟨⟨r, w'⟩, hscan, rfl⟩ := map_eq_some_iff.mp hstep
    refine ⟨?_, fun hmem => ?_⟩
    · rw [show w'.yieldTarget = c.waits.yieldTarget from (scan_keeps s _ _ _ _ _ _ hscan).2, h.target]
    · rcases mem_append.mp hmem with hr | hr
      · -- it would have to be past its deadline
        rcases scan_result s _ _ _ _ _ _ hscan with ⟨rfl, -⟩ | ⟨u, j, rfl, -, hrun, -⟩
        · cases hr
        · rw [mem_singleton.mp hr] at h
          have := h.target ▸ hrun.1
          omega
      · exact h.hidden hr

/-! ### A deadline that does not fit -/

def Clock.later (c : Clock) (k : ℕ) : Clock :=
  { c with waits := { c.waits with timerCounter := c.waits.timerCounter + k } }

lemma Clock.step_tick {c : Clock} (h : c.waits.timerCounter + 1 < 2 ^ 64) : c.step .tick = some (c.later 1) := by
  rw [step, Nat.mod_eq_of_lt h, later]

lemma Clock.ticks {t limit : ℕ} : ∀ (k : ℕ) (c : Clock) (ops : List ClockOp), c.waits.timerCounter + k < limit →
    c.waits.timerCounter + k < 2 ^ 64 → Along step (Before t limit) (c.later k) ops →
    Along step (Before t limit) c (List.replicate k .tick ++ ops) ∧
      run step c (List.replicate k .tick ++ ops) = run step (c.later k) ops
  | 0, c, ops, _, _, h => ⟨h, rfl⟩
  | k + 1, c, ops, hlimit, hlt, h => by
    have hstep := step_tick (c := c) (by omega)
    have hlater : (c.later 1).later k = c.later (k + 1) := by
      simp only [later, Nat.add_assoc, Nat.add_comm 1 k]
    have hcount : (c.later 1).waits.timerCounter = c.waits.timerCounter + 1 := rfl
    obtain ⟨halong, hrun⟩ := ticks k (c.later 1) ops (by omega) (by omega) (hlater ▸ h)
    rw [replicate_succ, cons_append]
    refine ⟨⟨⟨by omega, fun _ h => (by cases h)⟩, fun c' hc' => ?_⟩, ?_⟩
    · rw [hstep, some.injEq] at hc'
      exact hc' ▸ halong
    · rw [run_cons, hstep, bind_some, hrun, hlater]

def oneTask (t : ℕ) : Tasks := { Tasks.empty with active := fun i => if i = 0 then .thread t else .null, total := 1 }

lemma oneTask_packed (t : ℕ) : Packed (oneTask t) 1 where
  le := by decide +kernel
  used i hi := ⟨t, if_pos (by omega)⟩
  empty i hi := if_neg (by omega)
  total := Nat.le_refl 1

/-- No lock is taken, and no thread waits for an event. -/
def nothingHeld : Waits := ⟨0, fun _ => 0, fun _ => true, fun _ => none, fun _ => 0, fun _ => 0, fun _ => 0⟩

lemma early_run {t : ℕ} {c : Clock} (h : c.waits.yieldTarget t ≤ c.waits.timerCounter) :
    ∃ c', run step c [.others nothingHeld, .schedule (oneTask t) none] = some c' ∧ t ∈ c'.returned := by
  obtain ⟨r, w', hscan, hactive, hfound⟩ := (oneTask_packed t).findsTask
    { nothingHeld with timerCounter := c.waits.timerCounter, yieldTarget := c.waits.yieldTarget } none
    (by decide +kernel)
  have hsome := hfound 0 t rfl ⟨h, rfl, fun es hes => (by cases hes)⟩
  obtain ⟨u, rfl⟩ := ne_none_iff_exists'.mp hsome
  obtain ⟨⟨j, hj⟩, -⟩ := hactive u rfl
  have hu : u = t := by
    simp only [oneTask] at hj
    split at hj
    · cases hj
      rfl
    · cases hj
  refine ⟨⟨w', [u] ++ c.returned⟩, ?_, by simp [hu]⟩
  simp only [run_cons, run_nil, step, bind_some, hscan, map_some]
  rfl

/-- **A thread sleeps for the time it asked for**, for every tick at which it calls
`thread_sleep` and every number of milliseconds, exactly if that is 0 or the tick at which
the time is over is below `2^32`. -/
theorem sleeps_its_time (w : Waits) (t ms : ℕ) (hw : w.timerCounter < 2 ^ 64) (hms : ms * 1000 < 2 ^ 63) :
    SleepsItsTime w t ms ↔ ms = 0 ∨ w.timerCounter + ms < 2 ^ 32 := by
  have htarget := threadSleep_target w t hms
  unfold SleepsItsTime
  rw [ticks_eq]
  constructor
  · intro h
    by_contra hlate
    -- a counter past what is left of the deadline in 32 bits, and below the deadline
    obtain ⟨k, hpast, hbefore, hlt⟩ : ∃ k, 2 ^ 32 - 1 ≤ w.timerCounter + k ∧ w.timerCounter + k < w.timerCounter + ms ∧
        w.timerCounter + k < 2 ^ 64 := ⟨2 ^ 32 - 1 - w.timerCounter, by omega, by omega, by omega⟩
    have hdue : (later ⟨threadSleep w t ms, []⟩ k).waits.yieldTarget t ≤ w.timerCounter + k := by
      refine Nat.le_trans (Nat.le_of_eq htarget) ?_
      omega
    obtain ⟨c, hrun, hmem⟩ := early_run hdue
    obtain ⟨halong, hticks⟩ := ticks (t := t) k ⟨threadSleep w t ms, []⟩
      [.others nothingHeld, .schedule (oneTask t) none] hbefore hlt (by
        refine ⟨⟨hbefore, fun _ h => (by cases h)⟩, fun c' hc' => ⟨⟨?_, fun _ h => (by cases h)⟩, fun _ _ => trivial⟩⟩
        cases hc'
        exact hbefore)
    exact h _ c halong (hticks.trans hrun) hmem
  · rintro (rfl | hlt) ops c halong hrun
    · cases ops with
      | nil =>
        cases hrun
        exact not_mem_nil
      | cons op ops => exact absurd halong.1.1 (Nat.lt_irrefl _)
    · have hinit : Asleep t (w.timerCounter + ms) ⟨threadSleep w t ms, []⟩ := by
        refine ⟨htarget.trans ?_, not_mem_nil⟩
        omega
      exact (run_invariant_along step Asleep.step ops _ c hinit halong hrun).hidden

theorem sleeps_its_time_hundred : SleepsItsTime { nothingHeld with timerCounter := 1000 } 7 100 :=
  (sleeps_its_time { nothingHeld with timerCounter := 1000 } 7 100 (by decide) (by decide)).mpr (by decide)

/-- 5 ticks before the counter needs more than 32 bits, thread 7 asks for 100 ms: it is the
next task at once. -/
theorem woken_at_once : ∃ c, run step
    ⟨threadSleep { nothingHeld with timerCounter := 2 ^ 32 - 5 } 7 100, []⟩ [.schedule (oneTask 7) none] = some c ∧
      c.returned = [7] ∧ c.waits.timerCounter < 2 ^ 32 - 5 + 100 :=
  exists_run step (by decide +kernel)

end WivOS.Scheduler
