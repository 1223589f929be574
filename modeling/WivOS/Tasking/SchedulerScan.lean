/-
# The search for the next task

`scheduler_get_next_task` of `kernel/tasking/scheduler.c` goes through `ActiveTasks`, takes an empty slot for the end of
the table and starts again at slot 0. So it finds a task that can run if the slots in use are the first ones; `execve`
of a process with several threads leaves empty slots in the middle (`runnable_task_missed`).
-/
import WivOS.Tasking.Event
import WivOS.Tasking.Scheduler

namespace WivOS.Scheduler

open Event Function List Option Machine

/-! ### The search -/

/-- What the search reads of the threads, by their address: the lock, the events they
wait for, and the event counters. -/
structure Waits where
  timerCounter : ℕ
  yieldTarget : ℕ → ℕ
  unlocked : ℕ → Bool
  eventPointer : ℕ → Option (List ℕ)
  eventAbort : ℕ → ℕ
  eventTimeout : ℕ → ℕ
  events : ℕ → ℕ

def takeEvents : List ℕ → (ℕ → ℕ) → Bool × (ℕ → ℕ)
  | [], events => (false, events)
  | e :: es, events =>
    if events e ≠ 0 then (true, (takeEvents es (update events e (lockedDec (events e)))).2)
    else takeEvents es events

def visit (w : Waits) (t : ℕ) : Bool × Waits :=
  if w.yieldTarget t > w.timerCounter then (false, w)
  else if w.unlocked t = false then (false, w)
  else
    let locked := { w with unlocked := update w.unlocked t false }
    match w.eventPointer t with
    | none => (true, locked)
    | some es =>
      if w.eventAbort t ≠ 0 then (true, locked)
      else
        let r := takeEvents es w.events
        if w.eventTimeout t ≤ w.timerCounter ∧ w.eventTimeout t ≠ 0 ∧ r.1 = false then
          (true, { locked with
            events := r.2
            eventPointer := update w.eventPointer t none
            eventTimeout := update w.eventTimeout t 0 })
        else if r.1 then
          (true, { locked with events := r.2, eventPointer := update w.eventPointer t none })
        else (false, { locked with events := r.2, unlocked := update locked.unlocked t true })

def nextSlot (currentTask : ℕ) : ℕ := if currentTask + 1 = maxTasks then 0 else currentTask + 1

/-- The loop of the search, for a number of rounds; `none` if it reads past the table or
does not end. A deleted task is not counted. -/
def scan (s : Tasks) : ℕ → ℕ → ℕ → Waits → Option (Option ℕ × Waits)
  | 0, _, _, _ => none
  | n + 1, i, currentTask, w =>
    if i < s.total then
      if currentTask < maxTasks then
        let currentTask := if s.active currentTask = .null then 0 else currentTask
        match s.active currentTask with
        | .null => some (none, w)
        | .deleted => scan s n i (nextSlot currentTask) w
        | .thread t =>
          let r := visit w t
          if r.1 then some (some t, r.2) else scan s n (i + 1) (nextSlot currentTask) r.2
      else none
    else some (none, w)

/-- `scheduler_get_next_task`. Between two tasks that are counted lies at most one round
over the table, or the loop does not end. -/
def schedulerGetNextTask (s : Tasks) (currentTask : Option ℕ) (w : Waits) : Option (Option ℕ × Waits) :=
  scan s ((s.total + 1) * (maxTasks + 1)) 0 (currentTask.elim 0 (· + 1)) w

def Runnable (w : Waits) (t : ℕ) : Prop :=
  w.yieldTarget t ≤ w.timerCounter ∧ w.unlocked t = true ∧
    ∀ es, w.eventPointer t = some es → w.eventAbort t ≠ 0 ∨ (∃ e ∈ es, w.events e ≠ 0) ∨
      (w.eventTimeout t ≠ 0 ∧ w.eventTimeout t ≤ w.timerCounter)

lemma takeEvents_true : ∀ (es : List ℕ) (events : ℕ → ℕ), (takeEvents es events).1 = true ↔ ∃ e ∈ es, events e ≠ 0
  | [], events => ⟨nofun, fun ⟨_, he, _⟩ => by cases he⟩
  | e :: es, events => by
    by_cases he : events e ≠ 0
    · simp only [takeEvents, if_pos he, true_iff]
      exact ⟨e, mem_cons_self, he⟩
    · rw [takeEvents, if_neg he, takeEvents_true es events]
      constructor
      · rintro ⟨e', hmem, hne⟩
        exact ⟨e', mem_cons_of_mem _ hmem, hne⟩
      · rintro ⟨e', hmem, hne⟩
        rcases mem_cons.mp hmem with rfl | hmem
        · exact absurd hne he
        · exact ⟨e', hmem, hne⟩

lemma takeEvents_false : ∀ (es : List ℕ) (events : ℕ → ℕ), (takeEvents es events).1 = false →
    (takeEvents es events).2 = events
  | [], _, _ => rfl
  | e :: es, events, h => by
    by_cases he : events e ≠ 0
    · simp only [takeEvents, if_pos he] at h
      cases h
    · rw [takeEvents, if_neg he] at h ⊢
      exact takeEvents_false es events h

lemma visit_spec (w : Waits) (t : ℕ) :
    ((visit w t).1 = true ∧ (visit w t).2.unlocked = update w.unlocked t false ∧ Runnable w t) ∨
    (visit w t = (false, w) ∧ ¬ Runnable w t) := by
  unfold visit
  by_cases hyield : w.yieldTarget t > w.timerCounter
  · rw [if_pos hyield]
    exact Or.inr ⟨rfl, fun h => absurd h.1 (Nat.not_le.mpr hyield)⟩
  rw [if_neg hyield]
  by_cases hlock : w.unlocked t = false
  · rw [if_pos hlock]
    exact Or.inr ⟨rfl, fun h => absurd (hlock.symm.trans h.2.1) Bool.false_ne_true⟩
  rw [if_neg hlock]
  have hunlocked : w.unlocked t = true := by simpa using hlock
  have hready : w.yieldTarget t ≤ w.timerCounter := Nat.not_lt.mp hyield
  cases hptr : w.eventPointer t with
  | none => exact Or.inl ⟨rfl, rfl, hready, hunlocked, fun es hes => by rw [hptr] at hes; cases hes⟩
  | some es =>
    have hrun : w.eventAbort t ≠ 0 ∨ (∃ e ∈ es, w.events e ≠ 0) ∨
        (w.eventTimeout t ≠ 0 ∧ w.eventTimeout t ≤ w.timerCounter) → Runnable w t := by
      intro h
      refine ⟨hready, hunlocked, fun es' hes' => ?_⟩
      rw [hptr] at hes'
      cases hes'
      exact h
    dsimp only
    by_cases habort : w.eventAbort t ≠ 0
    · rw [if_pos habort]
      exact Or.inl ⟨rfl, rfl, hrun (Or.inl habort)⟩
    rw [if_neg habort]
    by_cases htime : w.eventTimeout t ≤ w.timerCounter ∧ w.eventTimeout t ≠ 0 ∧ (takeEvents es w.events).1 = false
    · rw [if_pos htime]
      exact Or.inl ⟨rfl, rfl, hrun (Or.inr (Or.inr ⟨htime.2.1, htime.1⟩))⟩
    rw [if_neg htime]
    by_cases hwake : (takeEvents es w.events).1 = true
    · rw [if_pos hwake]
      exact Or.inl ⟨rfl, rfl, hrun (Or.inr (Or.inl ((takeEvents_true es w.events).mp hwake)))⟩
    · rw [if_neg hwake]
      have hnone : (takeEvents es w.events).1 = false := by simpa using hwake
      refine Or.inr ⟨?_, fun h => ?_⟩
      · rw [takeEvents_false es w.events hnone, update_idem, ← hunlocked, update_eq_self]
      · rcases h.2.2 es hptr with h1 | h1 | h1
        · exact habort h1
        · exact hwake ((takeEvents_true es w.events).mpr h1)
        · exact htime ⟨h1.2, h1.1, hnone⟩

/-- What the search returns, on any table: an active thread that can run, now locked, or
nothing, and then nothing has changed. -/
lemma scan_result (s : Tasks) : ∀ (m i currentTask : ℕ) (w : Waits) (r : Option ℕ) (w' : Waits),
    scan s m i currentTask w = some (r, w') → (r = none ∧ w' = w) ∨
      ∃ t j, r = some t ∧ s.active j = .thread t ∧ Runnable w t ∧ w'.unlocked = update w.unlocked t false
  | 0, _, _, _, _, _, h => by cases h
  | m + 1, i, currentTask, w, r, w', h => by
    simp only [scan] at h
    split at h
    · split at h
      · generalize (if s.active currentTask = .null then 0 else currentTask) = slot at h
        split at h
        · cases h
          exact Or.inl ⟨rfl, rfl⟩
        · exact scan_result s m i _ w r w' h
        · rename_i t ht
          rcases visit_spec w t with ⟨htrue, hlock, hrun⟩ | ⟨hfalse, -⟩
          · rw [if_pos htrue] at h
            cases h
            exact Or.inr ⟨t, slot, rfl, ht, hrun, hlock⟩
          · rw [hfalse, if_neg Bool.false_ne_true] at h
            exact scan_result s m (i + 1) _ w r w' h
      · cases h
    · cases h
      exact Or.inl ⟨rfl, rfl⟩

/-! ### A table without empty slots -/

structure Packed (s : Tasks) (n : ℕ) : Prop where
  le : n ≤ maxTasks
  used : ∀ i < n, ∃ t, s.active i = .thread t
  empty : ∀ i, n ≤ i → s.active i = .null
  total : n ≤ s.total

/-- Where the search reads: at slot 0 behind the last one. -/
def norm (n currentTask : ℕ) : ℕ := if currentTask < n then currentTask else 0

variable {s s' : Tasks} {n t i pid : ℕ} {table : ℕ → Entry} {tid r : Option ℕ} {h : ℕ}

lemma Packed.norm_eq (h : Packed s n) (currentTask : ℕ) :
    (if s.active currentTask = .null then 0 else currentTask) = norm n currentTask := by
  unfold norm
  by_cases hlt : currentTask < n
  · obtain ⟨t, ht⟩ := h.used currentTask hlt
    rw [if_pos hlt, ht, if_neg nofun]
  · rw [if_neg hlt, if_pos (h.empty currentTask (by omega))]

lemma Packed.norm_next (h : Packed s n) (hn : 0 < n) (currentTask : ℕ) :
    norm n (nextSlot (norm n currentTask)) = (norm n currentTask + 1) % n := by
  have hle := h.le
  have hlt : norm n currentTask < n := by
    unfold norm
    split <;> omega
  generalize norm n currentTask = p at hlt
  by_cases hp : p + 1 < n
  · rw [nextSlot, if_neg (by omega), norm, if_pos hp, Nat.mod_eq_of_lt hp]
  · have hpn : p + 1 = n := by omega
    rw [hpn, Nat.mod_self]
    unfold norm nextSlot
    split <;> rfl

lemma nextSlot_lt {p : ℕ} (h : p < maxTasks) : nextSlot p < maxTasks := by
  unfold nextSlot
  split <;> omega

lemma Packed.scan (h : Packed s n) (hn : 0 < n) (w : Waits) :
    ∀ (m i currentTask : ℕ), s.total - i < m → currentTask < maxTasks →
    ∃ r w', scan s m i currentTask w = some (r, w') ∧ (∀ t, r = some t → (∃ j, s.active j = .thread t) ∧ Runnable w t) ∧
      (r = none → ∀ k < s.total - i, ∀ t, s.active ((norm n currentTask + k) % n) = .thread t → ¬ Runnable w t)
  | 0, _, _, hm, _ => absurd hm (Nat.not_lt_zero _)
  | m + 1, i, currentTask, hm, hcur => by
    by_cases hi : i < s.total
    · have hlt : norm n currentTask < n := by
        unfold norm
        split <;> omega
      obtain ⟨t, ht⟩ := h.used _ hlt
      simp only [Scheduler.scan, if_pos hi, if_pos hcur, h.norm_eq currentTask, ht]
      rcases visit_spec w t with ⟨htrue, -, hrun⟩ | ⟨hfalse, hnot⟩
      · rw [if_pos htrue]
        refine ⟨some t, _, rfl, fun u hu => ?_, nofun⟩
        cases hu
        exact ⟨⟨_, ht⟩, hrun⟩
      · rw [hfalse, if_neg Bool.false_ne_true]
        have hle := h.le
        obtain ⟨r, w', hscan, hsome, hnone⟩ := h.scan hn w m (i + 1) (nextSlot (norm n currentTask)) (by omega)
          (nextSlot_lt (by omega))
        refine ⟨r, w', hscan, hsome, fun hr k hk u hu => ?_⟩
        cases k with
        | zero =>
          rw [Nat.add_zero, Nat.mod_eq_of_lt hlt, ht] at hu
          cases hu
          exact hnot
        | succ k =>
          refine hnone hr k (by omega) u ?_
          rw [h.norm_next hn, Nat.mod_add_mod, Nat.add_assoc, Nat.add_comm 1 k]
          exact hu
    · refine ⟨none, w, ?_, nofun, fun _ k hk => by omega⟩
      rw [Scheduler.scan, if_neg hi]

lemma schedulerGetNextTask_rounds (s : Tasks) (currentTask : Option ℕ) (w : Waits) :
    ∃ m, s.total ≤ m ∧ schedulerGetNextTask s currentTask w = scan s (m + 1) 0 (currentTask.elim 0 (· + 1)) w := by
  refine ⟨s.total * (maxTasks + 1) + maxTasks, ?_, ?_⟩
  · exact Nat.le_add_right_of_le (Nat.le_mul_of_pos_right _ (Nat.succ_pos _))
  · rw [schedulerGetNextTask, Nat.succ_mul, ← Nat.add_assoc]

/-- What `scheduler_get_next_task` is for: it stays inside the table, what it returns is
an active thread that can run, and it returns one if there is one. -/
def FindsTask (s : Tasks) (currentTask : Option ℕ) (w : Waits) : Prop :=
  ∃ r w', schedulerGetNextTask s currentTask w = some (r, w') ∧
    (∀ t, r = some t → (∃ j, s.active j = .thread t) ∧ Runnable w t) ∧
    ∀ j t, s.active j = .thread t → Runnable w t → r ≠ none

lemma Packed.findsTask (h : Packed s n) (w : Waits) (currentTask : Option ℕ)
    (hcur : currentTask.elim 0 (· + 1) < maxTasks) : FindsTask s currentTask w := by
  obtain ⟨m, hm, hrounds⟩ := schedulerGetNextTask_rounds s currentTask w
  by_cases hn : 0 < n
  · obtain ⟨r, w', hscan, hsome, hnone⟩ := h.scan hn w (m + 1) 0 _ (by omega) hcur
    refine ⟨r, w', hrounds.trans hscan, hsome, fun j t hj hrun hr => ?_⟩
    have hjn : j < n := by
      by_contra hge
      rw [h.empty j (by omega)] at hj
      cases hj
    -- slot `j` is reached after `k` rounds
    have hp : norm n (currentTask.elim 0 (· + 1)) < n := by
      unfold norm
      split <;> omega
    generalize norm n (currentTask.elim 0 (· + 1)) = p at hnone hp
    have htotal := h.total
    refine hnone hr ((j + n - p) % n) (Nat.lt_of_lt_of_le (Nat.mod_lt _ hn) (by omega)) t ?_ hrun
    have hk : p + (j + n - p) = j + n := by omega
    rw [Nat.add_mod_mod, hk, Nat.add_mod_right, Nat.mod_eq_of_lt hjn]
    exact hj
  · have hnull : ∀ j, s.active j = .null := fun j => h.empty j (by omega)
    refine ⟨none, w, ?_, nofun, fun j t hj => ?_⟩
    · rw [hrounds, Scheduler.scan, if_pos hcur]
      simp only [hnull, if_true]
      split <;> rfl
    · rw [hnull j] at hj
      cases hj

lemma Packed.findsTask_iff (h : Packed s n) (w : Waits) (currentTask : Option ℕ) :
    FindsTask s currentTask w ↔ s.total = 0 ∨ ∀ c, currentTask = some c → c + 1 < maxTasks := by
  have hpos : 0 < maxTasks := by decide +kernel
  obtain ⟨m, -, hrounds⟩ := schedulerGetNextTask_rounds s currentTask w
  constructor
  · rintro ⟨r, w', hscan, -⟩
    by_cases htotal : s.total = 0
    · exact Or.inl htotal
    · right
      rintro c rfl
      by_contra hc
      have hpast : ¬ (some c).elim 0 (· + 1) < maxTasks := hc
      rw [hrounds, Scheduler.scan, if_pos (Nat.pos_of_ne_zero htotal), if_neg hpast] at hscan
      cases hscan
  · rintro (htotal | hcur)
    · refine ⟨none, w, ?_, nofun, fun j t hj => ?_⟩
      · rw [hrounds, Scheduler.scan, if_neg (by omega)]
      · have hn := h.total
        rw [h.empty j (by omega)] at hj
        cases hj
    · refine h.findsTask w currentTask ?_
      cases currentTask with
      | none => exact hpos
      | some c => exact hcur c rfl

/-! ### Runs that keep the table packed -/

structure Hole (s : Tasks) (n h : ℕ) : Prop where
  lt : h < n
  le : n ≤ maxTasks
  used : ∀ i < n, i ≠ h → ∃ t, s.active i = .thread t
  hole : s.active h = .null
  empty : ∀ i, n ≤ i → s.active i = .null
  total : n ≤ s.total

def activeThreads (s : Tasks) (table : ℕ → Entry) : List ℕ :=
  (List.range maxThreads).filter fun tid =>
    match table tid with
    | .thread t => (s.threads t).taskID.isSome
    | _ => false

/-- `execve` is called by a process with one active thread. -/
def OneActive (s : Tasks) : TaskOp → Prop
  | .execClear pid => (s.procs pid).elim 0 (fun table => (activeThreads s table).length) ≤ 1
  | _ => True

instance (s : Tasks) : ∀ op, Decidable (OneActive s op)
  | .execClear _ => inferInstanceAs (Decidable (_ ≤ 1))
  | .processCreate | .threadCreate _ | .addTask _ _ | .fork | .execRecreate | .execAdd =>
      inferInstanceAs (Decidable True)

def HasFirst (s : Tasks) (pid : ℕ) : Prop := ∃ table t, s.procs pid = some table ∧ table 0 = .thread t

structure Tight (s : Tasks) : Prop where
  first : ∀ pid table tid t, s.procs pid = some table → table tid = .thread t → HasFirst s pid
  shape : (∃ n, Packed s n) ∨ ∃ n h pid stage, Hole s n h ∧ s.exec = some (pid, stage) ∧ HasFirst s pid ∧
    ∀ r, stage = .recreated r → r = some 0

lemma Packed.frame (h : Packed s n) (hactive : s'.active = s.active) (htotal : s'.total = s.total) : Packed s' n := by
  refine ⟨h.le, ?_, ?_, ?_⟩
  · rw [hactive]
    exact h.used
  · rw [hactive]
    exact h.empty
  · rw [htotal]
    exact h.total

lemma Hole.frame (hh : Hole s n h) (hactive : s'.active = s.active) (htotal : s'.total = s.total) :
    Hole s' n h := by
  refine ⟨hh.lt, hh.le, ?_, ?_, ?_, ?_⟩
  · rw [hactive]
    exact hh.used
  · rw [hactive]
    exact hh.hole
  · rw [hactive]
    exact hh.empty
  · rw [htotal]
    exact hh.total

lemma Packed.place (h : Packed s n) (hi : i < maxTasks) (hfree : (s.active i).free = true)
    (hbefore : ∀ j < i, (s.active j).free = false) : Packed (s.place t i) (n + 1) := by
  have hin : i = n := by
    rcases Nat.lt_trichotomy i n with hlt | heq | hgt
    · obtain ⟨u, hu⟩ := h.used i hlt
      rw [hu] at hfree
      cases hfree
    · exact heq
    · have hn := hbefore n hgt
      rw [h.empty n (Nat.le_refl n)] at hn
      cases hn
  subst hin
  refine ⟨hi, fun j hj => ?_, fun j hj => ?_, Nat.succ_le_succ h.total⟩
  · show ∃ u, update s.active i (.thread t) j = .thread u
    by_cases hji : j = i
    · rw [hji, update_self]
      exact ⟨t, rfl⟩
    · rw [update_of_ne hji]
      exact h.used j (by omega)
  · show update s.active i (.thread t) j = .null
    rw [update_of_ne (by omega)]
    exact h.empty j (by omega)

lemma Hole.place (hh : Hole s n h) (hfree : (s.active i).free = true)
    (hbefore : ∀ j < i, (s.active j).free = false) : Packed (s.place t i) n := by
  have hih : i = h := by
    rcases Nat.lt_trichotomy i h with hlt | heq | hgt
    · obtain ⟨u, hu⟩ := hh.used i (Nat.lt_trans hlt hh.lt) (Nat.ne_of_lt hlt)
      rw [hu] at hfree
      cases hfree
    · exact heq
    · have hn := hbefore h hgt
      rw [hh.hole] at hn
      cases hn
  subst hih
  have hlt := hh.lt
  refine ⟨hh.le, fun j hj => ?_, fun j hj => ?_, Nat.le_succ_of_le hh.total⟩
  · show ∃ u, update s.active i (.thread t) j = .thread u
    by_cases hji : j = i
    · rw [hji, update_self]
      exact ⟨t, rfl⟩
    · rw [update_of_ne hji]
      exact hh.used j hj hji
  · show update s.active i (.thread t) j = .null
    rw [update_of_ne (by omega)]
    exact hh.empty j hj

lemma Tight.empty : Tight Tasks.empty :=
  ⟨nofun, Or.inl ⟨0, Nat.zero_le _, nofun, fun _ _ => rfl, Nat.le_refl _⟩⟩

lemma Tight.frame (h : Tight s) (hactive : s'.active = s.active) (htotal : s'.total = s.total)
    (hexec : s'.exec = s.exec) (hkeep : ∀ pid, HasFirst s pid → HasFirst s' pid)
    (hfirst : ∀ pid table tid t, s'.procs pid = some table → table tid = .thread t → HasFirst s' pid) : Tight s' := by
  refine ⟨hfirst, ?_⟩
  rcases h.shape with ⟨n, hn⟩ | ⟨n, hole, pid, stage, hh, he, h0, hstage⟩
  · exact Or.inl ⟨n, hn.frame hactive htotal⟩
  · exact Or.inr ⟨n, hole, pid, stage, hh.frame hactive htotal, hexec.trans he, hkeep pid h0, hstage⟩

lemma HasFirst.grows (hg : Grows s s') (h : HasFirst s pid) : HasFirst s' pid := by
  obtain ⟨table, t, htable, ht⟩ := h
  obtain ⟨table', htable', hsub⟩ := hg.entries pid table htable
  exact ⟨table', t, htable', hsub 0 t ht⟩

lemma Tight.processCreate (h : Tight s) : Tight (processCreate s).2 := by
  have hg := processCreate_grows s
  rcases processCreate_cases s with he | ⟨pid, hnone, he⟩
  · rw [he]
    exact h
  rw [he] at hg ⊢
  refine h.frame rfl rfl rfl (fun _ => HasFirst.grows hg) fun p table tid t htable ht => ?_
  by_cases hp : p = pid
  · subst hp
    cases (update_self p _ s.procs).symm.trans htable
    cases ht
  · exact HasFirst.grows hg (h.first p table tid t ((update_of_ne hp _ _).symm.trans htable) ht)

lemma Tight.newThread (h : Tight s) {tid : ℕ} (htable : s.procs pid = some table) (hfree : (table tid).free = true)
    (hbefore : ∀ a < tid, (table a).free = false) : Tight (s.newThread pid tid table) := by
  have hg := newThread_grows htable hfree
  refine h.frame rfl rfl rfl (fun _ => HasFirst.grows hg) fun p tb a t htb ht => ?_
  by_cases hp : p = pid
  · subst hp
    refine ⟨update table tid (.thread s.next), ?_⟩
    by_cases h0 : tid = 0
    · subst h0
      exact ⟨s.next, update_self _ _ _, update_self _ _ _⟩
    · have hfirst : ∃ u, table 0 = .thread u := by
        have hzero := hbefore 0 (Nat.pos_of_ne_zero h0)
        revert hzero
        cases table 0 <;> simp [Entry.free]
      obtain ⟨u, hu⟩ := hfirst
      exact ⟨u, update_self _ _ _, (update_of_ne (Ne.symm h0) _ _).trans hu⟩
  · exact HasFirst.grows hg (h.first p tb a t ((update_of_ne hp _ _).symm.trans htb) ht)

lemma Tight.place (h : Tight s) (hi : i < maxTasks) (hfree : (s.active i).free = true)
    (hbefore : ∀ j < i, (s.active j).free = false) : ∃ n, Packed (s.place t i) n := by
  rcases h.shape with ⟨n, hn⟩ | ⟨n, hole, -, -, hh, -⟩
  · exact ⟨n + 1, hn.place hi hfree hbefore⟩
  · exact ⟨n, hh.place hfree hbefore⟩

lemma Tight.addTask (h : Tight s) (hcall : schedulerAddTask s pid tid = some (r, s')) :
    Tight s' := by
  rcases schedulerAddTask_cases hcall with ⟨-, rfl⟩ | ⟨-, -, t, i, -, -, -, -, hi, hfree, hbefore, -, rfl⟩
  · exact h
  · exact ⟨h.first, Or.inl (h.place hi hfree hbefore)⟩

lemma Tight.fork (h : Tight s) (hcall : syscallFork s = some s') : Tight s' := by
  obtain ⟨pid, r, -, -, htable, hadd⟩ := syscallFork_cases hcall
  exact (h.processCreate.newThread htable rfl fun a ha => absurd ha (Nat.not_lt_zero a)).addTask hadd

lemma activeThreads_unique (hL : Linked s) (hone : (activeThreads s table).length ≤ 1) {j a b u : ℕ}
    (ha : a < maxThreads) (hta : table a = .thread t) (hi : s.active i = .thread t) (hb : b < maxThreads)
    (hub : table b = .thread u) (hj : s.active j = .thread u) : i = j := by
  have hmem : ∀ c v k, c < maxThreads → table c = .thread v → s.active k = .thread v → c ∈ activeThreads s table := by
    intro c v k hc hv hk
    unfold activeThreads
    rw [mem_filter, mem_range, hv]
    refine ⟨hc, ?_⟩
    dsimp only
    rw [hL.slot k v hk]
    rfl
  have hab : a = b := by
    obtain ⟨c, hc⟩ : ∃ c, activeThreads s table ⊆ [c] := by
      cases hl : activeThreads s table with
      | nil => exact ⟨0, nil_subset _⟩
      | cons c l =>
        rw [hl, length_cons] at hone
        rw [eq_nil_of_length_eq_zero (by omega : l.length = 0)]
        exact ⟨c, List.Subset.refl _⟩
    rw [mem_singleton.mp (hc (hmem a t i ha hta hi)), mem_singleton.mp (hc (hmem b u j hb hub hj))]
  subst hab
  rw [hta] at hub
  cases hub
  exact some.inj ((hL.slot i t hi).symm.trans (hL.slot j t hj))

lemma Tight.execClear (h : Tight s) (hS : Sound s) (hnone : s.exec = none) (hone : OneActive s (.execClear pid))
    (hcall : execClear s pid = some s') : Tight { s' with exec := some (pid, .cleared) } := by
  obtain ⟨n, hn⟩ : ∃ n, Packed s n := by
    rcases h.shape with hn | ⟨_, _, _, _, _, he, _⟩
    · exact hn
    · rw [hnone] at he
      cases he
  obtain ⟨table, s1, htable, hc, rfl⟩ := execClear_cases hS.linked hcall
  simp only [OneActive, htable, elim_some] at hone
  have hkeep : ∀ p, HasFirst s p → HasFirst
      { s1 with procs := update s1.procs pid (some (keepFirst table)), exec := some (pid, .cleared) } p := by
    rintro p ⟨tb, t, htb, ht⟩
    by_cases hp : p = pid
    · subst hp
      rw [htable] at htb
      cases htb
      exact ⟨keepFirst table, t, update_self _ _ _, (keepFirst_zero table).trans ht⟩
    · exact ⟨tb, t, (update_of_ne hp _ _).trans ((congrFun hc.procs p).trans htb), ht⟩
  refine ⟨fun p tb a t htb ht => hkeep p ?_, ?_⟩
  · by_cases hp : p = pid
    · subst hp
      cases (update_self p _ s1.procs).symm.trans htb
      exact h.first p table a t htable (keepFirst_thread ht)
    · exact h.first p tb a t ((congrFun hc.procs p).symm.trans ((update_of_ne hp _ _).symm.trans htb)) ht
  · by_cases hsame : ∀ j, s1.active j = s.active j
    · exact Or.inl ⟨n, hn.frame (funext hsame) hc.total⟩
    · -- one slot is cleared, and no other
      obtain ⟨j, hj⟩ := not_forall.mp hsame
      rcases hc.slots j with he | ⟨hnull, a, ha, t, hta, hslot⟩
      · exact absurd he hj
      have hrest : ∀ i, i ≠ j → s1.active i = s.active i := by
        intro i hi
        rcases hc.slots i with he | ⟨-, b, hb, u, hub, hslot'⟩
        · exact he
        · exact absurd (activeThreads_unique hS.linked hone (mem_range.mp hb) hub hslot' (mem_range.mp ha) hta hslot) hi
      have hjn : j < n := by
        by_contra hge
        rw [hn.empty j (by omega)] at hslot
        cases hslot
      refine Or.inr ⟨n, j, pid, .cleared, ⟨hjn, hn.le, fun i hi hij => ?_, hnull, fun i hi => ?_, ?_⟩, rfl,
        hkeep pid (h.first pid table a t htable hta), nofun⟩
      · show ∃ u, s1.active i = .thread u
        rw [hrest i hij]
        exact hn.used i hi
      · show s1.active i = .null
        rw [hrest i (by omega)]
        exact hn.empty i hi
      · show n ≤ s1.total
        rw [hc.total]
        exact hn.total

lemma Tight.execRecreate (h : Tight s) (hS : Sound s) (hexec : s.exec = some (pid, .cleared)) :
    Tight { (threadRecreate s pid 0).2 with exec := some (pid, .recreated (threadRecreate s pid 0).1) } := by
  rw [hS.threadRecreate hexec]
  refine ⟨h.first, ?_⟩
  rcases h.shape with ⟨n, hn⟩ | ⟨n, hole, p, stage, hh, he, h0, -⟩
  · exact Or.inl ⟨n, hn.frame rfl rfl⟩
  · rw [hexec] at he
    cases he
    refine Or.inr ⟨n, hole, pid, _, hh.frame rfl rfl, rfl, h0, fun r hr => ?_⟩
    cases hr
    obtain ⟨table, t, htable, ht⟩ := h0
    simp only [threadRecreate, htable, ht]

lemma schedulerAddTask_free (htable : s.procs pid = some table) (ht : table 0 = .thread t)
    (htask : (s.threads t).taskID = none) (hi : i < maxTasks) (hfree : (s.active i).free = true) :
    ∀ s', schedulerAddTask s pid (some 0) ≠ some (none, s') := by
  intro s' hcall
  simp only [schedulerAddTask, htable, elim_some, ht, htask, ne_eq, not_true, if_false] at hcall
  split at hcall
  · rename_i hfind
    have hall := find?_eq_none.mp hfind i (mem_range.mpr hi)
    exact hall hfree
  · cases hcall

lemma Tight.execAdd (h : Tight s) (hS : Sound s) (hexec : s.exec = some (pid, .recreated tid))
    (hcall : schedulerAddTask s pid tid = some (r, s')) : Tight { s' with exec := none } := by
  have hpacked : ∃ n, Packed s' n := by
    rcases schedulerAddTask_cases hcall with ⟨rfl, rfl⟩ | ⟨-, -, t, i, -, -, -, -, hi, hfree, hbefore, -, rfl⟩
    · rcases h.shape with hn | ⟨n, hole, p, stage, hh, he, ⟨table, t, htable, ht⟩, hstage⟩
      · exact hn
      · rw [hexec] at he
        cases he
        cases hstage tid rfl
        refine absurd hcall (schedulerAddTask_free htable ht (hS.out.out pid _ hexec table t htable ht)
          (Nat.lt_of_lt_of_le hh.lt hh.le) ?_ _)
        rw [hh.hole]
        rfl
    · exact h.place hi hfree hbefore
  obtain ⟨n, hn⟩ := hpacked
  exact ⟨(h.addTask hcall).first, Or.inl ⟨n, hn.frame rfl rfl⟩⟩

lemma Tight.step (s : Tasks) (op : TaskOp) (s' : Tasks) (h : Sound s ∧ Tight s) (hok : AddsApart s op ∧ OneActive s op)
    (hstep : s.step op = some s') : Sound s' ∧ Tight s' := by
  obtain ⟨hS, hT⟩ := h
  obtain ⟨hapart, hone⟩ := hok
  refine ⟨hS.step s op s' hapart hstep, ?_⟩
  cases op with
  | processCreate =>
    cases hstep
    exact hT.processCreate
  | threadCreate pid =>
    cases hstep
    rcases threadCreate_cases s pid with he | ⟨table, tid, htable, -, hfree, hbefore, he⟩
    · rw [he]
      exact hT
    · rw [he]
      exact hT.newThread htable hfree hbefore
  | addTask pid tid =>
    obtain ⟨⟨r, s''⟩, hadd, rfl⟩ := map_eq_some_iff.mp hstep
    exact hT.addTask hadd
  | fork => exact hT.fork hstep
  | execClear pid =>
    simp only [Tasks.step] at hstep
    split at hstep
    · rename_i hnone
      obtain ⟨s1, hclear, rfl⟩ := map_eq_some_iff.mp hstep
      exact hT.execClear hS hnone hone hclear
    · cases hstep
  | execRecreate =>
    simp only [Tasks.step] at hstep
    split at hstep
    · rename_i pid hexec
      cases hstep
      exact hT.execRecreate hS hexec
    · cases hstep
  | execAdd =>
    simp only [Tasks.step] at hstep
    split at hstep
    · rename_i pid tid hexec
      obtain ⟨⟨r, s1⟩, hadd, rfl⟩ := map_eq_some_iff.mp hstep
      exact hT.execAdd hS hexec hadd
    · cases hstep

/-- **The next task**: where every `execve` was called by a process with one active thread, which no other call has
added meanwhile, `scheduler_get_next_task` stays inside the table and finds a thread that can run if there is one,
unless the current task is in the last slot. -/
theorem next_task_found (ops : List TaskOp) (s : Tasks)
    (hok : Along Tasks.step (fun s op => AddsApart s op ∧ OneActive s op) Tasks.empty ops)
    (hrun : run Tasks.step Tasks.empty ops = some s) (hexec : s.exec = none) (w : Waits) (currentTask : Option ℕ) :
    FindsTask s currentTask w ↔ s.total = 0 ∨ ∀ c, currentTask = some c → c + 1 < maxTasks := by
  have hT := (run_invariant_along Tasks.step Tight.step ops _ s ⟨Sound.empty, Tight.empty⟩ hok hrun).2
  rcases hT.shape with ⟨n, hn⟩ | ⟨_, _, _, _, _, he, _⟩
  · exact hn.findsTask_iff w currentTask
  · rw [hexec] at he
    cases he

def onlyThree : Waits where
  timerCounter := 7
  yieldTarget := fun _ => 0
  unlocked := fun t => t == 3
  eventPointer := fun _ => none
  eventAbort := fun _ => 0
  eventTimeout := fun _ => 0
  events := fun _ => 0

/-- Process 1 with one active thread calls `execve`; another task follows it. -/
theorem next_task_found_three : ∃ s, run Tasks.step Tasks.empty
    [.fork, .fork, .threadCreate 1, .fork, .execClear 1, .execRecreate, .execAdd] = some s ∧
      FindsTask s (some 1) onlyThree := by
  obtain ⟨s, hrun, hnone⟩ : ∃ s, run Tasks.step Tasks.empty
      [.fork, .fork, .threadCreate 1, .fork, .execClear 1, .execRecreate, .execAdd] = some s ∧ s.exec.isNone = true :=
    exists_run Tasks.step (by decide +kernel)
  refine ⟨s, hrun, (next_task_found _ s (by decide +kernel) hrun (isNone_iff_eq_none.mp hnone) onlyThree _).mpr ?_⟩
  right
  rintro c ⟨⟩
  decide +kernel

/-- **A task that is not seen**: process 1 has two active threads, in slots 1 and 2, when
it calls `execve`. Slot 2 stays empty, and the search from slot 1 never comes to slot 3.
From slot 511 the search starts at slot 512. -/
theorem runnable_task_missed : ∃ s, run Tasks.step Tasks.empty
    [.fork, .fork, .threadCreate 1, .addTask 1 (some 1), .fork, .execClear 1, .execRecreate, .execAdd] = some s ∧
      s.exec.isNone = true ∧ s.active 3 = .thread 3 ∧
        (schedulerGetNextTask s (some 1) onlyThree).map Prod.fst = some none ∧
      (schedulerGetNextTask s (some 511) onlyThree).isNone = true ∧ Runnable onlyThree 3 := by
  obtain ⟨s, hrun, h⟩ : ∃ s, run Tasks.step Tasks.empty
      [.fork, .fork, .threadCreate 1, .addTask 1 (some 1), .fork, .execClear 1, .execRecreate, .execAdd] = some s ∧
        s.exec.isNone = true ∧ s.active 3 = .thread 3 ∧
          (schedulerGetNextTask s (some 1) onlyThree).map Prod.fst = some none ∧
        (schedulerGetNextTask s (some 511) onlyThree).isNone = true :=
    exists_run Tasks.step (by decide +kernel)
  exact ⟨s, hrun, h.1, h.2.1, h.2.2.1, h.2.2.2, Nat.zero_le _, rfl, nofun⟩

end WivOS.Scheduler
