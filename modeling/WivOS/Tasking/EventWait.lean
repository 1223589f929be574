/-
# Waiting for an event

`event_await` and `event_await_timeout` of `kernel/tasking/event.c`, as a thread makes them one after another, with the
visits of `scheduler_get_next_task`. Only a time limit that has passed is cleared: after an `event_await_timeout` whose
event came, a later `event_await` ends at the old deadline and returns `true` (`ended_by_old_timeout`, `awaits_right`).
-/
import WivOS.Tasking.Sleep

namespace WivOS.EventWait

open Event Function List Option Scheduler Machine

/-! ### The calls of a thread -/

/-- A call for an event: when its time is over, for `event_await_timeout`; whether one was
taken off the counter for it, and whether its time was over when the scheduler let it go on. -/
structure Call where
  event : ℕ
  deadline : Option ℕ
  taken : Bool
  expired : Bool
deriving DecidableEq

inductive Phase where
  | idle
  /-- In `events_await`, before the counter is read. -/
  | polling (c : Call)
  /-- The counter was read, as not `0` or as `0`. -/
  | taking (c : Call)
  | parking (c : Call)
  /-- `event_pointer` is set, up to where the scheduler lets the thread go on. -/
  | waiting (c : Call)
  /-- Before the return: with the event read as pending, or let go on by the scheduler. -/
  | done (c : Call)
  | woken (c : Call)
deriving DecidableEq

structure Outcome where
  call : Call
  returned : Bool
deriving DecidableEq

/-- `event_await` returns `true` only if one was taken off the counter for it;
`event_await_timeout` returns `false` exactly if its time was over and none was taken. -/
def Outcome.Right (o : Outcome) : Prop :=
  match o.call.deadline with
  | none => o.returned = true → o.call.taken = true
  | some _ => o.returned = false ↔ o.call.expired = true ∧ o.call.taken = false

structure Waiter where
  waits : Waits
  phase : Phase
  ended : List Outcome

/-- A step of the thread, a visit of the scheduler, a tick, a notification, or what other
threads and the scheduler do to counters, locks and other threads. -/
inductive EventOp where
  | await (e : ℕ)
  | awaitTimeout (e timeout : ℕ)
  | poll
  | take
  | park
  | visit
  | ret
  | tick
  | notify (e : ℕ)
  | others (w : Waits)

def Call.value (c : Call) (w : Waits) (t : ℕ) : Bool := c.deadline.isNone || w.eventTimeout t != 0

def Call.found (c : Call) (w : Waits) : Call :=
  { c with taken := (takeEvents [c.event] w.events).1, expired := c.deadline.any (· ≤ w.timerCounter) }

def Waiter.step (t : ℕ) (s : Waiter) : EventOp → Option Waiter
  | .await e =>
    match s.phase with
    | .idle => some { s with phase := .polling ⟨e, none, false, false⟩ }
    | _ => none
  | .awaitTimeout e timeout =>
    match s.phase with
    | .idle =>
      let target := (s.waits.timerCounter + timeout * (timerFreq / 1000) + 1) % 2 ^ 64
      some { s with
        waits := { s.waits with eventTimeout := update s.waits.eventTimeout t target }
        phase := .polling ⟨e, some (s.waits.timerCounter + timeout + 1), false, false⟩ }
    | _ => none
  | .poll =>
    match s.phase with
    | .polling c => some { s with phase := if s.waits.events c.event ≠ 0 then .taking c else .parking c }
    | _ => none
  | .take =>
    match s.phase with
    | .taking c =>
      let events := update s.waits.events c.event (lockedDec (s.waits.events c.event))
      some { s with waits := { s.waits with events := events }, phase := .done { c with taken := true } }
    | _ => none
  | .park =>
    match s.phase with
    | .parking c =>
      let eventPointer := update s.waits.eventPointer t (some [c.event])
      some { s with waits := { s.waits with eventPointer := eventPointer }, phase := .waiting c }
    | _ => none
  | .visit =>
    match s.phase with
    | .waiting c =>
      let r := Scheduler.visit s.waits t
      some { s with waits := r.2, phase := if r.1 then .woken (c.found s.waits) else .waiting c }
    | _ => none
  | .ret =>
    match s.phase with
    | .done c => some { s with phase := .idle, ended := ⟨c, c.value s.waits t⟩ :: s.ended }
    | .woken c =>
      let returned := if s.waits.eventAbort t ≠ 0 then false else c.value s.waits t
      some { s with phase := .idle, ended := ⟨c, returned⟩ :: s.ended }
    | _ => none
  | .tick => some { s with waits := { s.waits with timerCounter := (s.waits.timerCounter + 1) % 2 ^ 64 } }
  | .notify e =>
    some { s with waits := { s.waits with
      events := update s.waits.events e (eventNotify (s.waits.events e)) } }
  | .others w =>
    -- the fields of `t` that the thread and the visits of it write, and the clock, stay
    some { s with waits := { w with
      timerCounter := s.waits.timerCounter
      eventPointer := update w.eventPointer t (s.waits.eventPointer t)
      eventAbort := update w.eventAbort t (s.waits.eventAbort t)
      eventTimeout := update w.eventTimeout t (s.waits.eventTimeout t) } }

def Phase.waitsFor : Phase → Option Call
  | .waiting c => some c
  | _ => none

/-- When the scheduler comes to the thread in `event_await`, no time limit of an earlier call
has passed, or there is an event; and no deadline is past the last tick. -/
def Waiter.NoOldTimeout (t : ℕ) (s : Waiter) : EventOp → Prop
  | .awaitTimeout _ timeout => s.waits.timerCounter + timeout + 1 < 2 ^ 64
  | .visit => ∀ c ∈ s.phase.waitsFor, c.deadline = none → s.waits.eventTimeout t ≠ 0 →
      s.waits.eventTimeout t ≤ s.waits.timerCounter → s.waits.events c.event ≠ 0
  | _ => True

/-! ### A visit -/

lemma takeEvents_single (e : ℕ) (events : ℕ → ℕ) : (takeEvents [e] events).1 = true ↔ events e ≠ 0 := by
  rw [takeEvents_true]
  simp

variable {w : Waits} {t timeout : ℕ} {c : Call} {s : Waiter}

/-- A visit of a thread that waits for one event changes nothing; or one is taken off the
counter; or there is none, and the time limit has passed and is cleared. -/
lemma visit_single {e : ℕ} (hptr : w.eventPointer t = some [e]) (habort : w.eventAbort t = 0) :
    Scheduler.visit w t = (false, w) ∨
      ((Scheduler.visit w t).1 = true ∧ (Scheduler.visit w t).2.eventAbort = w.eventAbort ∧
        ((w.events e ≠ 0 ∧ (Scheduler.visit w t).2.eventTimeout = w.eventTimeout ∧
          (Scheduler.visit w t).2.events = update w.events e (lockedDec (w.events e))) ∨
        (w.events e = 0 ∧ w.eventTimeout t ≠ 0 ∧ w.eventTimeout t ≤ w.timerCounter ∧
          (Scheduler.visit w t).2.eventTimeout = update w.eventTimeout t 0))) := by
  rcases visit_spec w t with ⟨htrue, -, hready, hlock, -⟩ | ⟨hfalse, -⟩
  · refine .inr ⟨htrue, ?_⟩
    have hlock' : ¬ w.unlocked t = false := by simp [hlock]
    have htake := takeEvents_single e w.events
    simp only [Scheduler.visit, if_neg (Nat.not_lt.mpr hready), if_neg hlock', hptr, habort, ne_eq,
      not_true_eq_false, if_false] at htrue ⊢
    by_cases he : w.events e = 0
    · have hnone : (takeEvents [e] w.events).1 = false := by simpa [he] using htake
      simp only [hnone, and_true] at htrue ⊢
      split at htrue
      · rename_i htime
        rw [if_pos htime]
        exact ⟨rfl, .inr ⟨he, htime.2, htime.1, rfl⟩⟩
      · simp at htrue
    · have hsome : (takeEvents [e] w.events).1 = true := htake.mpr he
      have hevents : (takeEvents [e] w.events).2 = update w.events e (lockedDec (w.events e)) := by
        rw [takeEvents, if_pos he, takeEvents]
      simp only [hsome, hevents, Bool.true_eq_false, and_false, if_false, if_true]
      exact ⟨trivial, .inl ⟨he, trivial, trivial⟩⟩
  · exact .inl hfalse

/-! ### Runs -/

/-- A call that has not been let go on: `event_timeout` is its own deadline, if it has one. -/
structure Call.Fresh (c : Call) (timeout : ℕ) : Prop where
  taken : c.taken = false
  expired : c.expired = false
  own : ∀ d, c.deadline = some d → d ≠ 0 ∧ timeout = d

/-- A call about to return: `event_timeout` says how it has ended. -/
structure Call.Over (c : Call) (timeout : ℕ) : Prop where
  taken : c.deadline = none → c.taken = true
  cleared : ∀ d, c.deadline = some d → (timeout = 0 ↔ c.expired = true ∧ c.taken = false)

def Phase.Sound (timeout : ℕ) (pointer : Option (List ℕ)) : Phase → Prop
  | .idle => True
  | .polling c => c.Fresh timeout
  | .taking c => c.Fresh timeout
  | .parking c => c.Fresh timeout
  | .waiting c => c.Fresh timeout ∧ pointer = some [c.event]
  | .done c => c.Over timeout
  | .woken c => c.Over timeout

/-- **The invariant**: no abort is requested, and all calls are right. -/
structure Waiter.Sound (t : ℕ) (s : Waiter) : Prop where
  abort : s.waits.eventAbort t = 0
  phase : s.phase.Sound (s.waits.eventTimeout t) (s.waits.eventPointer t)
  ended : ∀ o ∈ s.ended, o.Right

lemma Call.Fresh.done (h : c.Fresh timeout) : ({ c with taken := true } : Call).Over timeout := by
  refine ⟨fun _ => rfl, fun d hd => ?_⟩
  obtain ⟨hne, rfl⟩ := h.own d hd
  exact iff_of_false hne fun hfalse => Bool.noConfusion hfalse.2

lemma Call.Fresh.found_event (h : c.Fresh timeout) (he : w.events c.event ≠ 0) : (c.found w).Over timeout := by
  have htaken : (c.found w).taken = true := (takeEvents_single _ _).mpr he
  refine ⟨fun _ => htaken, fun d hd => ?_⟩
  obtain ⟨hne, rfl⟩ := h.own d hd
  refine iff_of_false hne fun hfalse => ?_
  rw [htaken] at hfalse
  exact Bool.noConfusion hfalse.2

lemma Call.Fresh.found_none (h : c.Fresh timeout) (hdeadline : c.deadline ≠ none) (he : w.events c.event = 0)
    (hpassed : timeout ≤ w.timerCounter) : (c.found w).Over 0 := by
  have htaken : (c.found w).taken = false := by
    rw [← Bool.not_eq_true, Call.found, takeEvents_single]
    exact not_not.mpr he
  refine ⟨fun hnone => absurd hnone hdeadline, fun d hd => iff_of_true rfl ⟨?_, htaken⟩⟩
  have hown : c.deadline = some d := hd
  obtain ⟨-, rfl⟩ := h.own d hown
  simp only [Call.found, hown, any_some, decide_eq_true_eq]
  exact hpassed

lemma Call.Over.right (h : c.Over (w.eventTimeout t)) : (Outcome.mk c (c.value w t)).Right := by
  cases hd : c.deadline with
  | none =>
    simp only [Outcome.Right, hd]
    exact fun _ => h.taken hd
  | some d =>
    simp only [Outcome.Right, hd, Call.value, ← h.cleared d hd, isNone_some, Bool.false_or, bne_eq_false_iff_eq]

lemma Waiter.Sound.cons (h : s.Sound t) {o : Outcome} (ho : o.Right) :
    Waiter.Sound t { s with phase := .idle, ended := o :: s.ended } :=
  ⟨h.abort, trivial, forall_mem_cons.mpr ⟨ho, h.ended⟩⟩

lemma Waiter.Sound.visit {s' : Waiter} (h : s.Sound t) (hok : s.NoOldTimeout t .visit)
    (hstep : s.step t .visit = some s') : s'.Sound t := by
  have hphase := h.phase
  simp only [Waiter.step] at hstep
  split at hstep
  · rename_i c hwaiting
    cases hstep
    rw [hwaiting] at hphase
    obtain ⟨hfresh, hptr⟩ := hphase
    have hevent := hok c (by rw [hwaiting]; rfl)
    rcases visit_single hptr h.abort with hfalse | ⟨htrue, habort, hcase⟩
    · rw [hfalse]
      exact ⟨h.abort, ⟨hfresh, hptr⟩, h.ended⟩
    · refine ⟨by rw [habort]; exact h.abort, ?_, h.ended⟩
      simp only [htrue, if_true, Phase.Sound]
      rcases hcase with ⟨he, htimeout, -⟩ | ⟨he, hne, hpassed, htimeout⟩
      · rw [htimeout]
        exact hfresh.found_event he
      · rw [htimeout, update_self]
        exact hfresh.found_none (fun hnone => hevent hnone hne hpassed he) he hpassed
  · cases hstep

lemma Waiter.Sound.step (s : Waiter) (op : EventOp) (s' : Waiter) (h : s.Sound t) (hok : s.NoOldTimeout t op)
    (hstep : s.step t op = some s') : s'.Sound t := by
  have hphase := h.phase
  cases op with
  | await e =>
    simp only [Waiter.step] at hstep
    split at hstep
    · cases hstep
      exact ⟨h.abort, ⟨rfl, rfl, fun d hd => (by cases hd)⟩, h.ended⟩
    · cases hstep
  | awaitTimeout e timeout =>
    have hlt : s.waits.timerCounter + timeout + 1 < 2 ^ 64 := hok
    simp only [Waiter.step] at hstep
    split at hstep
    · cases hstep
      refine ⟨h.abort, ⟨rfl, rfl, fun d hd => ?_⟩, h.ended⟩
      cases hd
      refine ⟨Nat.succ_ne_zero _, ?_⟩
      dsimp only
      rw [update_self, timerFreq, Nat.div_self (by decide), Nat.mul_one, Nat.mod_eq_of_lt hlt]
    · cases hstep
  | poll =>
    simp only [Waiter.step] at hstep
    split at hstep
    · rename_i c hpolling
      cases hstep
      rw [hpolling] at hphase
      refine ⟨h.abort, ?_, h.ended⟩
      dsimp only
      split
      · exact hphase
      · exact hphase
    · cases hstep
  | take =>
    simp only [Waiter.step] at hstep
    split at hstep
    · rename_i c htaking
      cases hstep
      rw [htaking] at hphase
      exact ⟨h.abort, Call.Fresh.done hphase, h.ended⟩
    · cases hstep
  | park =>
    simp only [Waiter.step] at hstep
    split at hstep
    · rename_i c hparking
      cases hstep
      rw [hparking] at hphase
      exact ⟨h.abort, ⟨hphase, update_self _ _ _⟩, h.ended⟩
    · cases hstep
  | visit => exact h.visit hok hstep
  | ret =>
    simp only [Waiter.step] at hstep
    split at hstep
    · rename_i c hdone
      cases hstep
      rw [hdone] at hphase
      exact h.cons (Call.Over.right hphase)
    · rename_i c hwoken
      cases hstep
      rw [hwoken] at hphase
      rw [if_neg (not_not.mpr h.abort)]
      exact h.cons (Call.Over.right hphase)
    · cases hstep
  | tick =>
    cases hstep
    exact ⟨h.abort, hphase, h.ended⟩
  | notify e =>
    cases hstep
    exact ⟨h.abort, hphase, h.ended⟩
  | others w =>
    cases hstep
    refine ⟨(update_self _ _ _).trans h.abort, ?_, h.ended⟩
    simp only [update_self]
    exact hphase

lemma Waiter.Sound.visit_iff {s1 s2 : Waiter} (h : s.Sound t) (hwaiting : s.phase = .waiting c)
    (hdeadline : c.deadline = none) (hrunnable : Runnable s.waits t) (hvisit : s.step t .visit = some s1)
    (hret : s1.step t .ret = some s2) : (∀ o ∈ s2.ended, o.Right) ↔ s.NoOldTimeout t .visit := by
  constructor
  · intro hright c' hc' _ hne hpassed he
    rw [hwaiting] at hc'
    cases hc'
    have htrue : (Scheduler.visit s.waits t).1 = true := by
      rcases visit_spec s.waits t with ⟨htrue, -⟩ | ⟨-, hnot⟩
      · exact htrue
      · exact absurd hrunnable hnot
    have hphase := h.phase
    rw [hwaiting] at hphase
    rcases visit_single hphase.2 h.abort with hfalse | ⟨-, habort, -⟩
    · rw [hfalse] at htrue
      cases htrue
    · simp only [Waiter.step, hwaiting, htrue, if_true, some.injEq] at hvisit
      subst hvisit
      simp only [Waiter.step, habort, h.abort, ne_eq, not_true_eq_false, if_false, some.injEq] at hret
      subst hret
      have hlast := hright _ mem_cons_self
      have hfound : (c.found s.waits).deadline = none := hdeadline
      have htaken : (c.found s.waits).taken = true := by
        simp only [Outcome.Right, hfound] at hlast
        exact hlast (by rw [Call.value, hfound]; rfl)
      exact (takeEvents_single _ _).mp htaken he
  · intro hok
    exact ((h.visit hok hvisit).step s1 .ret s2 trivial hret).ended

/-- **The calls return what they should**: in every interleaving, `event_await` returns `true` only if one was taken
off the counter for it, and `event_await_timeout` returns `false` exactly if its own time was over and none was taken,
where no deadline is past the last tick and no `event_await` is let go on because of the time limit of an earlier
call. One that is does not. -/
theorem awaits_right (t : ℕ) (s : Waiter) (hidle : s.phase = .idle) (habort : s.waits.eventAbort t = 0)
    (hended : s.ended = []) (ops : List EventOp)
    (hok : Along (Waiter.step t) (Waiter.NoOldTimeout t) s ops) (s' : Waiter)
    (hrun : run (Waiter.step t) s ops = some s') : (∀ o ∈ s'.ended, o.Right) ∧
      ∀ c, s'.phase = .waiting c → c.deadline = none → Runnable s'.waits t → ∀ s₁ s₂,
        s'.step t .visit = some s₁ → s₁.step t .ret = some s₂ →
          ((∀ o ∈ s₂.ended, o.Right) ↔ s'.NoOldTimeout t .visit) := by
  have hinit : s.Sound t := by
    refine ⟨habort, ?_, ?_⟩
    · rw [hidle]
      trivial
    · rw [hended]
      exact fun o ho => absurd ho not_mem_nil
  have h := run_invariant_along (Waiter.step t) Waiter.Sound.step ops s s' hinit hok hrun
  exact ⟨h.ended, fun c hwaiting hdeadline hrunnable s₁ s₂ => h.visit_iff hwaiting hdeadline hrunnable⟩

instance (t : ℕ) (s : Waiter) : ∀ op : EventOp, Decidable (s.NoOldTimeout t op)
  | .awaitTimeout _ _ => inferInstanceAs (Decidable (_ < _))
  | .visit => inferInstanceAs (Decidable (∀ c ∈ s.phase.waitsFor, _))
  | .await _ | .poll | .take | .park | .ret | .tick | .notify _ | .others _ => isTrue trivial

def start : Waiter := ⟨nothingHeld, .idle, []⟩

/-- Thread 7 waits for event 3 with a limit of 5 ms, and is notified; then it waits again,
and finds the event pending. -/
theorem awaits_right_two : ∃ s, run (Waiter.step 7) start
    [.awaitTimeout 3 5, .poll, .park, .notify 3, .visit, .ret, .await 3, .notify 3, .poll, .take, .ret] = some s ∧
      s.ended = [⟨⟨3, none, true, false⟩, true⟩, ⟨⟨3, some 6, true, false⟩, true⟩] ∧ ∀ o ∈ s.ended, o.Right := by
  obtain ⟨s, hrun, hended⟩ : ∃ s, run (Waiter.step 7) start
      [.awaitTimeout 3 5, .poll, .park, .notify 3, .visit, .ret, .await 3, .notify 3, .poll, .take, .ret] = some s ∧
      s.ended = [⟨⟨3, none, true, false⟩, true⟩, ⟨⟨3, some 6, true, false⟩, true⟩] :=
    exists_run _ (by decide +kernel)
  exact ⟨s, hrun, hended, (awaits_right 7 start rfl rfl rfl _ (by decide +kernel) s hrun).1⟩

/-- An `event_await_timeout` with a limit of 2 ms finds its event. In the `event_await` after it the limit passes, and
it returns `true` with nothing taken. With a deadline of `2^64`, an `event_await_timeout` that takes its event returns
`false`. -/
theorem ended_by_old_timeout :
    (∃ s, run (Waiter.step 7) start [.notify 3, .awaitTimeout 3 2, .poll, .take, .ret,
      .await 3, .poll, .park, .tick, .tick, .tick, .visit, .ret] = some s ∧
        s.ended = [⟨⟨3, none, false, false⟩, true⟩, ⟨⟨3, some 3, true, false⟩, true⟩]) ∧
    ∃ s, run (Waiter.step 7) start [.notify 3, .awaitTimeout 3 (2 ^ 64 - 1), .poll, .take, .ret] = some s ∧
      s.ended = [⟨⟨3, some (2 ^ 64), true, false⟩, false⟩] :=
  ⟨exists_run _ (by decide +kernel), exists_run _ (by decide +kernel)⟩

end WivOS.EventWait
