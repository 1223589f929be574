/-
# Event counters

The counter of an event, of `kernel/tasking/event.c` and `kernel/utils/spinlock.h`. A
counter has 32 bits, but `locked_inc` and `locked_dec` are `incw` and `decw`: they change
the low half only. From `0` on the high half stays `0`, and then `event_reset` ends. The
counter is the number of outstanding notifications only modulo `2^16`.
-/
import Mathlib.Algebra.Group.Nat.Defs
import WivOS.Lib.Machine

namespace WivOS.Event

open Machine

def lockedInc (var : ℕ) : ℕ := var / 0x10000 * 0x10000 + (var + 1) % 0x10000

def lockedDec (var : ℕ) : ℕ := var / 0x10000 * 0x10000 + (var + 0xFFFF) % 0x10000

def eventNotify (event : ℕ) : ℕ := lockedInc event

def resetLoop : ℕ → ℕ → Option ℕ
  | 0, event => if event = 0 then some event else none
  | n + 1, event => if event = 0 then some event else resetLoop n (lockedDec event)

/-- `event_reset`; `none` if it does not end. If the high half is not `0`, no round
makes the counter `0`; otherwise each round takes one off. -/
def eventReset (event : ℕ) : Option ℕ := resetLoop event event

def eventsAwait (event : ℕ) : Option ℕ := if event ≠ 0 then some (lockedDec event) else none

variable {event : ℕ}

lemma eventNotify_lt (h : event < 0x10000) : eventNotify event < 0x10000 := by
  rw [eventNotify, lockedInc]
  omega

lemma eventNotify_pos (h : event < 0x10000) (hne : event ≠ 0xFFFF) : eventNotify event ≠ 0 := by
  rw [eventNotify, lockedInc]
  omega

lemma lockedDec_eq (h : event < 0x10000) (hne : event ≠ 0) : lockedDec event = event - 1 := by
  rw [lockedDec]
  omega

lemma resetLoop_eq : ∀ {n event : ℕ}, event ≤ n → event < 0x10000 → resetLoop n event = some 0
  | 0, event, hn, _ => by rw [resetLoop, Nat.le_zero.mp hn, if_pos rfl]
  | n + 1, event, hn, h => by
    by_cases h0 : event = 0
    · rw [resetLoop, if_pos h0, h0]
    · rw [resetLoop, if_neg h0, lockedDec_eq h h0, resetLoop_eq (by omega) (by omega)]

lemma eventReset_eq (h : event < 0x10000) : eventReset event = some 0 := resetLoop_eq (Nat.le_refl _) h

/-! ### Notifications and consumptions -/

inductive Op where
  | notify
  | consume
  | reset
  deriving DecidableEq

structure Counted where
  event : ℕ
  notified : ℕ
  consumed : ℕ

/-- A consumption is the `locked_read` and `locked_dec` of `events_await` and of the scheduler; an event that reads `0` is
not consumed. -/
def Counted.step (s : Counted) : Op → Option Counted
  | .notify => some ⟨eventNotify s.event, s.notified + 1, s.consumed⟩
  | .consume => some ((eventsAwait s.event).elim s fun event => ⟨event, s.notified, s.consumed + 1⟩)
  | .reset => (eventReset s.event).map fun event => ⟨event, 0, 0⟩

/-- The counter is the number of outstanding notifications, modulo `2^16`. -/
structure Counted.Inv (s : Counted) : Prop where
  le : s.consumed ≤ s.notified
  event_eq : s.event = (s.notified - s.consumed) % 0x10000

lemma Counted.Inv.step {s : Counted} (h : s.Inv) (op : Op) : ∃ s', s.step op = some s' ∧ s'.Inv := by
  obtain ⟨hle, heq⟩ := h
  cases op with
  | notify => exact ⟨_, rfl, by dsimp only; omega, by dsimp only [eventNotify, lockedInc]; omega⟩
  | consume =>
    by_cases h0 : s.event = 0
    · exact ⟨s, by simp [Counted.step, eventsAwait, h0], hle, heq⟩
    · exact ⟨⟨lockedDec s.event, s.notified, s.consumed + 1⟩, by simp [Counted.step, eventsAwait, h0],
        by dsimp only; omega, by dsimp only [lockedDec]; omega⟩
  | reset => exact ⟨⟨0, 0, 0⟩, by rw [Counted.step, eventReset_eq (by omega), Option.map_some], Nat.le_refl 0, rfl⟩

/-- **When an event reads as notified**: after every sequence of calls, reading it tells whether notifications are
outstanding exactly if their number is not a positive multiple of `2^16`. -/
theorem event_reads_iff (ops : List Op) : ∃ t, run Counted.step ⟨0, 0, 0⟩ ops = some t ∧
    ((t.event ≠ 0 ↔ t.consumed < t.notified) ↔ ¬(t.consumed < t.notified ∧ 0x10000 ∣ t.notified - t.consumed)) := by
  obtain ⟨t, ht, hle, heq⟩ := run_total Counted.step (I := Counted.Inv) (fun _ op _ h => h.step op) ⟨0, 0, 0⟩
    ⟨Nat.le_refl 0, rfl⟩
  exact ⟨t, ht, by omega⟩

lemma run_notify (n : ℕ) :
    run Counted.step ⟨0, 0, 0⟩ (List.replicate n .notify) = some ⟨n % 0x10000, n, 0⟩ := by
  induction n with
  | zero => rfl
  | succ n ih =>
    rw [List.replicate_succ', run_append, ih]
    simp only [Option.bind_some, run_cons, run_nil, Counted.step, eventNotify, lockedInc]
    congr 2
    omega

/-- After `2^16` notifications and no consumption the event reads `0`. -/
theorem event_reads_zero : ∃ t, run Counted.step ⟨0, 0, 0⟩ (List.replicate 0x10000 .notify) = some t ∧
    t.event = 0 ∧ t.consumed < t.notified ∧ t.notified - t.consumed < 2 ^ 32 :=
  ⟨_, run_notify _, rfl, by decide, by decide⟩

end WivOS.Event
