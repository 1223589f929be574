/-
# Submission and completion queues of an NVMe controller

`nvme_initialize_queue`, `nvme_send_command` and `nvme_send_command_and_wait` of `kernel/devices/nvme.c`, and the
controller, which completes the commands in order, at any time. When a command fails, the driver does not advance its
head, and the next call finds the failed completion again (`failed_status_returned_twice`,
`returns_own_status_iff`).
-/
import Mathlib.Data.BitVec
import WivOS.Lib.Machine
import WivOS.Lib.Ring

namespace WivOS.Nvme

open List Option Machine

structure Queue where
  size : ℕ
  sqTail : ℕ
  cqHead : ℕ
  cqPhase : Bool
  commandId : BitVec 32

def nvmeInitializeQueue (slots : ℕ) : Queue := ⟨slots, 0, 0, true, 0⟩

/-- `nvme_send_command`: the new tail is also written to the doorbell. -/
def nvmeSendCommand (q : Queue) : Queue :=
  { q with sqTail := if q.sqTail + 1 = q.size then 0 else q.sqTail + 1 }

/-- `nvme_send_command_and_wait` up to its loop. -/
def nvmeStartCommand (q : Queue) : Queue := nvmeSendCommand { q with commandId := q.commandId + 1 }

/-- One round of the loop of `nvme_send_command_and_wait`, which has read `status`
from the slot at the head, and the rest of the function if the loop ends. `head`
and `phase` were read when the function was called. -/
def nvmePoll (q : Queue) (head : ℕ) (phase : Bool) (status : BitVec 16) : Option (BitVec 16 × Queue) :=
  if status.getLsbD 0 = phase then
    let status := status >>> 1
    if status ≠ 0 then some (status, q)
    else if head + 1 = q.size then some (status, { q with cqHead := 0, cqPhase := !q.cqPhase })
    else some (status, { q with cqHead := head + 1 })
  else none

/-! ### The driver and the controller -/

/-- The queue with the locals of the call that waits, and the controller: the
commands sent, the completions written, and the ring they are written to. For
each call that has returned, `returns` has the value and the number of
completions written by then. -/
structure Bus where
  queue : Queue
  waiting : Option (ℕ × Bool)
  submitted : ℕ
  completed : ℕ
  result : ℕ → BitVec 16
  returns : List (BitVec 16 × ℕ)

inductive BusEvent where
  | call
  | complete
  | poll

section
variable (size : ℕ) (status : ℕ → BitVec 15)

def completion (k : ℕ) : BitVec 16 := (status k).concat (Ring.phase size k)

def Bus.start : Bus := ⟨nvmeInitializeQueue size, none, 0, 0, fun _ => 0, []⟩

def Bus.call (st : Bus) : Bus :=
  { st with
    queue := nvmeStartCommand st.queue
    waiting := some (st.queue.cqHead, st.queue.cqPhase)
    submitted := st.submitted + 1 }

def Bus.complete (st : Bus) : Bus :=
  { st with
    result := Function.update st.result (st.completed % size) (completion size status st.completed)
    completed := st.completed + 1 }

def Bus.poll (st : Bus) (w : ℕ × Bool) : Bus :=
  match nvmePoll st.queue w.1 w.2 (st.result st.queue.cqHead) with
  | some (r, queue) => { st with queue, waiting := none, returns := st.returns ++ [(r, st.completed)] }
  | none => st

/-- The calls are made one after another, and commands are completed after they were
sent. -/
def Bus.step (st : Bus) : BusEvent → Option Bus
  | .call => if st.waiting = none then some st.call else none
  | .complete => if st.completed < st.submitted then some (st.complete size status) else none
  | .poll => st.waiting.map st.poll

/-- Each call has returned the status of its own command, and not before that was
completed. -/
def Faithful (st : Bus) : Prop :=
  ∀ k r c, st.returns[k]? = some (r, c) → r = (status k).setWidth 16 ∧ k < c

/-- A call that waits returns from the next poll, once all commands are completed. -/
def Returns (st : Bus) : Prop := ∀ w, st.waiting = some w → st.completed = st.submitted → (st.poll w).waiting = none

end

/-! ### Completions -/

variable {size : ℕ} {status : ℕ → BitVec 15} {st st' : Bus}

lemma completion_phase (k : ℕ) : (completion size status k).getLsbD 0 = Ring.phase size k :=
  BitVec.getLsbD_concat_zero

lemma completion_status (k : ℕ) : completion size status k >>> 1 = (status k).setWidth 16 := by
  apply BitVec.eq_of_toNat_eq
  have hb := Bool.toNat_lt (Ring.phase size k)
  rw [BitVec.toNat_ushiftRight, completion, BitVec.toNat_concat, BitVec.toNat_setWidth, Nat.shiftRight_eq_div_pow,
    Nat.mod_eq_of_lt (by omega)]
  omega

lemma setWidth_ne_zero {s : BitVec 15} : s.setWidth 16 ≠ 0 ↔ s ≠ 0 := by
  rw [ne_eq, ne_eq, not_iff_not, ← BitVec.toNat_inj, ← BitVec.toNat_inj, BitVec.toNat_setWidth,
    Nat.mod_eq_of_lt (by omega)]
  rfl

/-! ### The invariant -/

/-- The ring holds the completions written so far; a call that waits is the last
one made; and the driver's head and phase are those of the next completion, if
no call has failed. -/
structure Synced (size : ℕ) (status : ℕ → BitVec 15) (st : Bus) : Prop where
  slots : st.queue.size = size
  result : st.result = Ring.filled size (fun _ => 0) (completion size status) st.completed
  written : st.returns.length ≤ st.completed
  sent : st.completed ≤ st.submitted
  idle : st.waiting = none → st.submitted = st.returns.length
  busy : ∀ w, st.waiting = some w → st.submitted = st.returns.length + 1 ∧ w = (st.queue.cqHead, st.queue.cqPhase)
  inStep : (∀ j < st.returns.length, status j = 0) →
    st.queue.cqHead = st.returns.length % size ∧ st.queue.cqPhase = Ring.phase size st.returns.length
  faithful : Faithful status st

lemma Synced.start (hs : 0 < size) : Synced size status (Bus.start size) where
  slots := rfl
  result := rfl
  written := Nat.le_refl 0
  sent := Nat.le_refl 0
  idle _ := rfl
  busy _ h := absurd h nofun
  inStep _ := ⟨(Nat.zero_mod size).symm, (Ring.phase_of_lt hs).symm⟩
  faithful _ _ _ h := absurd h nofun

lemma Synced.call (h : Synced size status st) (hw : st.waiting = none) : Synced size status st.call :=
  ⟨h.slots, h.result, h.written, Nat.le_succ_of_le h.sent, nofun,
    fun _ hw' => ⟨congrArg (· + 1) (h.idle hw), (some.inj hw').symm⟩, h.inStep, h.faithful⟩

lemma Synced.complete (h : Synced size status st) (hlt : st.completed < st.submitted) :
    Synced size status (st.complete size status) :=
  ⟨h.slots, by rw [Bus.complete, h.result, Ring.filled], Nat.le_succ_of_le h.written, hlt, h.idle, h.busy, h.inStep,
    h.faithful⟩

lemma Synced.poll_iff (h : Synced size status st) (hs : 0 < size) (hw : st.waiting ≠ none)
    (hz : ∀ j < st.returns.length, status j = 0) :
    (st.result st.queue.cqHead).getLsbD 0 = st.queue.cqPhase ↔ st.returns.length < st.completed := by
  obtain ⟨w, hw⟩ := ne_none_iff_exists'.mp hw
  have hsub := (h.busy w hw).1
  have hsent := h.sent
  rw [(h.inStep hz).1, (h.inStep hz).2, h.result]
  exact Ring.written_iff_phase hs (fun s : BitVec 16 => s.getLsbD 0)
    (fun _ => rfl) completion_phase h.written (by omega)

lemma nvmePoll_completion (status : ℕ → BitVec 15) {q : Queue} (hs : 0 < size) {k : ℕ} (hsize : q.size = size)
    (hhead : q.cqHead = k % size) (hphase : q.cqPhase = Ring.phase size k) :
    ∃ q', nvmePoll q q.cqHead q.cqPhase (completion size status k) = some ((status k).setWidth 16, q') ∧
      q'.size = size ∧ (status k ≠ 0 → q' = q) ∧
      (status k = 0 → q'.cqHead = (k + 1) % size ∧ q'.cqPhase = Ring.phase size (k + 1)) := by
  rw [nvmePoll, completion_phase, if_pos hphase.symm, completion_status]
  simp only
  by_cases hz : status k = 0
  · have hz' : ¬ (status k).setWidth 16 ≠ 0 := fun h => setWidth_ne_zero.mp h hz
    rw [if_neg hz', Ring.succ_mod hs, Ring.phase_succ hs, hhead, hphase, hsize]
    by_cases hend : k % size + 1 = size
    · rw [if_pos hend, if_pos hend, if_pos hend]
      exact ⟨_, rfl, rfl, fun h => absurd hz h, fun _ => ⟨rfl, rfl⟩⟩
    · rw [if_neg hend, if_neg hend, if_neg hend]
      exact ⟨_, rfl, rfl, fun h => absurd hz h, fun _ => ⟨rfl, rfl⟩⟩
  · rw [if_pos (setWidth_ne_zero.mpr hz)]
    exact ⟨q, rfl, hsize, fun _ => rfl, fun h => absurd h hz⟩

lemma Faithful.snoc {r : BitVec 16} {c : ℕ} (h : Faithful status st) (hr : r = (status st.returns.length).setWidth 16)
    (hc : st.returns.length < c) {q : Queue} :
    Faithful status { st with queue := q, waiting := none, returns := st.returns ++ [(r, c)] } := by
  intro k r' c' hk
  rcases Nat.lt_trichotomy k st.returns.length with hlt | rfl | hgt
  · rw [getElem?_append_left hlt] at hk
    exact h k r' c' hk
  · simp only [getElem?_concat_length, some.injEq, Prod.mk.injEq] at hk
    exact ⟨hk.1 ▸ hr, hk.2 ▸ hc⟩
  · rw [getElem?_eq_none (by simp; omega)] at hk
    cases hk

lemma Synced.poll (h : Synced size status st) (hs : 0 < size) {w : ℕ × Bool} (hw : st.waiting = some w)
    (hz : ∀ j < st.returns.length, status j = 0) : Synced size status (st.poll w) ∧ (st.returns.length < st.completed →
      (st.poll w).waiting = none ∧ (st.poll w).returns.length = st.returns.length + 1 ∧
      (status st.returns.length ≠ 0 → (st.poll w).queue = st.queue)) := by
  have hiff := h.poll_iff hs (by rw [hw]; exact some_ne_none w) hz
  obtain ⟨hsub, rfl⟩ := h.busy w hw
  have hsent := h.sent
  rw [Bus.poll]
  by_cases hlt : st.returns.length < st.completed
  · have hslot : st.result st.queue.cqHead = completion size status st.returns.length := by
      rw [h.result, (h.inStep hz).1, Ring.filled_of_lt hlt (by omega)]
    obtain ⟨q', hpoll, hsize, hfail, hok⟩ := nvmePoll_completion status hs h.slots (h.inStep hz).1 (h.inStep hz).2
    rw [hslot, hpoll]
    refine ⟨⟨hsize, h.result, ?_, h.sent, ?_, nofun, ?_, h.faithful.snoc rfl hlt⟩, fun _ => ⟨rfl, by simp, hfail⟩⟩
    · rw [length_append]
      exact hlt
    · intro _
      simpa using hsub
    · intro hz'
      simpa using hok (hz' st.returns.length (by simp))
  · rw [nvmePoll, if_neg (hiff.not.mpr hlt)]
    exact ⟨h, fun h' => absurd h' hlt⟩

lemma poll_submitted (st : Bus) (w : ℕ × Bool) : (st.poll w).submitted = st.submitted := by
  rw [Bus.poll]
  split <;> rfl

lemma Synced.step (hs : 0 < size) {n : ℕ} (hz : ∀ j, j + 1 < n → status j = 0) {e : BusEvent}
    (h : st.submitted ≤ n → Synced size status st) (hstep : st.step size status e = some st') (hn : st'.submitted ≤ n) :
    Synced size status st' := by
  cases e with
  | call =>
    rw [Bus.step] at hstep
    split_ifs at hstep with hw
    cases hstep
    exact (h (Nat.le_of_succ_le hn)).call hw
  | complete =>
    rw [Bus.step] at hstep
    split_ifs at hstep with hlt
    cases hstep
    exact (h hn).complete hlt
  | poll =>
    obtain ⟨w, hw, rfl⟩ := map_eq_some_iff.mp hstep
    rw [poll_submitted] at hn
    have hlen := ((h hn).busy w hw).1
    exact ((h hn).poll hs hw fun j hj => hz j (by omega)).1

/-! ### Runs -/

lemma round (h : Synced size status st) (hs : 0 < size) (hidle : st.waiting = none)
    (hz : ∀ j < st.returns.length, status j = 0) :
    ∃ st', run (Bus.step size status) st [.call, .complete, .poll] = some st' ∧ Synced size status st' ∧
      st'.waiting = none ∧ st'.returns.length = st.returns.length + 1 ∧
      (status st.returns.length ≠ 0 → st'.queue.cqHead = st.queue.cqHead ∧ st'.queue.cqPhase = st.queue.cqPhase) := by
  have hlt : st.call.completed < st.call.submitted := Nat.lt_succ_of_le h.sent
  have hS := (h.call hidle).complete hlt
  obtain ⟨hS', hret⟩ := hS.poll hs (w := (st.queue.cqHead, st.queue.cqPhase)) rfl hz
  obtain ⟨hw, hlen, hfail⟩ := hret (Nat.lt_succ_of_le h.written)
  refine ⟨_, ?_, hS', hw, hlen, fun hne => ?_⟩
  · rw [run_cons, Bus.step, if_pos hidle, bind_some, run_cons, Bus.step, if_pos hlt, bind_some]
    rfl
  · rw [hfail hne]
    exact ⟨rfl, rfl⟩

lemma rounds (hs : 0 < size) : ∀ k, (∀ j < k, status j = 0) →
    ∃ ops st, run (Bus.step size status) (Bus.start size) ops = some st ∧ Synced size status st ∧
      st.waiting = none ∧ st.returns.length = k
  | 0, _ => ⟨[], _, rfl, .start hs, rfl, rfl⟩
  | k + 1, hz => by
    obtain ⟨ops, st, hrun, hS, hw, rfl⟩ := rounds hs k fun j hj => hz j (by omega)
    obtain ⟨st', hround, hS', hw', hlen, -⟩ := round hS hs hw fun j hj => hz j (by omega)
    exact ⟨ops ++ [.call, .complete, .poll], st', by rw [run_append, hrun, bind_some, hround], hS', hw', hlen⟩

lemma stale_poll (hs : 0 < size) (h : Synced size status st) (hidle : st.waiting = none) {k : ℕ}
    (hlen : st.returns.length = k + 1) (hhead : st.queue.cqHead = k % size)
    (hphase : st.queue.cqPhase = Ring.phase size k) :
    ∃ st' r, run (Bus.step size status) st [.call, .poll] = some st' ∧ st'.submitted = k + 2 ∧
      st'.returns = st.returns ++ [(r, k + 1)] := by
  have hsub := h.idle hidle
  have hsent := h.sent
  have hwritten := h.written
  have hslot : st.call.result st.call.queue.cqHead = completion size status k := by
    show st.result st.queue.cqHead = _
    rw [h.result, hhead, Ring.filled_of_lt (by omega) (by omega)]
  obtain ⟨q', hpoll, -⟩ := nvmePoll_completion status (q := st.call.queue) hs h.slots hhead hphase
  refine ⟨_, (status k).setWidth 16, by rw [run_cons, Bus.step, if_pos hidle, bind_some]; rfl, ?_, ?_⟩
  · rw [poll_submitted]
    show st.submitted + 1 = k + 2
    omega
  · rw [Bus.poll, hslot]
    have hpoll' : nvmePoll st.call.queue st.queue.cqHead st.queue.cqPhase (completion size status k) =
      some ((status k).setWidth 16, q') := hpoll
    simp only [hpoll']
    show st.returns ++ [(_, st.completed)] = _
    rw [show st.completed = k + 1 by omega]

/-- **The calls return their own command's status if and only if no command but the last fails**: in every
interleaving with the controller, and when the command is completed and not before. -/
theorem returns_own_status_iff (size : ℕ) (hs : 0 < size) (status : ℕ → BitVec 15) (n : ℕ) :
    (∀ ops st, run (Bus.step size status) (Bus.start size) ops = some st → st.submitted ≤ n →
      Faithful status st ∧ Returns st) ↔ ∀ j, j + 1 < n → status j = 0 := by
  constructor
  · intro h j
    -- the first command that fails makes the next call return too early
    induction j using Nat.strong_induction_on with
    | _ j ih =>
      intro hj
      by_contra hne
      obtain ⟨ops, st, hrun, hS, hw, rfl⟩ := rounds hs j fun i hi => ih i hi (by omega)
      have hz : ∀ i < st.returns.length, status i = 0 := fun i hi => ih i hi (by omega)
      obtain ⟨st1, hrun1, hS1, hw1, hlen1, hfail⟩ := round hS hs hw hz
      obtain ⟨st2, r, hrun2, hsub2, hret2⟩ := stale_poll hs hS1 hw1 hlen1 ((hfail hne).1.trans (hS.inStep hz).1)
        ((hfail hne).2.trans (hS.inStep hz).2)
      obtain ⟨hF, -⟩ := h (ops ++ [.call, .complete, .poll] ++ [.call, .poll]) st2
        (by rw [run_append, run_append, hrun, bind_some, hrun1, bind_some, hrun2])
        (by omega)
      have hlt := (hF (st.returns.length + 1) r (st.returns.length + 1) (by
        rw [hret2, ← hlen1, getElem?_concat_length])).2
      omega
  · intro hz ops st hrun hn
    have hS := run_invariant (Bus.step size status) (I := fun st => st.submitted ≤ n → Synced size status st)
      (fun _ _ _ h hstep hn => Synced.step hs hz h hstep hn) ops _ st (fun _ => .start hs) hrun hn
    refine ⟨hS.faithful, fun w hw hall => ?_⟩
    have hlen := (hS.busy w hw).1
    exact ((hS.poll hs hw fun j hj => hz j (by omega)).2 (by omega)).1

theorem returns_own_status_three :
    0 < 2 ∧ ∀ ops st, run (Bus.step 2 fun k => if k = 2 then 7 else 0) (Bus.start 2) ops = some st →
      st.submitted ≤ 3 → Faithful (fun k => if k = 2 then 7 else 0) st ∧ Returns st :=
  ⟨by decide, (returns_own_status_iff 2 (by decide) (fun k => if k = 2 then 7 else 0) 3).mpr fun _ hj =>
    if_neg (by omega)⟩

/-- The first of two commands fails: the second call returns the first one's status,
and before the second command is completed. -/
theorem failed_status_returned_twice : ∃ st, run (Bus.step 2 fun k => if k = 0 then 1 else 0) (Bus.start 2)
        [.call, .complete, .poll, .call, .poll] = some st ∧
      st.returns = [(1, 1), (1, 1)] ∧ ¬ Faithful (fun k => if k = 0 then 1 else 0) st := by
  obtain ⟨st, hrun, hret⟩ := exists_run (Bus.step 2 fun k => if k = 0 then 1 else 0) (by decide +kernel :
    (run (Bus.step 2 fun k => if k = 0 then 1 else 0) (Bus.start 2)
      [.call, .complete, .poll, .call, .poll]).any fun st => decide (st.returns = [(1, 1), (1, 1)]))
  refine ⟨st, hrun, hret, fun hF => ?_⟩
  have := (hF 1 1 1 (by rw [hret]; rfl)).2
  omega

end WivOS.Nvme
