/-
# Readers that wait for a pipe

`pipe_read` and `pipe_write` of `kernel/fs/pipe/pipe.c` with `events_await` of `kernel/tasking/event.c` and the wake-up
in `scheduler_get_next_task`, for readers and writers whose steps interleave. The reader that takes its bytes sets the
event counter to `0`, although it counts for all readers: one that is asleep stays so
(`satisfied_reader_left_asleep`).
-/
import WivOS.Fs.Pipe

namespace WivOS.Pipe

open Event Function Option Utils Machine

/-! ### Steps -/

inductive Reader where
  /-- Not in a call. -/
  | idle
  /-- Before the lock is taken: at the start, or with an event taken in `event_await`. -/
  | entering (buffer : List Byte)
  | woken (buffer : List Byte)
  /-- The lock is released, `event_await` is called. -/
  | awaiting (buffer : List Byte)
  /-- In `events_await`, which has read the counter as `0`. -/
  | dozing (buffer : List Byte)
  /-- `event_pointer` is set, and the thread has yielded. -/
  | asleep (buffer : List Byte)
  /-- Behind the loop, with the lock and the number of bytes to copy. -/
  | copying (buffer : List Byte) (size : ℕ)
deriving DecidableEq

/-- A pipe with `n` readers. `locked` says whether a reader holds `data->lock` between
two steps. -/
structure Readers (n : ℕ) where
  data : PipeData
  locked : Bool
  reader : Fin n → Reader

inductive WaitOp (n : ℕ) where
  | call (i : Fin n) (buffer : List Byte)
  | check (i : Fin n)
  | poll (i : Fin n)
  | sleep (i : Fin n)
  | wake (i : Fin n)
  | timeout (i : Fin n)
  | take (i : Fin n) (free : Bool)
  | write (buffer : List Byte) (free : Bool)
  | close
  | setFlags (flags : BitVec 64)
  | setReadAtFirstData (set : Bool)

variable {n : ℕ} {reader : Fin n → Reader} {left : ℕ} {r : Reader}

def Readers.goto (s : Readers n) (i : Fin n) (r : Reader) : Readers n := { s with reader := update s.reader i r }

def Readers.loopCheck (s : Readers n) (i : Fin n) (buffer : List Byte) : Readers n :=
  if buffer.length > s.data.size then
    if s.data.flags &&& oNonblock ≠ 0 ∨ s.data.referenceCount = 1 then
      { s.goto i (.copying buffer s.data.size) with locked := true }
    else s.goto i (.awaiting buffer)
  else { s.goto i (.copying buffer buffer.length) with locked := true }

def Readers.consume (s : Readers n) (i : Fin n) (buffer : List Byte) : Readers n :=
  { s.goto i (.woken buffer) with data := { s.data with event := lockedDec s.data.event } }

@[simp] lemma Readers.consume_reader (s : Readers n) (i : Fin n) (buffer : List Byte) :
    (s.consume i buffer).reader = update s.reader i (.woken buffer) := rfl

-- for any counter, since comparing `lockedDec` with the counter before it takes long
lemma size_withEvent (data : PipeData) (event : ℕ) : ({ data with event := event } : PipeData).size = data.size := rfl

@[simp] lemma Readers.consume_size (s : Readers n) (i : Fin n) (buffer : List Byte) :
    (s.consume i buffer).data.size = s.data.size := size_withEvent s.data _

@[simp] lemma Readers.consume_event (s : Readers n) (i : Fin n) (buffer : List Byte) :
    (s.consume i buffer).data.event = lockedDec s.data.event := rfl

def Readers.step (s : Readers n) : WaitOp n → Option (Readers n)
  | .call i buffer => if s.reader i = .idle then some (s.goto i (.entering buffer)) else none
  | .check i =>
    if s.locked then none
    else match s.reader i with
      | .entering buffer => some (s.loopCheck i buffer)
      | .woken buffer =>
        if s.data.readFirstData then some { s.goto i (.copying buffer s.data.size) with locked := true }
        else some (s.loopCheck i buffer)
      | _ => none
  | .poll i =>
    match s.reader i with
    | .awaiting buffer => if s.data.event ≠ 0 then some (s.consume i buffer) else some (s.goto i (.dozing buffer))
    | _ => none
  | .sleep i =>
    match s.reader i with
    | .dozing buffer => some (s.goto i (.asleep buffer))
    | _ => none
  | .wake i =>
    match s.reader i with
    | .asleep buffer => if s.data.event ≠ 0 then some (s.consume i buffer) else none
    | _ => none
  | .timeout i =>
    -- a time limit that an earlier `event_await_timeout` of the thread has left behind
    match s.reader i with
    | .asleep buffer => some (s.goto i (.woken buffer))
    | _ => none
  | .take i free =>
    match s.reader i with
    | .copying buffer size => do
      let r ← pipeTake free s.data buffer size s.data.event
      some { s.goto i .idle with data := r.2.2, locked := false }
    | _ => none
  | .write buffer free =>
    if s.locked then none
    else do
      let r ← pipeWrite free s.data buffer
      some { s with data := r.2 }
  | .close =>
    if s.locked then none
    else do
      let data ← pipeClose s.data
      some { s with data := data }
  | .setFlags flags => some { s with data := { s.data with flags := flags } }
  | .setReadAtFirstData set => some { s with data := pipeSetReadAtFirstData s.data set }

def Readers.create (n : ℕ) : Readers n := ⟨pipeCreate, false, fun _ => .idle⟩

def Reader.waitsFor : Reader → Option (List Byte)
  | .awaiting buffer => some buffer
  | .dozing buffer => some buffer
  | .asleep buffer => some buffer
  | _ => none

def Reader.takes : Reader → Option ℕ
  | .copying _ size => some size
  | _ => none

/-- Every reader that waits, but `except`, waits for more than `left` bytes. -/
def Short (reader : Fin n → Reader) (except : Option (Fin n)) (left : ℕ) : Prop :=
  ∀ j, some j ≠ except → ∀ b ∈ (reader j).waitsFor, left < b.length

instance (reader : Fin n → Reader) (except : Option (Fin n)) (left : ℕ) : Decidable (Short reader except left) :=
  inferInstanceAs (Decidable (∀ j, some j ≠ except → ∀ b ∈ (reader j).waitsFor, left < b.length))

/-- A step does not take the counter to `0` while the bytes in the pipe are enough for
another reader that waits. -/
def Readers.TakesNoLast (s : Readers n) : WaitOp n → Prop
  | .take i _ => ∀ size ∈ (s.reader i).takes, Short s.reader (some i) (s.data.size - size)
  | .poll i => s.data.event = 1 → Short s.reader (some i) s.data.size
  | .wake i => s.data.event = 1 → Short s.reader (some i) s.data.size
  | .write buffer _ => s.data.event = 0xFFFF → Short s.reader none ((s.data.size + buffer.length) % 2 ^ 64)
  | .close => s.data.event = 0xFFFF → Short s.reader none s.data.size
  | _ => True

variable {s : Readers n} {i : Fin n}

/-- **What a step does**: a reader goes on without a look at the pipe; it looks at it; it has
slept, and takes all that there is; an event is taken off for it; it copies its bytes; or
the pipe is written to, closed or set. -/
lemma Readers.step_cases {s' : Readers n} {op : WaitOp n} (h : s.step op = some s') :
    (∃ i r, s' = s.goto i r ∧ r.takes = none ∧ ∀ b ∈ r.waitsFor, b ∈ (s.reader i).waitsFor) ∨
    (∃ i b, s' = s.loopCheck i b) ∨ (∃ i b, op = .check i ∧ s.reader i = .woken b ∧ s.data.readFirstData = true ∧
      s' = { s.goto i (.copying b s.data.size) with locked := true }) ∨
    (∃ i b, (op = .poll i ∨ op = .wake i) ∧ s.data.event ≠ 0 ∧ s' = s.consume i b) ∨
    (∃ i free b size r, op = .take i free ∧ s.reader i = .copying b size ∧
      pipeTake free s.data b size s.data.event = some r ∧
      s' = { s.goto i .idle with data := r.2.2, locked := false }) ∨
    ∃ data, s' = { s with data := data } ∧
      ((∃ b free ret, op = .write b free ∧ pipeWrite free s.data b = some (ret, data)) ∨
        (op = .close ∧ pipeClose s.data = some data) ∨ (data.size = s.data.size ∧ data.event = s.data.event)) := by
  cases op with
  | call i buffer =>
    simp only [Readers.step] at h
    split at h
    · cases h
      exact .inl ⟨i, _, rfl, rfl, fun b hb => by cases hb⟩
    · cases h
  | check i =>
    simp only [Readers.step] at h
    split at h
    · cases h
    split at h
    · cases h
      exact .inr (.inl ⟨i, _, rfl⟩)
    · rename_i buffer hreader
      split at h
      · rename_i hfirst
        cases h
        exact .inr (.inr (.inl ⟨i, buffer, rfl, hreader, hfirst, rfl⟩))
      · cases h
        exact .inr (.inl ⟨i, _, rfl⟩)
    · cases h
  | poll i =>
    simp only [Readers.step] at h
    split at h
    · rename_i buffer hreader
      split at h
      · rename_i hne
        cases h
        exact .inr (.inr (.inr (.inl ⟨i, buffer, .inl rfl, hne, rfl⟩)))
      · cases h
        exact .inl ⟨i, _, rfl, rfl, fun b hb => by rw [hreader]; exact hb⟩
    · cases h
  | sleep i =>
    simp only [Readers.step] at h
    split at h
    · rename_i buffer hreader
      cases h
      exact .inl ⟨i, _, rfl, rfl, fun b hb => by rw [hreader]; exact hb⟩
    · cases h
  | wake i =>
    simp only [Readers.step] at h
    split at h
    · rename_i buffer hreader
      split at h
      · rename_i hne
        cases h
        exact .inr (.inr (.inr (.inl ⟨i, buffer, .inr rfl, hne, rfl⟩)))
      · cases h
    · cases h
  | timeout i =>
    simp only [Readers.step] at h
    split at h
    · cases h
      exact .inl ⟨i, _, rfl, rfl, fun b hb => by cases hb⟩
    · cases h
  | take i free =>
    simp only [Readers.step] at h
    split at h
    · rename_i buffer size hreader
      rw [bind_eq_bind, bind_eq_some_iff] at h
      obtain ⟨r, htake, hs'⟩ := h
      cases hs'
      exact .inr (.inr (.inr (.inr (.inl ⟨i, free, buffer, size, r, rfl, hreader, htake, rfl⟩))))
    · cases h
  | write buffer free =>
    simp only [Readers.step] at h
    split at h
    · cases h
    · rw [bind_eq_bind, bind_eq_some_iff] at h
      obtain ⟨⟨ret, data⟩, hwrite, hs'⟩ := h
      cases hs'
      exact .inr (.inr (.inr (.inr (.inr ⟨data, rfl, .inl ⟨buffer, free, ret, rfl, hwrite⟩⟩))))
  | close =>
    simp only [Readers.step] at h
    split at h
    · cases h
    · rw [bind_eq_bind, bind_eq_some_iff] at h
      obtain ⟨data, hclose, hs'⟩ := h
      cases hs'
      exact .inr (.inr (.inr (.inr (.inr ⟨data, rfl, .inr (.inl ⟨rfl, hclose⟩)⟩))))
  | setFlags flags =>
    cases h
    exact .inr (.inr (.inr (.inr (.inr ⟨_, rfl, .inr (.inr ⟨rfl, rfl⟩)⟩))))
  | setReadAtFirstData set =>
    cases h
    exact .inr (.inr (.inr (.inr (.inr ⟨_, rfl, .inr (.inr ⟨rfl, rfl⟩)⟩))))

/-! ### Wake-ups -/

lemma Short.all_but (h : Short reader none left) (e : Option (Fin n)) :
    Short reader e left := fun j _ => h j (some_ne_none j)

lemma Short.update (h : Short reader (some i) left)
    (hr : ∀ b ∈ r.waitsFor, left < b.length) : Short (update reader i r) none left := by
  intro j _ b hb
  by_cases hj : j = i
  · subst hj
    rw [update_self] at hb
    exact hr b hb
  · rw [update_of_ne hj] at hb
    exact h j (fun he => hj (some.inj he)) b hb

/-- A reader that waits for bytes that are there has an event to wake it. -/
structure Readers.Pending (s : Readers n) : Prop where
  event_lt : s.data.event < 0x10000
  unmet : s.data.event = 0 → Short s.reader none s.data.size

lemma Readers.Pending.create (n : ℕ) : (Readers.create n).Pending :=
  ⟨(by decide : 0 < 0x10000), fun _ _ _ b hb => by cases hb⟩

lemma Readers.Pending.goto (h : s.Pending)
    (hr : s.data.event = 0 → ∀ b ∈ r.waitsFor, s.data.size < b.length) : (s.goto i r).Pending :=
  ⟨h.event_lt, fun h0 => ((h.unmet h0).all_but _).update (hr h0)⟩

lemma Readers.Pending.loopCheck (h : s.Pending) (i : Fin n) (buffer : List Byte) :
    (s.loopCheck i buffer).Pending := by
  unfold Readers.loopCheck
  split
  · rename_i hshort
    split
    · exact ⟨h.event_lt, (h.goto fun _ b hb => by cases hb).unmet⟩
    · refine h.goto fun _ b hb => ?_
      cases hb
      exact hshort
  · exact ⟨h.event_lt, (h.goto fun _ b hb => by cases hb).unmet⟩

lemma Readers.Pending.consume (h : s.Pending) (buffer : List Byte) (hne : s.data.event ≠ 0)
    (hlast : s.data.event = 1 → Short s.reader (some i) s.data.size) : (s.consume i buffer).Pending := by
  have hlt := h.event_lt
  refine ⟨?_, ?_⟩ <;> rw [Readers.consume_event, lockedDec_eq hlt hne]
  · omega
  · intro h0
    rw [Readers.consume_reader, Readers.consume_size]
    exact (hlast (by omega)).update fun b hb => by cases hb

lemma Readers.Pending.notify (h : s.Pending) {data : PipeData} (hevent : data.event = eventNotify s.data.event)
    (hlast : s.data.event = 0xFFFF → Short s.reader none data.size) :
    ({ s with data := data } : Readers n).Pending := by
  refine ⟨?_, fun h0 => hlast ?_⟩
  · show data.event < 0x10000
    exact hevent ▸ eventNotify_lt h.event_lt
  · by_contra hne
    exact eventNotify_pos h.event_lt hne (hevent ▸ h0)

/-- **One step** that does not take the last event from a reader keeps the wake-ups. -/
lemma Readers.Pending.step (s : Readers n) (op : WaitOp n) (s' : Readers n) (h : s.Pending) (hok : s.TakesNoLast op)
    (hstep : s.step op = some s') : s'.Pending := by
  rcases Readers.step_cases hstep with ⟨i, r, rfl, -, hwaits⟩ | ⟨i, b, rfl⟩ | ⟨i, b, -, -, -, rfl⟩ |
    ⟨i, b, hop, hne, rfl⟩ | ⟨i, free, b, size, ⟨ret, buffer, data⟩, rfl, hreader, htake, rfl⟩ | ⟨data, rfl, hdata⟩
  · exact h.goto fun h0 b hb => h.unmet h0 i (some_ne_none i) b (hwaits b hb)
  · exact h.loopCheck i b
  · exact ⟨h.event_lt, (h.goto fun _ b hb => by cases hb).unmet⟩
  · rcases hop with rfl | rfl
    · exact h.consume b hne hok
    · exact h.consume b hne hok
  · obtain ⟨hsize, hevent⟩ := pipeTake_some h.event_lt htake
    have hshort := hok size (by rw [hreader]; rfl)
    refine ⟨by show data.event < 0x10000; omega, fun _ => ?_⟩
    show Short (update s.reader i .idle) none data.size
    rw [hsize]
    exact hshort.update fun b hb => by cases hb
  · rcases hdata with ⟨b, free, ret, rfl, hwrite⟩ | ⟨rfl, hclose⟩ | ⟨hsize, hevent⟩
    · obtain ⟨hsize, hevent⟩ := pipeWrite_some hwrite
      exact h.notify hevent fun hlast => hsize ▸ hok hlast
    · simp only [pipeClose] at hclose
      split at hclose
      · cases hclose
        exact h.notify rfl hok
      · cases hclose
    · exact ⟨hevent ▸ h.event_lt, fun h0 => hsize ▸ h.unmet (hevent ▸ h0)⟩

/-- **No satisfied reader is left asleep**, in every run in which no step takes the
counter to `0` while the bytes in the pipe are enough for another reader that waits. -/
theorem no_satisfied_reader_asleep (n : ℕ) (ops : List (WaitOp n)) (s : Readers n)
    (hok : Along Readers.step Readers.TakesNoLast (Readers.create n) ops)
    (hrun : run Readers.step (Readers.create n) ops = some s) :
    ∀ i buffer, s.reader i = .asleep buffer → s.data.event = 0 → s.data.size < buffer.length := by
  have h := run_invariant_along Readers.step Readers.Pending.step ops _ s (Readers.Pending.create n) hok hrun
  intro i buffer hasleep h0
  exact h.unmet h0 i (some_ne_none i) buffer (by rw [hasleep]; rfl)

instance (s : Readers n) : ∀ op : WaitOp n, Decidable (s.TakesNoLast op)
  | .take i _ => inferInstanceAs (Decidable (∀ size ∈ (s.reader i).takes, _))
  | .poll _ => inferInstanceAs (Decidable (_ → _))
  | .wake _ => inferInstanceAs (Decidable (_ → _))
  | .write _ _ => inferInstanceAs (Decidable (_ → _))
  | .close => inferInstanceAs (Decidable (_ → _))
  | .call _ _ | .check _ | .sleep _ | .timeout _ | .setFlags _ | .setReadAtFirstData _ => isTrue trivial

/-- Reader 0 sleeps until two bytes are written, is woken and takes them, while reader 1
waits for three. -/
theorem no_satisfied_reader_asleep_two : ∃ s, run Readers.step (Readers.create 2)
    [.call 0 [0, 0], .check 0, .poll 0, .sleep 0, .call 1 [0, 0, 0], .check 1, .poll 1, .sleep 1,
      .write [7, 8] true, .wake 0, .check 0, .take 0 true] = some s ∧ s.reader 1 = .asleep [0, 0, 0] ∧
      (s.data.event = 0 → s.data.size < 3) := by
  obtain ⟨s, hrun, hasleep⟩ : ∃ s, run Readers.step (Readers.create 2)
      [.call 0 [0, 0], .check 0, .poll 0, .sleep 0, .call 1 [0, 0, 0], .check 1, .poll 1, .sleep 1,
        .write [7, 8] true, .wake 0, .check 0, .take 0 true] = some s ∧ s.reader 1 = .asleep [0, 0, 0] :=
    exists_run Readers.step (by decide +kernel)
  exact ⟨s, hrun, hasleep, no_satisfied_reader_asleep 2 _ s (by decide +kernel) hrun 1 _ hasleep⟩

/-- Reader 0 is asleep until there are two bytes. Three are written, and reader 1 takes
one of them: the two others are there, but reader 0 has lost its wake-up. -/
theorem satisfied_reader_left_asleep : ∃ s, run Readers.step (Readers.create 2)
    [.call 0 [0, 0], .check 0, .poll 0, .sleep 0, .write [7, 8, 9] true, .call 1 [0], .check 1, .take 1 true] = some s ∧
      s.reader 0 = .asleep [0, 0] ∧ s.data.event = 0 ∧ 2 ≤ s.data.size :=
  exists_run Readers.step (by decide +kernel)

end WivOS.Pipe
