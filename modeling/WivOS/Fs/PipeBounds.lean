/-
# What a read writes to

The calls of `PipeWait`, with the memory behind the buffer of each reader. A reader that has slept, and finds
`readFirstData` set, takes all that the pipe holds, whether it fits or not (`written_behind_buffer`,
`reads_in_buffer`).
-/
import WivOS.Fs.PipeWait

namespace WivOS.Pipe

open Function List Option Utils Machine

variable {n : ℕ}

/-! ### Calls and what they write to -/

/-- The end of a read: the size it was called with, the value returned (`none` is `-1`), and
the memory behind the buffer before and after its copy. -/
structure Outcome where
  asked : ℕ
  returned : Option ℕ
  before : List Byte
  after : List Byte
deriving DecidableEq

def Outcome.InBuffer (o : Outcome) : Prop := (∀ k ∈ o.returned, k ≤ o.asked) ∧ o.after = o.before

instance (o : Outcome) : Decidable o.InBuffer := inferInstanceAs (Decidable (_ ∧ _))

/-- A pipe and its readers, with the memory behind the buffer of each, and the reads that
have ended. -/
structure Calls (n : ℕ) where
  pipe : Readers n
  behind : Fin n → List Byte
  ended : List Outcome

inductive CallOp (n : ℕ) where
  | op (op : WaitOp n)
  | place (i : Fin n) (bytes : List Byte)
  | abort (i : Fin n)

def Calls.take (c : Calls n) (i : Fin n) (free : Bool) : Option (Calls n) :=
  match c.pipe.reader i with
  | .copying buffer size => do
    let r ← pipeTake free c.pipe.data (buffer ++ c.behind i) size c.pipe.data.event
    let after := r.2.1.drop buffer.length
    some {
      pipe := { c.pipe.goto i .idle with data := r.2.2, locked := false }
      behind := update c.behind i after
      ended := ⟨buffer.length, some r.1, c.behind i, after⟩ :: c.ended }
  | _ => none

def Calls.fail (c : Calls n) (i : Fin n) (buffer : List Byte) : Calls n :=
  { c with pipe := c.pipe.goto i .idle, ended := ⟨buffer.length, none, c.behind i, c.behind i⟩ :: c.ended }

def Calls.step (c : Calls n) : CallOp n → Option (Calls n)
  | .op (.take i free) => c.take i free
  | .op op => (c.pipe.step op).map fun pipe => { c with pipe := pipe }
  | .place i bytes => some { c with behind := update c.behind i bytes }
  | .abort i =>
    match c.pipe.reader i with
    | .asleep buffer => some (c.fail i buffer)
    -- the event was taken before the abort
    | .woken buffer => some (c.fail i buffer)
    | _ => none

def Reader.wokenWith : Reader → Option (List Byte)
  | .woken buffer => some buffer
  | _ => none

/-- A reader that has slept does not find more bytes than it asked for with `readFirstData`
set. -/
def Readers.Fits (s : Readers n) : WaitOp n → Prop
  | .check i => s.data.readFirstData = true → ∀ buffer ∈ (s.reader i).wokenWith, s.data.size ≤ buffer.length
  | _ => True

def Calls.Fits (c : Calls n) : CallOp n → Prop
  | .op op => c.pipe.Fits op
  | _ => True

/-! ### The size of a copy -/

/-- Every reader is about to copy no more than it asked for. -/
def Within (reader : Fin n → Reader) : Prop := ∀ i buffer size, reader i = .copying buffer size → size ≤ buffer.length

lemma Within.update {reader : Fin n → Reader} (h : Within reader) {i : Fin n} {r : Reader}
    (hr : ∀ buffer size, r = .copying buffer size → size ≤ buffer.length) : Within (update reader i r) := by
  intro j buffer size hj
  by_cases hji : j = i
  · subst hji
    rw [update_self] at hj
    exact hr buffer size hj
  · rw [update_of_ne hji] at hj
    exact h j buffer size hj

lemma Within.loopCheck {s : Readers n} (h : Within s.reader) (i : Fin n) (buffer : List Byte) :
    Within (s.loopCheck i buffer).reader := by
  unfold Readers.loopCheck
  split
  · rename_i hshort
    split
    · refine h.update fun buffer' size heq => ?_
      cases heq
      exact Nat.le_of_lt hshort
    · exact h.update fun buffer' size heq => by cases heq
  · refine h.update fun buffer' size heq => ?_
    cases heq
    exact Nat.le_refl _

/-- **One step** of the readers, if a reader that has slept finds no more than it asked for. -/
lemma Within.step {s s' : Readers n} {op : WaitOp n} (h : Within s.reader) (hfits : s.Fits op)
    (hstep : s.step op = some s') : Within s'.reader := by
  rcases Readers.step_cases hstep with ⟨i, r, rfl, hnone, -⟩ | ⟨i, b, rfl⟩ | ⟨i, b, rfl, hreader, hfirst, rfl⟩ |
    ⟨i, b, -, -, rfl⟩ | ⟨i, free, b, size, r, -, -, -, rfl⟩ | ⟨data, rfl, -⟩
  · refine h.update fun buffer size hr => ?_
    rw [hr] at hnone
    cases hnone
  · exact h.loopCheck i b
  · refine h.update fun buffer size heq => ?_
    cases heq
    exact hfits hfirst b (by rw [hreader]; rfl)
  · rw [Readers.consume_reader]
    exact h.update fun _ _ heq => by cases heq
  · exact h.update fun _ _ heq => by cases heq
  · exact h

/-! ### Runs -/

/-- The reads that have ended stayed in their buffers, and those about to copy will. -/
structure Calls.Safe (c : Calls n) : Prop where
  within : Within c.pipe.reader
  inBuffer : ∀ o ∈ c.ended, o.InBuffer

lemma Calls.take_some {c c' : Calls n} {i : Fin n} {free : Bool} {buffer : List Byte} {size : ℕ}
    (hreader : c.pipe.reader i = .copying buffer size) (h : c.take i free = some c') :
    c'.pipe.reader = update c.pipe.reader i .idle ∧
      ∃ o, c'.ended = o :: c.ended ∧ (o.InBuffer ↔ size ≤ buffer.length) := by
  simp only [Calls.take, hreader, bind_eq_bind, bind_eq_some_iff] at h
  obtain ⟨⟨ret, buffer', data'⟩, htake, hc'⟩ := h
  obtain ⟨rfl, hdrop⟩ := pipeTake_buffer htake
  cases hc'
  refine ⟨rfl, _, rfl, ?_⟩
  constructor
  · rintro ⟨hsize, -⟩
    exact hsize _ rfl
  · intro hsize
    refine ⟨fun k hk => ?_, ?_⟩
    · cases hk
      exact hsize
    · show buffer'.drop buffer.length = c.behind i
      rw [hdrop _ hsize, drop_left]

lemma Calls.Safe.fail {c : Calls n} (h : c.Safe) (i : Fin n) (buffer : List Byte) : (c.fail i buffer).Safe := by
  refine ⟨h.within.update fun _ _ heq => (by cases heq), fun o ho => ?_⟩
  rcases mem_cons.mp ho with rfl | ho
  · exact ⟨fun k hk => (by cases hk), rfl⟩
  · exact h.inBuffer o ho

lemma Calls.Safe.op {c c' : Calls n} {op : WaitOp n} (h : c.Safe) (hfits : c.pipe.Fits op)
    (hstep : ((c.pipe.step op).map fun pipe => ({ c with pipe := pipe } : Calls n)) = some c') : c'.Safe := by
  obtain ⟨pipe, hpipe, rfl⟩ := map_eq_some_iff.mp hstep
  exact ⟨h.within.step hfits hpipe, h.inBuffer⟩

lemma Calls.Safe.step (c : Calls n) (op : CallOp n) (c' : Calls n) (h : c.Safe) (hfits : c.Fits op)
    (hstep : c.step op = some c') : c'.Safe := by
  cases op with
  | op op =>
    have hfits' : c.pipe.Fits op := hfits
    cases op with
    | take i free =>
      have htake : c.take i free = some c' := hstep
      cases hreader : c.pipe.reader i with
      | copying buffer size =>
        obtain ⟨hreader', o, hended, hiff⟩ := Calls.take_some hreader htake
        refine ⟨hreader' ▸ h.within.update fun _ _ heq => (by cases heq), fun o' ho' => ?_⟩
        rw [hended] at ho'
        rcases mem_cons.mp ho' with rfl | ho'
        · exact hiff.mpr (h.within i buffer size hreader)
        · exact h.inBuffer o' ho'
      | _ =>
        rw [Calls.take, hreader] at htake
        cases htake
    | _ => exact h.op hfits' hstep
  | place i bytes =>
    cases hstep
    exact ⟨h.within, h.inBuffer⟩
  | abort i =>
    simp only [Calls.step] at hstep
    split at hstep
    · cases hstep
      exact h.fail i _
    · cases hstep
      exact h.fail i _
    · cases hstep

/-- **Every read returns at most the size asked for and writes to its buffer only**, in all interleavings in which a
reader that has slept finds no more bytes than it asked for, where `readFirstData` is set. If it finds more, its read
does not. -/
theorem reads_in_buffer (n : ℕ) (c : Calls n) (hidle : ∀ i, c.pipe.reader i = .idle) (hended : c.ended = [])
    (ops : List (CallOp n)) (hfits : Along Calls.step Calls.Fits c ops) (c' : Calls n)
    (hrun : run Calls.step c ops = some c') : (∀ o ∈ c'.ended, o.InBuffer) ∧
      ∀ i buffer, c'.pipe.reader i = .woken buffer → c'.pipe.data.readFirstData = true → ∀ free c₁ c₂,
        c'.step (.op (.check i)) = some c₁ → c₁.step (.op (.take i free)) = some c₂ →
          ((∀ o ∈ c₂.ended, o.InBuffer) ↔ c'.pipe.data.size ≤ buffer.length) := by
  have hinit : c.Safe := by
    refine ⟨fun i buffer size h => ?_, fun o ho => ?_⟩
    · rw [hidle i] at h
      cases h
    · rw [hended] at ho
      cases ho
  have h := run_invariant_along Calls.step Calls.Safe.step ops c c' hinit hfits hrun
  refine ⟨h.inBuffer, fun i buffer hreader hfirst free c₁ c₂ hcheck htake => ?_⟩
  have hcheck' : ((c'.pipe.step (.check i)).map fun pipe => ({ c' with pipe := pipe } : Calls n)) = some c₁ := hcheck
  obtain ⟨pipe, hpipe, rfl⟩ := map_eq_some_iff.mp hcheck'
  simp only [Readers.step, hreader, hfirst, if_true] at hpipe
  split at hpipe
  · cases hpipe
  · cases hpipe
    have hcopying := update_self i (Reader.copying buffer c'.pipe.data.size) c'.pipe.reader
    obtain ⟨-, o, hended', hiff⟩ := Calls.take_some hcopying htake
    rw [hended', ← hiff, forall_mem_cons]
    exact and_iff_left h.inBuffer

instance (s : Readers n) : ∀ op : WaitOp n, Decidable (s.Fits op)
  | .check _ => inferInstanceAs (Decidable (_ → _))
  | .take _ _ | .poll _ | .wake _ | .write _ _ | .close | .call _ _ | .sleep _ | .timeout _ | .setFlags _
  | .setReadAtFirstData _ => isTrue trivial

instance (c : Calls n) : ∀ op : CallOp n, Decidable (c.Fits op)
  | .op op => inferInstanceAs (Decidable (c.pipe.Fits op))
  | .place _ _ | .abort _ => isTrue trivial

def Calls.create (n : ℕ) : Calls n := ⟨Readers.create n, fun _ => [], []⟩

theorem reads_in_buffer_two : ∃ c, run Calls.step (Calls.create 1)
    [.op (.setReadAtFirstData true), .op (.call 0 [0, 0, 0]), .place 0 [5, 6], .op (.check 0),
      .op (.poll 0), .op (.sleep 0), .op (.write [7, 8] true), .op (.wake 0), .op (.check 0),
      .op (.take 0 true)] = some c ∧ c.ended = [⟨3, some 2, [5, 6], [5, 6]⟩] ∧ ∀ o ∈ c.ended, o.InBuffer := by
  obtain ⟨c, hrun, hended⟩ : ∃ c, run Calls.step (Calls.create 1)
      [.op (.setReadAtFirstData true), .op (.call 0 [0, 0, 0]), .place 0 [5, 6], .op (.check 0),
        .op (.poll 0), .op (.sleep 0), .op (.write [7, 8] true), .op (.wake 0), .op (.check 0),
        .op (.take 0 true)] = some c ∧
      c.ended = [⟨3, some 2, [5, 6], [5, 6]⟩] := exists_run Calls.step (by decide +kernel)
  exact ⟨c, hrun, hended, (reads_in_buffer 1 (Calls.create 1) (fun _ => rfl) rfl _ (by decide +kernel) c hrun).1⟩

/-- The reader sleeps in a read of one byte until two are written. The read returns 2, and
the second byte is written behind the buffer. -/
theorem written_behind_buffer : ∃ c, run Calls.step (Calls.create 1)
    [.op (.setReadAtFirstData true), .op (.call 0 [0]), .place 0 [5, 6], .op (.check 0), .op (.poll 0), .op (.sleep 0),
      .op (.write [7, 8] true), .op (.wake 0), .op (.check 0), .op (.take 0 true)] = some c ∧
      c.ended = [⟨1, some 2, [5, 6], [8, 6]⟩] := exists_run Calls.step (by decide +kernel)

end WivOS.Pipe
