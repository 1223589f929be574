/-
# Pipes

`kernel/fs/pipe/pipe.c`. A pipe keeps its bytes at the front of one block, whose size is rounded up to 32 KiB; an empty
pipe has none. The calls are taken one after another, as the lock orders them; one that goes to sleep, or accesses
memory outside a block, is `none`. Calls that do not wait make a queue (`pipe_is_queue`).
-/
import WivOS.Tasking.Event
import WivOS.Utils.Memory

namespace WivOS.Pipe

open Event Option Slice Utils Machine

def pipeBufferStep : ℕ := 32768

def oNonblock : BitVec 64 := 0x0400

def pollIn : ℕ := 0x01

/-- `pipe_data_t`. `pollStatus` is what `poll_status` points to. -/
structure PipeData where
  buffer : Option Block
  size : ℕ
  event : ℕ
  referenceCount : ℕ
  pollStatus : ℕ
  flags : BitVec 64
  readFirstData : Bool

def bytesOf (addr : Option Block) : List Byte := addr.elim [] Block.bytes

def withBytes (addr : Option Block) (bytes : List Byte) : Option Block := addr.map fun b => { b with bytes := bytes }

/-! ### The calls -/

def pipeCreate : PipeData where
  buffer := none
  size := 0
  event := 0
  referenceCount := 2
  pollStatus := 0
  flags := 0
  readFirstData := false

/-- The loop of `pipe_read`, for a number of rounds: the size to copy and the event
counter. It goes on with `readFirstData` off for as long as there are events. -/
def waitLoop (data : PipeData) (size n event : ℕ) : Option (ℕ × ℕ) :=
  if size > data.size then
    if data.flags &&& oNonblock ≠ 0 ∨ data.referenceCount = 1 then some (data.size, event)
    else match n with
      | 0 => none
      | n + 1 => do
        let event ← eventsAwait event
        if data.readFirstData then some (data.size, event) else waitLoop data size n event
  else some (size, event)

/-- `pipe_read` behind its loop, with `size` bytes to copy: the value returned, and the
buffer of the caller and the pipe afterwards. -/
def pipeTake (free : Bool) (data : PipeData) (buffer : List Byte) (size event : ℕ) :
    Option (ℕ × List Byte × PipeData) := do
  let event ← eventReset event
  let pipeSizeSteps := roundUp data.size pipeBufferStep
  let newPipeSize := data.size - size
  let newPipeSizeSteps := roundUp newPipeSize pipeBufferStep
  let buffer ← memcpy buffer 0 (bytesOf data.buffer) 0 size
  let bytes ← memmove (bytesOf data.buffer) 0 size (data.size - size)
  let moved := withBytes data.buffer bytes
  let block ← (if newPipeSizeSteps < pipeSizeSteps then krealloc free moved newPipeSizeSteps else some moved)
  let pollStatus := if newPipeSize = 0 then 0 else data.pollStatus
  some (size, buffer, { data with buffer := block, size := newPipeSize, event := event, pollStatus := pollStatus })

/-- `pipe_read` into a buffer of the size that is asked for. -/
def pipeRead (free : Bool) (data : PipeData) (buffer : List Byte) : Option (ℕ × List Byte × PipeData) := do
  let (size, event) ← waitLoop data buffer.length data.event data.event
  pipeTake free data buffer size event

def pipeWrite (free : Bool) (data : PipeData) (buffer : List Byte) : Option (ℕ × PipeData) := do
  let size := buffer.length
  let pipeSizeSteps := roundUp data.size pipeBufferStep
  let newPipeSize := (data.size + size) % 2 ^ 64
  let newPipeSizeSteps := roundUp newPipeSize pipeBufferStep
  let block ← (if newPipeSizeSteps > pipeSizeSteps then krealloc free data.buffer newPipeSizeSteps
    else some data.buffer)
  let bytes ← memcpy (bytesOf block) data.size buffer 0 size
  some (size, { data with
    buffer := withBytes block bytes, size := newPipeSize, event := eventNotify data.event, pollStatus := pollIn })

variable {free : Bool} {data data' : PipeData} {buffer content : List Byte} {size ret cap : ℕ} {addr : Option Block}
  {s : Session} {buffer' : List Byte} {event : ℕ} {cap' : ℕ}

lemma pipeTake_some (hevent : event < 0x10000)
    (h : pipeTake free data buffer size event = some (ret, buffer', data')) :
    data'.size = data.size - size ∧ data'.event = 0 := by
  simp only [pipeTake, bind_eq_bind, bind_eq_some_iff, eventReset_eq hevent, some.injEq, Prod.mk.injEq] at h
  obtain ⟨_, rfl, _, -, _, -, _, -, -, -, rfl⟩ := h
  exact ⟨rfl, rfl⟩

lemma pipeTake_buffer
    (h : pipeTake free data buffer size event = some (ret, buffer', data')) :
    ret = size ∧ ∀ k, size ≤ k → buffer'.drop k = buffer.drop k := by
  simp only [pipeTake, bind_eq_bind, bind_eq_some_iff, some.injEq, Prod.mk.injEq] at h
  obtain ⟨_, -, _, hcopy, _, -, _, -, rfl, rfl, -⟩ := h
  exact ⟨rfl, fun k hk => memcpy_drop hcopy (by omega)⟩

lemma pipeWrite_some (h : pipeWrite free data buffer = some (ret, data')) :
    data'.size = (data.size + buffer.length) % 2 ^ 64 ∧ data'.event = eventNotify data.event := by
  simp only [pipeWrite, bind_eq_bind, bind_eq_some_iff, some.injEq, Prod.mk.injEq] at h
  obtain ⟨_, -, _, -, -, rfl⟩ := h
  exact ⟨rfl, rfl⟩

/-- `pipe_close`. The last close frees the block and the pipe: then there is none. -/
def pipeClose (data : PipeData) : Option PipeData :=
  let referenceCount := (data.referenceCount + 2 ^ 64 - 1) % 2 ^ 64
  if referenceCount ≠ 0 then
    some { data with referenceCount := referenceCount, event := eventNotify data.event }
  else none

def pipeSetReadAtFirstData (data : PipeData) (set : Bool) : PipeData := { data with readFirstData := set }

/-! ### The block of a pipe -/

def Capacity (cap : ℕ) : Option Block → Prop
  | none => cap = 0
  | some b => 0 < cap ∧ b.Ok ∧ b.size = cap

section

variable (h : Capacity cap addr)
include h

lemma Capacity.length_bytesOf (hpages : cap % 0x1000 = 0) : (bytesOf addr).length = cap := by
  cases addr with
  | none => exact (h : cap = 0).symm
  | some b =>
    obtain ⟨-, hok, hsize⟩ := h
    show b.bytes.length = cap
    rw [hok.length_eq, hok.pages_eq, hsize]
    omega

lemma Capacity.withBytes {bytes : List Byte} (hlen : bytes.length = (bytesOf addr).length) :
    Capacity cap (withBytes addr bytes) ∧ bytesOf (withBytes addr bytes) = bytes := by
  cases addr with
  | none => exact ⟨h, (List.eq_nil_of_length_eq_zero hlen).symm⟩
  | some b => exact ⟨⟨h.1, ⟨h.2.1.pages_eq, hlen.trans h.2.1.length_eq⟩, h.2.2⟩, rfl⟩

lemma Capacity.krealloc (hne : cap' ≠ cap) (hold : cap + 0x1000 ≤ 2 ^ 64)
    (hnew : cap' + 0x1000 ≤ 2 ^ 64) : ∃ addr', Utils.krealloc true addr cap' = some addr' ∧ Capacity cap' addr' ∧
      ∀ n, n ≤ cap → n ≤ cap' → (bytesOf addr').take n = (bytesOf addr).take n := by
  cases addr with
  | none =>
    obtain ⟨b, hb, hok, hsize⟩ := kmalloc_spec cap'
    have hcap : cap = 0 := h
    refine ⟨some b, ?_, ⟨by omega, hok, hsize⟩, fun n hn _ => ?_⟩
    · rw [Utils.krealloc, hb]
    · rw [show n = 0 by omega, List.take_zero, List.take_zero]
  | some b =>
    obtain ⟨-, hok, rfl⟩ := h
    rcases Nat.eq_zero_or_pos cap' with rfl | hpos
    · refine ⟨none, ?_, rfl, fun n _ hn => ?_⟩
      · rw [Utils.krealloc, if_pos rfl]
      · rw [Nat.le_zero.mp hn, List.take_zero, List.take_zero]
    · obtain ⟨b', hb', hok', hsize, htake⟩ := krealloc_spec hok hold hpos hnew
      exact ⟨some b', hb', ⟨hpos, hok', hsize⟩, htake⟩

lemma Capacity.resize (c : Prop) [Decidable c] (hc : c ↔ cap' ≠ cap)
    (hold : cap + 0x1000 ≤ 2 ^ 64) (hnew : cap' + 0x1000 ≤ 2 ^ 64) :
    ∃ addr', (if c then Utils.krealloc true addr cap' else some addr) = some addr' ∧ Capacity cap' addr' ∧
      ∀ n, n ≤ cap → n ≤ cap' → (bytesOf addr').take n = (bytesOf addr).take n := by
  by_cases hne : cap' = cap
  · subst hne
    exact ⟨addr, by rw [if_neg fun hcc => hc.mp hcc rfl], h, fun _ _ _ => rfl⟩
  · rw [if_pos (hc.mpr hne)]
    exact h.krealloc hne hold hnew

/-! ### The bytes of a pipe -/

end

lemma roundUp_step {n : ℕ} (h : n < 2 ^ 63) : roundUp n pipeBufferStep = (n + 32767) / 32768 * 32768 := by
  rw [roundUp, pipeBufferStep]
  omega

/-- **The invariant**: the pipe holds the bytes `content`, at the front of a block of the
rounded size. -/
structure Holds (data : PipeData) (content : List Byte) : Prop where
  size_eq : data.size = content.length
  small : data.size < 2 ^ 63
  event_lt : data.event < 0x10000
  capacity : Capacity (roundUp data.size pipeBufferStep) data.buffer
  content_eq : (bytesOf data.buffer).take data.size = content

lemma Holds.length_bytesOf (h : Holds data content) :
    (bytesOf data.buffer).length = roundUp data.size pipeBufferStep := by
  refine h.capacity.length_bytesOf ?_
  rw [roundUp_step h.small]
  omega

lemma Holds.create : Holds pipeCreate [] where
  size_eq := rfl
  small := by decide
  event_lt := by decide
  capacity := (by decide : roundUp 0 pipeBufferStep = 0)
  content_eq := rfl

/-- **A write** that finds memory returns the number of its bytes, which are then the
last ones of the pipe. -/
lemma Holds.pipeWrite (h : Holds data content) (hsmall : data.size + buffer.length < 2 ^ 63) :
    ∃ data', pipeWrite true data buffer = some (buffer.length, data') ∧ Holds data' (content ++ buffer) := by
  have hmod : (data.size + buffer.length) % 2 ^ 64 = data.size + buffer.length := Nat.mod_eq_of_lt (by omega)
  have hold := roundUp_step h.small
  have hnew := roundUp_step hsmall
  obtain ⟨block, hblock, hcap, htake⟩ := h.capacity.resize
    (roundUp (data.size + buffer.length) pipeBufferStep > roundUp data.size pipeBufferStep)
    (by omega : _ ↔ roundUp (data.size + buffer.length) pipeBufferStep ≠ _) (by omega) (by omega)
  have hlen := hcap.length_bytesOf (by omega)
  have hfit : data.size + buffer.length ≤ (bytesOf block).length := by omega
  have hcopy : memcpy (bytesOf block) data.size buffer 0 buffer.length =
      some (splice (bytesOf block) data.size buffer) := by
    rw [memcpy_eq hfit (Nat.le_of_eq (Nat.zero_add _)), List.drop_zero, List.take_length]
  obtain ⟨hcap', hbytes⟩ := hcap.withBytes (length_splice hfit)
  refine ⟨{ data with
    buffer := withBytes block (splice (bytesOf block) data.size buffer), size := data.size + buffer.length,
    event := eventNotify data.event, pollStatus := pollIn }, ?_, ?_, hsmall, eventNotify_lt h.event_lt, hcap', ?_⟩
  · simp only [Pipe.pipeWrite, hmod, hblock, bind_eq_bind, bind_some, hcopy]
  · rw [List.length_append, ← h.size_eq]
  · show (bytesOf (withBytes block _)).take (data.size + buffer.length) = _
    rw [hbytes, take_splice hfit, htake _ (by omega) (by omega), h.content_eq]

def NoWait (data : PipeData) (size : ℕ) : Prop :=
  size ≤ data.size ∨ data.flags &&& oNonblock ≠ 0 ∨ data.referenceCount = 1

instance (data : PipeData) (size : ℕ) : Decidable (NoWait data size) := inferInstanceAs (Decidable (_ ∨ _))

lemma waitLoop_eq (h : NoWait data size) (n event : ℕ) :
    waitLoop data size n event = some (min size data.size, event) := by
  rw [waitLoop.eq_def]
  by_cases hsize : size > data.size
  · rw [if_pos hsize, if_pos (h.resolve_left (by omega)), Nat.min_eq_right (by omega)]
  · rw [if_neg hsize, Nat.min_eq_left (by omega)]

lemma Holds.pipeTake (h : Holds data content) (hbuffer : size ≤ buffer.length) (hsize : size ≤ data.size) :
    ∃ buffer' data', pipeTake true data buffer size data.event = some (size, buffer', data') ∧
      buffer'.take size = content.take size ∧ Holds data' (content.drop size) := by
  have hlen := h.length_bytesOf
  have hbound := h.small
  have hold := roundUp_step hbound
  have hsmall : data.size - size < 2 ^ 63 := by omega
  have hnew := roundUp_step hsmall
  -- the copy into the buffer of the caller
  have hslice : (((bytesOf data.buffer).drop 0).take size).length = size := length_slice (by omega)
  have hcopy : memcpy buffer 0 (bytesOf data.buffer) 0 size = _ := memcpy_eq (by omega) (by omega)
  -- the others to the front
  have hrest : ((bytesOf data.buffer).drop size).take (data.size - size) = content.drop size := by
    rw [← h.content_eq, List.drop_take]
  have hmove : memmove (bytesOf data.buffer) 0 size (data.size - size) = _ := memmove_eq (by omega) (by omega)
  rw [hrest] at hmove
  have hlenrest : (content.drop size).length = data.size - size := by rw [List.length_drop, h.size_eq]
  obtain ⟨hcap, hbytes⟩ := h.capacity.withBytes (length_splice (i := 0) (d := content.drop size) (by omega))
  obtain ⟨block, hblock, hcap', htake⟩ := hcap.resize
    (roundUp (data.size - size) pipeBufferStep < roundUp data.size pipeBufferStep)
    (by omega : _ ↔ roundUp (data.size - size) pipeBufferStep ≠ _) (by omega) (by omega)
  refine ⟨splice buffer 0 (((bytesOf data.buffer).drop 0).take size), { data with
    buffer := block, size := data.size - size, event := 0,
    pollStatus := if data.size - size = 0 then 0 else data.pollStatus }, ?_, ?_, hlenrest.symm, hsmall, ?_, hcap', ?_⟩
  · -- bind by bind: reduced at once, the kernel would compute with the rounded sizes
    simp only [Pipe.pipeTake, bind, eventReset_eq h.event_lt, hcopy, hmove]
    rw [bind_some, bind_some, bind_some, hblock, bind_some]
  · have hfill := take_splice_zero (l := buffer) (d := ((bytesOf data.buffer).drop 0).take size) (by omega)
    rw [hslice] at hfill
    rw [hfill, List.drop_zero, ← h.content_eq, List.take_take, Nat.min_eq_left hsize]
  · show 0 < 0x10000
    omega
  · have hfront := take_splice_zero (l := bytesOf data.buffer) (d := content.drop size) (by omega)
    rw [hlenrest] at hfront
    show (bytesOf block).take (data.size - size) = _
    rw [htake _ (by omega) (by omega), hbytes, hfront]

/-- **A read** that does not have to wait returns the number of bytes that it copies out:
the first ones of the pipe, which keeps the others. -/
lemma Holds.pipeRead (h : Holds data content) (hwait : NoWait data buffer.length) :
    ∃ size buffer' data', pipeRead true data buffer = some (size, buffer', data') ∧
      buffer'.take size = content.take size ∧ size ≤ content.length ∧ Holds data' (content.drop size) := by
  obtain ⟨buffer', data', htake, hbytes, hholds⟩ :=
    h.pipeTake (Nat.min_le_left buffer.length data.size) (Nat.min_le_right _ _)
  refine ⟨_, buffer', data', ?_, hbytes, ?_, hholds⟩
  · rw [Pipe.pipeRead, waitLoop_eq hwait]
    exact htake
  · exact Nat.le_trans (Nat.min_le_right _ _) (Nat.le_of_eq h.size_eq)

/-! ### Whole runs -/

/-- A pipe with what its callers have seen: for each call the value it returned and the
bytes, those a read put into the caller's buffer and those a write was given. -/
structure Session where
  data : PipeData
  reads : List (ℕ × List Byte)
  writes : List (ℕ × List Byte)

/-- A call. `free` says whether the page allocator has memory; `flags` and
`readFirstData` are set from outside. -/
inductive PipeOp where
  | read (buffer : List Byte) (free : Bool)
  | write (buffer : List Byte) (free : Bool)
  | close
  | setFlags (flags : BitVec 64)
  | setReadAtFirstData (set : Bool)

def Session.create : Session := ⟨pipeCreate, [], []⟩

def Session.step (s : Session) : PipeOp → Option Session
  | .read buffer free => do
    let (size, buffer, data) ← pipeRead free s.data buffer
    some { s with data := data, reads := s.reads ++ [(size, buffer.take size)] }
  | .write buffer free => do
    let (size, data) ← pipeWrite free s.data buffer
    some { s with data := data, writes := s.writes ++ [(size, buffer)] }
  | .close => do
    let data ← pipeClose s.data
    some { s with data := data }
  | .setFlags flags => some { s with data := { s.data with flags := flags } }
  | .setReadAtFirstData set => some { s with data := pipeSetReadAtFirstData s.data set }

/-- The calls of a run: there is memory for the block, a read does not have to wait, a
write leaves less than `2 ^ 63` bytes, and the last end stays open. -/
def Session.Ok (s : Session) : PipeOp → Prop
  | .read buffer free => free = true ∧ NoWait s.data buffer.length
  | .write buffer free => free = true ∧ s.data.size + buffer.length < 2 ^ 63
  | .close => s.data.referenceCount = 2
  | .setFlags _ => True
  | .setReadAtFirstData _ => True

def transferred (calls : List (ℕ × List Byte)) : List Byte := calls.flatMap Prod.snd

lemma transferred_concat (calls : List (ℕ × List Byte)) (c : ℕ × List Byte) :
    transferred (calls ++ [c]) = transferred calls ++ c.2 := by
  simp [transferred]

/-- The pipe holds what was written and not yet read, and each call has returned the
number of its bytes. -/
structure Session.Queue (s : Session) (content : List Byte) : Prop where
  holds : Holds s.data content
  order : transferred s.reads ++ content = transferred s.writes
  returned : ∀ c ∈ s.reads ++ s.writes, c.1 = c.2.length

lemma Session.Queue.read (h : s.Queue content) (hwait : NoWait s.data buffer.length) :
    ∃ s', s.step (.read buffer true) = some s' ∧ ∃ content', s'.Queue content' := by
  obtain ⟨size, buffer', data', hcall, htake, hsize, hholds⟩ := h.holds.pipeRead hwait
  refine ⟨{ s with data := data', reads := s.reads ++ [(size, buffer'.take size)] }, ?_, content.drop size, hholds, ?_,
    ?_⟩
  · rw [Session.step, hcall]
    rfl
  · rw [transferred_concat, htake, List.append_assoc, List.take_append_drop, h.order]
  · intro c hc
    simp only [List.append_assoc, List.mem_append, List.mem_singleton] at hc
    rcases hc with hc | rfl | hc
    · exact h.returned c (List.mem_append_left _ hc)
    · rw [htake, List.length_take, Nat.min_eq_left hsize]
    · exact h.returned c (List.mem_append_right _ hc)

lemma Session.Queue.write (h : s.Queue content) (hsmall : s.data.size + buffer.length < 2 ^ 63) :
    ∃ s', s.step (.write buffer true) = some s' ∧ ∃ content', s'.Queue content' := by
  obtain ⟨data', hcall, hholds⟩ := h.holds.pipeWrite hsmall
  refine ⟨{ s with data := data', writes := s.writes ++ [(buffer.length, buffer)] }, ?_, content ++ buffer, hholds, ?_,
    ?_⟩
  · rw [Session.step, hcall]
    rfl
  · rw [transferred_concat, ← List.append_assoc, h.order]
  · intro c hc
    rw [← List.append_assoc, List.mem_append, List.mem_singleton] at hc
    rcases hc with hc | rfl
    · exact h.returned c hc
    · rfl

lemma Session.Queue.step {op : PipeOp} (h : s.Queue content) (hok : s.Ok op) :
    ∃ s', s.step op = some s' ∧ ∃ content', s'.Queue content' := by
  cases op with
  | read buffer free =>
    obtain ⟨rfl, hwait⟩ := hok
    exact h.read hwait
  | write buffer free =>
    obtain ⟨rfl, hsmall⟩ := hok
    exact h.write hsmall
  | close =>
    have href : s.data.referenceCount = 2 := hok
    refine ⟨{ s with data := { s.data with referenceCount := 1, event := eventNotify s.data.event } }, ?_, content,
      ⟨h.holds.size_eq, h.holds.small, eventNotify_lt h.holds.event_lt, h.holds.capacity, h.holds.content_eq⟩, h.order,
      h.returned⟩
    simp only [Session.step, pipeClose, href]
    rfl
  | setFlags flags => exact ⟨_, rfl, content, { h.holds with }, h.order, h.returned⟩
  | setReadAtFirstData set => exact ⟨_, rfl, content, { h.holds with }, h.order, h.returned⟩

/-- **A pipe is a queue of bytes.** In every run of calls that find memory and do not have to wait, all return, with
the number of bytes they moved. What the readers have got, and what the block starts with, is what the writers have
put in. The block has that size, rounded up to 32 KiB. -/
theorem pipe_is_queue (ops : List PipeOp) (hok : Along Session.step Session.Ok Session.create ops) :
    ∃ s, run Session.step Session.create ops = some s ∧ transferred s.reads <+: transferred s.writes ∧
      transferred s.writes = transferred s.reads ++ (bytesOf s.data.buffer).take s.data.size ∧
      (∀ c ∈ s.reads ++ s.writes, c.1 = c.2.length) ∧ (s.data.size = 0 → s.data.buffer = none) ∧
      (0 < s.data.size → ∃ b, s.data.buffer = some b ∧ b.size = roundUp s.data.size pipeBufferStep ∧
        b.bytes.length = roundUp s.data.size pipeBufferStep ∧ s.data.size ≤ b.bytes.length) := by
  have hinit : Session.create.Queue [] := ⟨Holds.create, rfl, fun c hc => absurd hc List.not_mem_nil⟩
  obtain ⟨s, hrun, content, h⟩ := run_total_along Session.step
    (fun s op (hI : ∃ content, s.Queue content) hop => hI.elim fun _ h => h.step hop) ops Session.create ⟨[], hinit⟩ hok
  have hcap := roundUp_step h.holds.small
  have horder := h.order
  have hlen := h.holds.length_bytesOf
  rw [← h.holds.content_eq] at horder
  refine ⟨s, hrun, ⟨_, horder⟩, horder.symm, h.returned, fun h0 => ?_, fun hpos => ?_⟩
  · have := h.holds.capacity
    cases hb : s.data.buffer with
    | none => rfl
    | some b =>
      rw [hb] at this
      have := this.1
      omega
  · have := h.holds.capacity
    cases hb : s.data.buffer with
    | none =>
      rw [hb] at this
      have : roundUp s.data.size pipeBufferStep = 0 := this
      omega
    | some b =>
      rw [hb] at this hlen
      exact ⟨b, rfl, this.2.2, hlen, Nat.le_trans (by omega) (Nat.le_of_eq hlen.symm)⟩

instance (s : Session) : ∀ op : PipeOp, Decidable (s.Ok op)
  | .read _ _ => inferInstanceAs (Decidable (_ ∧ _))
  | .write _ _ => inferInstanceAs (Decidable (_ ∧ _))
  | .close => inferInstanceAs (Decidable (_ = _))
  | .setFlags _ | .setReadAtFirstData _ => isTrue trivial

theorem pipe_is_queue_five : ∃ s, run Session.step Session.create
    [.write [1, 2, 3] true, .read [0, 0] true, .write [4] true, .close, .read [0, 0, 0, 0] true] = some s ∧
      transferred s.writes = transferred s.reads ++ (bytesOf s.data.buffer).take s.data.size := by
  obtain ⟨s, hrun, -, horder, -⟩ := pipe_is_queue
    [.write [1, 2, 3] true, .read [0, 0] true, .write [4] true, .close, .read [0, 0, 0, 0] true] (by decide +kernel)
  exact ⟨s, hrun, horder⟩

end WivOS.Pipe
