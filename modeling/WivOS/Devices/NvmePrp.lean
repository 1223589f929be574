/-
# PRP lists of an NVMe device

`nvme_execute_read_write` of `kernel/devices/nvme.c`. A transfer of more than two pages has a list of page addresses,
written into the array `prps` of the queue at the place of the command's id. The id counts all commands that were
ever sent, so a list lies outside the array once the id has reached the number of slots
(`prp_list_outside_array`). `IoQueue.written` records the addresses stored to, `IoQueue.sent` the commands.
-/
import WivOS.Devices.NvmeCache
import WivOS.Devices.NvmeQueue

namespace WivOS.Nvme

open Function List Option Machine

def memPhysOffset : Word := 0xFFFF800000000000

/-- The fields of a device that a transfer reads. `prps` is the address of the array of
the I/O queue; its size fits a `size_t`. -/
structure IoDevice where
  lbaSize : Word
  lbaCount : Word
  maxPrps : Word
  queueSlots : Word
  prps : Word
  fits : maxPrps.toNat * queueSlots.toNat * 8 < 2 ^ 64

structure RwCommand where
  opcode : BitVec 8
  startLBA : Word
  length : BitVec 16
  prp1 : Word
  prp2 : Word

/-- A command as it was sent: the length of its PRP list, its buffer, and the memory
that the controller finds. -/
structure SentCommand where
  command : RwCommand
  prpNum : ℕ
  buffer : Word
  mem : Word → Word

structure IoQueue where
  queue : Queue
  mem : Word → Word
  written : List Word
  sent : List SentCommand

structure IoOp where
  buffer : Word
  startLBA : Word
  LBACount : Word
  write : Bool
  status : BitVec 16

/-! ### The driver -/

def IoDevice.prpAddr (d : IoDevice) (index : Word) : Word := d.prps + 8 * index

def IoDevice.prpBase (d : IoDevice) (cmdId : BitVec 32) : Word := cmdId.setWidth 64 * d.maxPrps

def prpEntry (buffer : Word) (i : ℕ) : Word :=
  buffer - memPhysOffset - (buffer &&& 0xFFF) + 0x1000 + BitVec.ofNat 64 i * 0x1000

def IoQueue.storePrp (st : IoQueue) (addr entry : Word) : IoQueue :=
  { st with mem := update st.mem addr entry, written := addr :: st.written }

def writePrps (d : IoDevice) (base buffer : Word) : ℕ → IoQueue → IoQueue
  | 0, st => st
  | i + 1, st => (writePrps d base buffer i st).storePrp (d.prpAddr (BitVec.ofNat 64 i + base)) (prpEntry buffer i)

/-- `nvme_send_command_and_wait`, if the loop ends with the word `status`. -/
def nvmeSendCommandAndWait (q : Queue) (status : BitVec 16) : Option (BitVec 16 × Queue) :=
  nvmePoll (nvmeStartCommand q) q.cqHead q.cqPhase status

def IoOp.lbas (d : IoDevice) (op : IoOp) : Word := clampLbaCount d.lbaCount op.startLBA op.LBACount

def IoOp.prpNum (d : IoDevice) (op : IoOp) : Word := (op.lbas d - 1) * d.lbaSize / 0x1000

def sendRw (d : IoDevice) (op : IoOp) (prpNum : ℕ) (prp1 prp2 : Word) (st : IoQueue) : Option (Bool × IoQueue) :=
  let command : RwCommand :=
    { opcode := if op.write then 0x1 else 0x2, startLBA := op.startLBA, length :=
      (op.lbas d - 1).setWidth 16, prp1, prp2 }
  (nvmeSendCommandAndWait st.queue op.status).map fun (status, queue) =>
    (status = 0, { st with queue, sent := ⟨command, prpNum, op.buffer, st.mem⟩ :: st.sent })

/-- `nvme_execute_read_write`. A call with too many entries returns `-1`, which is
`true`, and sends nothing; one of two pages sets only `prp2`. -/
def nvmeExecuteReadWrite (d : IoDevice) (op : IoOp) (st : IoQueue) : Option (Bool × IoQueue) :=
  let bytes := op.lbas d * d.lbaSize
  if 0x1000 < bytes then
    if 0x2000 < bytes then
      if d.maxPrps < op.prpNum d then some (true, st)
      else
        let base := d.prpBase st.queue.commandId
        sendRw d op (op.prpNum d).toNat (op.buffer - memPhysOffset) (d.prpAddr base - memPhysOffset)
          (writePrps d base op.buffer (op.prpNum d).toNat st)
    else sendRw d op 0 0 (op.buffer + 0x1000 - memPhysOffset) st
  else sendRw d op 0 (op.buffer - memPhysOffset) 0 st

def IoQueue.step (d : IoDevice) (st : IoQueue) (op : IoOp) : Option IoQueue :=
  (nvmeExecuteReadWrite d op st).map Prod.snd

def IoQueue.start (d : IoDevice) (mem : Word → Word) : IoQueue :=
  ⟨nvmeInitializeQueue d.queueSlots.toNat, mem, [], []⟩

/-! ### Where the lists lie -/

variable {d : IoDevice} {st st' : IoQueue} {op : IoOp}

def IoDevice.InArray (d : IoDevice) (addr : Word) : Prop :=
  ∃ k < d.maxPrps.toNat * d.queueSlots.toNat, addr = d.prpAddr (BitVec.ofNat 64 k)

variable {base buffer : Word}

lemma mem_writePrps {addr : Word} : ∀ {n : ℕ}, addr ∈ (writePrps d base buffer n st).written →
    addr ∈ st.written ∨ ∃ i < n, addr = d.prpAddr (BitVec.ofNat 64 i + base)
  | 0, h => .inl h
  | n + 1, h => by
    rcases mem_cons.mp h with rfl | h
    · exact .inr ⟨n, Nat.lt_succ_self n, rfl⟩
    · rcases mem_writePrps h with h | ⟨i, hi, rfl⟩
      · exact .inl h
      · exact .inr ⟨i, Nat.lt_succ_of_lt hi, rfl⟩

lemma writePrps_sent : ∀ n : ℕ, (writePrps d base buffer n st).sent = st.sent
  | 0 => rfl
  | n + 1 => writePrps_sent n

lemma prpAddr_inj {i j : ℕ} (hi : i * 8 < 2 ^ 64) (hj : j * 8 < 2 ^ 64)
    (h : d.prpAddr (BitVec.ofNat 64 i + base) = d.prpAddr (BitVec.ofNat 64 j + base)) : i = j := by
  rw [IoDevice.prpAddr, IoDevice.prpAddr, BitVec.add_right_inj, BitVec.mul_add, BitVec.mul_add,
    BitVec.add_left_inj] at h
  have h8 : (8 : Word).toNat = 8 := rfl
  have h := congrArg BitVec.toNat h
  simp only [BitVec.toNat_mul, BitVec.toNat_ofNat, Nat.mul_mod_mod, h8] at h
  omega

lemma writePrps_mem : ∀ {n : ℕ}, n * 8 ≤ 2 ^ 64 → ∀ i < n,
    (writePrps d base buffer n st).mem (d.prpAddr (BitVec.ofNat 64 i + base)) = prpEntry buffer i
  | 0, _, i, hi => absurd hi (Nat.not_lt_zero i)
  | n + 1, hn, i, hi => by
    by_cases h : i = n
    · rw [h]
      exact update_self _ _ _
    · have hne : d.prpAddr (BitVec.ofNat 64 i + base) ≠ d.prpAddr (BitVec.ofNat 64 n + base) :=
        fun heq => h (prpAddr_inj (by omega) (by omega) heq)
      have hstore : (writePrps d base buffer (n + 1) st).mem (d.prpAddr (BitVec.ofNat 64 i + base)) =
        (writePrps d base buffer n st).mem (d.prpAddr (BitVec.ofNat 64 i + base)) := update_of_ne hne _ _
      rw [hstore, writePrps_mem (by omega) i (by omega)]

lemma prp_inArray {cmdId : BitVec 32} (hid : cmdId.toNat < d.queueSlots.toNat) {i : ℕ} (hi : i < d.maxPrps.toNat) :
    d.InArray (d.prpAddr (BitVec.ofNat 64 i + d.prpBase cmdId)) := by
  refine ⟨i + cmdId.toNat * d.maxPrps.toNat, ?_, ?_⟩
  · calc i + cmdId.toNat * d.maxPrps.toNat < (cmdId.toNat + 1) * d.maxPrps.toNat := by
          rw [Nat.succ_mul]
          omega
      _ ≤ d.queueSlots.toNat * d.maxPrps.toNat := Nat.mul_le_mul_right _ hid
      _ = d.maxPrps.toNat * d.queueSlots.toNat := Nat.mul_comm _ _
  · rw [IoDevice.prpBase, BitVec.ofNat_add, BitVec.ofNat_mul, BitVec.ofNat_toNat, BitVec.ofNat_toNat,
      BitVec.setWidth_eq]

lemma prp2_entry (base : Word) (i : ℕ) :
    d.prpAddr base - memPhysOffset + memPhysOffset + 8 * BitVec.ofNat 64 i = d.prpAddr (BitVec.ofNat 64 i + base) := by
  rw [BitVec.sub_add_cancel, IoDevice.prpAddr, IoDevice.prpAddr, BitVec.add_assoc, ← BitVec.mul_add,
    BitVec.add_comm base]

/-! ### Runs -/

structure PrpSound (d : IoDevice) (st : IoQueue) : Prop where
  inside : ∀ addr ∈ st.written, d.InArray addr
  lists : ∀ c ∈ st.sent, ∀ i < c.prpNum,
    c.mem (c.command.prp2 + memPhysOffset + 8 * BitVec.ofNat 64 i) = prpEntry c.buffer i

lemma PrpSound.send {n : ℕ} {prp1 prp2 : Word} {r : Bool} (hinside : ∀ addr ∈ st.written, d.InArray addr)
    (hlists : ∀ c ∈ st.sent, ∀ i < c.prpNum,
      c.mem (c.command.prp2 + memPhysOffset + 8 * BitVec.ofNat 64 i) = prpEntry c.buffer i)
    (hnew : ∀ i < n, st.mem (prp2 + memPhysOffset + 8 * BitVec.ofNat 64 i) = prpEntry op.buffer i)
    (h : sendRw d op n prp1 prp2 st = some (r, st')) : PrpSound d st' := by
  obtain ⟨⟨status, queue⟩, -, h⟩ := map_eq_some_iff.mp h
  cases h
  refine ⟨hinside, fun c hc i hi => ?_⟩
  rcases mem_cons.mp hc with rfl | hc
  · exact hnew i hi
  · exact hlists c hc i hi

/-- The call writes a PRP list: it transfers more than two pages, and the list has a
place. -/
def IoOp.UsesList (d : IoDevice) (op : IoOp) : Prop := 0x2000 < op.lbas d * d.lbaSize ∧ op.prpNum d ≤ d.maxPrps

def IoOp.Ok (d : IoDevice) (st : IoQueue) (op : IoOp) : Prop :=
  op.UsesList d → st.queue.commandId.toNat < d.queueSlots.toNat

instance (d : IoDevice) (st : IoQueue) (op : IoOp) : Decidable (op.Ok d st) :=
  inferInstanceAs (Decidable (_ ∧ _ → _))

lemma PrpSound.step (hS : PrpSound d st) (hok : op.Ok d st) (h : st.step d op = some st') : PrpSound d st' := by
  obtain ⟨⟨r, _⟩, hcall, rfl⟩ := map_eq_some_iff.mp h
  rw [nvmeExecuteReadWrite] at hcall
  simp only at hcall
  split_ifs at hcall with hbytes hlist hmax
  · cases hcall
    exact hS
  · have hle : op.prpNum d ≤ d.maxPrps := BitVec.not_lt.mp hmax
    have hid := hok ⟨hlist, hle⟩
    have hnum : (op.prpNum d).toNat ≤ d.maxPrps.toNat := hle
    have hfits : (op.prpNum d).toNat * 8 ≤ 2 ^ 64 := by
      have := Nat.le_mul_of_pos_right d.maxPrps.toNat (Nat.zero_lt_of_lt hid)
      have := d.fits
      omega
    refine PrpSound.send (fun addr haddr => ?_) (by rw [writePrps_sent]; exact hS.lists) (fun i hi => ?_) hcall
    · rcases mem_writePrps haddr with haddr | ⟨i, hi, rfl⟩
      · exact hS.inside addr haddr
      · exact prp_inArray hid (Nat.lt_of_lt_of_le hi hnum)
    · rw [prp2_entry, writePrps_mem hfits i hi]
  · exact PrpSound.send hS.inside hS.lists (fun i hi => absurd hi (Nat.not_lt_zero i)) hcall
  · exact PrpSound.send hS.inside hS.lists (fun i hi => absurd hi (Nat.not_lt_zero i)) hcall

open IoQueue

/-- **PRP lists lie in their array while the command id is below the number of
slots.** In every run of transfers that write lists only then, every list entry was
stored in the array of the I/O queue, and the address in each command is that of
the list written for it. -/
theorem prp_lists_inside_array (d : IoDevice) (mem : Word → Word) (ops : List IoOp)
    (hok : Along (step d) (IoOp.Ok d) (start d mem) ops) (st : IoQueue)
    (hrun : run (step d) (start d mem) ops = some st) : (∀ addr ∈ st.written, d.InArray addr) ∧
    ∀ c ∈ st.sent, ∀ i < c.prpNum,
      c.mem (c.command.prp2 + memPhysOffset + 8 * BitVec.ofNat 64 i) = prpEntry c.buffer i := by
  have hS : PrpSound d st := run_invariant_along _ (fun _ _ _ hS hok h => hS.step hok h) ops _ st
    ⟨fun _ h => absurd h not_mem_nil, fun _ h => absurd h not_mem_nil⟩ hok hrun
  exact ⟨hS.inside, hS.lists⟩

def twoSlots : IoDevice := ⟨512, 0x100000, 4, 2, 0xFFFF800000010000, by decide⟩

def read17 (status : BitVec 16) : IoOp := ⟨0xFFFF800000020000, 0, 17, false, status⟩

theorem prp_lists_inside_array_two :
    ∃ st, run (step twoSlots) (start twoSlots fun _ => 0) [read17 1, read17 1] = some st ∧
      st.sent.length = 2 ∧ ∀ addr ∈ st.written, twoSlots.InArray addr := by
  obtain ⟨st, hst, hlen⟩ := exists_run (step twoSlots) (by decide +kernel :
    (run (step twoSlots) (start twoSlots fun _ => 0) [read17 1, read17 1]).any fun st =>
      decide (st.sent.length = 2))
  exact ⟨st, hst, hlen, (prp_lists_inside_array twoSlots (fun _ => 0) _ (by decide +kernel) st hst).1⟩

/-- The third transfer on a queue of two slots stores its list behind the array. -/
theorem prp_list_outside_array :
    ∃ st, run (step twoSlots) (start twoSlots fun _ => 0) [read17 1, read17 1, read17 0] =
      some st ∧ ∃ addr ∈ st.written, ¬ twoSlots.InArray addr := by
  obtain ⟨st, hst, hmem⟩ := exists_run (step twoSlots) (by decide +kernel :
    (run (step twoSlots) (start twoSlots fun _ => 0) [read17 1, read17 1, read17 0]).any
      fun st => decide (twoSlots.prpAddr 8 ∈ st.written))
  have hne : ∀ k < 8, twoSlots.prpAddr 8 ≠ twoSlots.prpAddr (BitVec.ofNat 64 k) := by decide
  exact ⟨st, hst, _, hmem, fun ⟨k, hk, heq⟩ => hne k hk heq⟩

end WivOS.Nvme
