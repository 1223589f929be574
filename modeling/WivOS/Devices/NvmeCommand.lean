/-
# The commands of an NVMe transfer

What the command says that `nvme_execute_read_write` of `kernel/devices/nvme.c` sends: its LBAs, and the pages of the
buffer. A request that reaches the last LBA should be cut there, but the driver computes
`lba_count - startLBA + 2 * LBACount`; the command has the lower 16 bits of it. For a buffer of two pages the driver
sets `prp2` and leaves `prp1` at zero.
-/
import Mathlib.Tactic.IntervalCases
import WivOS.Devices.NvmePrp

namespace WivOS.Nvme

open Option Machine

variable {d : IoDevice} {st st' : IoQueue} {op : IoOp} {prp1 prp2 : Word} {r : Bool} {n : ℕ}

/-! ### What is sent -/

/-- How the command describes the buffer of a call, in its three cases. -/
inductive PrpFields (d : IoDevice) (op : IoOp) (c : SentCommand) : Prop where
  | one (hbytes : op.lbas d * d.lbaSize ≤ 0x1000) (hprp1 : c.command.prp1 = op.buffer - memPhysOffset)
  | two (hmore : 0x1000 < op.lbas d * d.lbaSize) (hbytes : op.lbas d * d.lbaSize ≤ 0x2000) (hprp1 : c.command.prp1 = 0)
      (hprp2 : c.command.prp2 = op.buffer + 0x1000 - memPhysOffset)
  | list (hbytes : 0x2000 < op.lbas d * d.lbaSize) (hprp1 : c.command.prp1 = op.buffer - memPhysOffset)
      (hlist : (op.prpNum d).toNat * 8 ≤ 2 ^ 64 → ∀ i < (op.prpNum d).toNat,
        c.mem (c.command.prp2 + memPhysOffset + 8 * BitVec.ofNat 64 i) = prpEntry op.buffer i)

/-- The request is refused for its size, or its command is sent. -/
inductive Executed (d : IoDevice) (op : IoOp) (st st' : IoQueue) : Prop where
  | refused (hbytes : 0x2000 < op.lbas d * d.lbaSize) (hmax : d.maxPrps < op.prpNum d) (heq : st' = st)
  | sent (haccept : op.lbas d * d.lbaSize ≤ 0x2000 ∨ op.prpNum d ≤ d.maxPrps) (c : SentCommand)
      (hsent : st'.sent = c :: st.sent) (hstart : c.command.startLBA = op.startLBA)
      (hlength : c.command.length = (op.lbas d - 1).setWidth 16) (hprps : PrpFields d op c)

lemma sendRw_sent (h : sendRw d op n prp1 prp2 st = some (r, st')) :
    ∃ c, st'.sent = c :: st.sent ∧ c.command.startLBA = op.startLBA ∧ c.command.length = (op.lbas d - 1).setWidth 16 ∧
      c.command.prp1 = prp1 ∧ c.command.prp2 = prp2 ∧ c.mem = st.mem := by
  obtain ⟨⟨status, queue⟩, -, h⟩ := map_eq_some_iff.mp h
  cases h
  exact ⟨_, rfl, rfl, rfl, rfl, rfl, rfl⟩

lemma execute_cases (h : nvmeExecuteReadWrite d op st = some (r, st')) : Executed d op st st' := by
  rw [nvmeExecuteReadWrite] at h
  simp only at h
  split_ifs at h with hmore hlist hmax
  · cases h
    exact .refused hlist hmax rfl
  · obtain ⟨c, hsent, hstart, hlength, hprp1, hprp2, hmem⟩ := sendRw_sent h
    rw [writePrps_sent] at hsent
    refine .sent (.inr (BitVec.not_lt.mp hmax)) c hsent hstart hlength (.list hlist hprp1 fun hfits i hi => ?_)
    rw [hprp2, hmem, prp2_entry, writePrps_mem hfits i hi]
  · obtain ⟨c, hsent, hstart, hlength, hprp1, hprp2, -⟩ := sendRw_sent h
    have hle := BitVec.not_lt.mp hlist
    exact .sent (.inl hle) c hsent hstart hlength (.two hmore hle hprp1 hprp2)
  · obtain ⟨c, hsent, hstart, hlength, hprp1, -, -⟩ := sendRw_sent h
    have hle := BitVec.not_lt.mp hmore
    exact .sent (.inl (BitVec.le_trans hle (by decide))) c hsent hstart hlength (.one hle hprp1)

lemma writePrps_queue {base buffer : Word} : ∀ n : ℕ, (writePrps d base buffer n st).queue = st.queue
  | 0 => rfl
  | n + 1 => writePrps_queue n

lemma sendRw_returns (h : op.status.getLsbD 0 = st.queue.cqPhase) :
    ∃ r st', sendRw d op n prp1 prp2 st = some (r, st') := by
  have hpoll : ∃ r, nvmeSendCommandAndWait st.queue op.status = some r := by
    rw [nvmeSendCommandAndWait, nvmePoll, if_pos h]
    simp only
    split_ifs
    · exact ⟨_, rfl⟩
    · exact ⟨_, rfl⟩
    · exact ⟨_, rfl⟩
  obtain ⟨⟨status, queue⟩, hpoll⟩ := hpoll
  exact ⟨_, _, by rw [sendRw, hpoll, map_some]⟩

lemma execute_returns (d : IoDevice) (op : IoOp) : ∃ st r st', nvmeExecuteReadWrite d op st = some (r, st') := by
  let st : IoQueue := ⟨⟨1, 0, 0, op.status.getLsbD 0, 0⟩, fun _ => 0, [], []⟩
  refine ⟨st, ?_⟩
  rw [nvmeExecuteReadWrite]
  simp only
  split_ifs
  · exact ⟨_, _, rfl⟩
  · exact sendRw_returns (by rw [writePrps_queue])
  · exact sendRw_returns rfl
  · exact sendRw_returns rfl

def IoDevice.Accepts (d : IoDevice) (count : Word) : Prop :=
  count * d.lbaSize ≤ 0x2000 ∨ (count - 1) * d.lbaSize / 0x1000 ≤ d.maxPrps

instance (d : IoDevice) (count : Word) : Decidable (d.Accepts count) := inferInstanceAs (Decidable (_ ∨ _))

/-- What is true of all commands of a call or of none is true each time it returns exactly if it is
true and the call is not refused. -/
lemma sends_iff {P : SentCommand → Prop} {Q : Prop} (hP : ∀ c, c.command.startLBA = op.startLBA →
      c.command.length = (op.lbas d - 1).setWidth 16 → PrpFields d op c → (P c ↔ Q)) :
    (∀ st r st', nvmeExecuteReadWrite d op st = some (r, st') → ∃ c, st'.sent = c :: st.sent ∧ P c) ↔
      d.Accepts (op.lbas d) ∧ Q := by
  constructor
  · intro h
    obtain ⟨st, r, st', hcall⟩ := execute_returns d op
    obtain ⟨c, hsent, hc⟩ := h st r st' hcall
    cases execute_cases hcall with
    | refused hbytes hmax heq =>
      rw [heq] at hsent
      exact absurd hsent.symm (List.cons_ne_self c st.sent)
    | sent haccept c' hsent' hstart hlength hprps =>
      obtain rfl : c' = c := (List.cons.inj (hsent'.symm.trans hsent)).1
      exact ⟨haccept, (hP c' hstart hlength hprps).mp hc⟩
  · rintro ⟨haccept, hQ⟩ st r st' hcall
    cases execute_cases hcall with
    | refused hbytes hmax heq =>
      rcases haccept with haccept | haccept
      · exact absurd haccept (BitVec.not_le.mpr hbytes)
      · exact absurd haccept (BitVec.not_le.mpr hmax)
    | sent _ c hsent hstart hlength hprps => exact ⟨c, hsent, (hP c hstart hlength hprps).mpr hQ⟩

/-! ### The LBAs of a command -/

/-- Each time the call returns, it has sent a command for the LBAs of the request that the
device has. -/
def Covers (d : IoDevice) (op : IoOp) : Prop :=
  ∀ st r st', nvmeExecuteReadWrite d op st = some (r, st') → ∃ c, st'.sent = c :: st.sent ∧
    c.command.startLBA = op.startLBA ∧
    op.startLBA.toNat + (c.command.length.toNat + 1) = min (op.startLBA.toNat + op.LBACount.toNat) d.lbaCount.toNat

lemma covers_iff_length (d : IoDevice) (op : IoOp) : Covers d op ↔ d.Accepts (op.lbas d) ∧
    op.startLBA.toNat + ((op.lbas d - 1).toNat % 2 ^ 16 + 1) =
      min (op.startLBA.toNat + op.LBACount.toNat) d.lbaCount.toNat := by
  refine sends_iff fun c hstart hlength _ => ?_
  rw [hlength, BitVec.toNat_setWidth]
  exact and_iff_right hstart

lemma lbas_eq (h : (op.startLBA.toNat + op.LBACount.toNat) % 2 ^ 64 < d.lbaCount.toNat) : op.lbas d = op.LBACount := by
  rw [IoOp.lbas, clampLbaCount, if_neg]
  rw [BitVec.le_def, BitVec.toNat_add]
  exact Nat.not_le.mpr h

lemma lbas_inside (h : op.startLBA.toNat + op.LBACount.toNat < d.lbaCount.toNat) : op.lbas d = op.LBACount := by
  have hlt := d.lbaCount.isLt
  exact lbas_eq (by omega)

lemma lbas_cut (h : d.lbaCount.toNat ≤ op.startLBA.toNat + op.LBACount.toNat)
    (hfits : op.startLBA.toNat + op.LBACount.toNat < 2 ^ 64) :
    op.lbas d = d.lbaCount - op.startLBA + 2 * op.LBACount := by
  rw [IoOp.lbas, clampLbaCount, if_pos]
  · bv_omega
  · rw [BitVec.le_def, BitVec.toNat_add, Nat.mod_eq_of_lt hfits]
    exact h

/-- **The LBAs of a command.** For a start below the number of LBAs and 1 to 65536 LBAs, the command is for
those of them that the device has exactly if the request ends before the last LBA, or if it is for 32768 or
65536 LBAs; and it is not refused for its size. -/
theorem covers_iff (d : IoDevice) (op : IoOp) (hstart : op.startLBA.toNat < d.lbaCount.toNat)
    (hpos : 1 ≤ op.LBACount.toNat) (hcount : op.LBACount.toNat ≤ 65536) :
    Covers d op ↔ op.startLBA.toNat + op.LBACount.toNat < d.lbaCount.toNat ∧ d.Accepts op.LBACount ∨
      (d.lbaCount.toNat ≤ op.startLBA.toNat + op.LBACount.toNat ∧ op.startLBA.toNat + op.LBACount.toNat < 2 ^ 64) ∧
        (op.LBACount = 32768 ∨ op.LBACount = 65536) ∧ d.Accepts (d.lbaCount - op.startLBA + 2 * op.LBACount) := by
  have hlt := d.lbaCount.isLt
  rw [covers_iff_length]
  by_cases hfit : op.startLBA.toNat + op.LBACount.toNat < d.lbaCount.toNat
  · rw [lbas_inside hfit]
    have hlength : (op.LBACount - 1).toNat = op.LBACount.toNat - 1 := by bv_omega
    rw [hlength]
    constructor
    · exact fun h => .inl ⟨hfit, h.1⟩
    · rintro (⟨-, haccept⟩ | ⟨⟨hpast, -⟩, -⟩)
      · exact ⟨haccept, by omega⟩
      · omega
  by_cases hwrap : op.startLBA.toNat + op.LBACount.toNat < 2 ^ 64
  · rw [lbas_cut (Nat.le_of_not_lt hfit) hwrap]
    have hlength : (d.lbaCount - op.startLBA + 2 * op.LBACount - 1).toNat =
        d.lbaCount.toNat - op.startLBA.toNat + 2 * op.LBACount.toNat - 1 := by bv_omega
    -- twice the count must be lost in the lower 16 bits
    have hlost : op.LBACount = 32768 ∨ op.LBACount = 65536 ↔ 2 * op.LBACount.toNat % 65536 = 0 := by bv_omega
    rw [hlength, hlost]
    constructor
    · rintro ⟨haccept, hlbas⟩
      exact .inr ⟨⟨Nat.le_of_not_lt hfit, hwrap⟩, by omega, haccept⟩
    · rintro (⟨hless, -⟩ | ⟨-, hlost, haccept⟩)
      · exact absurd hless hfit
      · exact ⟨haccept, by omega⟩
  · rw [lbas_eq (by omega)]
    have hlength : (op.LBACount - 1).toNat = op.LBACount.toNat - 1 := by bv_omega
    rw [hlength]
    constructor
    · rintro ⟨-, hlbas⟩
      omega
    · rintro (⟨hless, -⟩ | ⟨⟨-, hless⟩, -⟩)
      · exact absurd hless hfit
      · exact absurd hless hwrap

theorem covers_iff_read17 : (read17 1).startLBA.toNat < twoSlots.lbaCount.toNat ∧
    (Covers twoSlots (read17 1) ↔ (0 : ℕ) + 17 < 0x100000 ∧ twoSlots.Accepts 17 ∨
      (0x100000 ≤ 0 + 17 ∧ 0 + 17 < 2 ^ 64) ∧ ((17 : Word) = 32768 ∨ (17 : Word) = 65536) ∧
        twoSlots.Accepts (0x100000 - 0 + 2 * 17)) :=
  ⟨by decide, covers_iff twoSlots (read17 1) (by decide) (by decide) (by decide)⟩

open IoQueue

/-- A read of the last LBA is sent for three, the last one and two behind it. -/
theorem last_lba_not_covered : (∃ st, run (step twoSlots) (start twoSlots fun _ => 0)
      [⟨0xFFFF800000020000, 0xFFFFF, 1, false, 1⟩] = some st ∧
    st.sent.map (fun c => (c.command.startLBA, c.command.length)) = [(0xFFFFF, 2)]) ∧
    ¬ Covers twoSlots ⟨0xFFFF800000020000, 0xFFFFF, 1, false, 1⟩ := by
  refine ⟨exists_run (step twoSlots) (by decide +kernel), fun h => ?_⟩
  have hlength := ((covers_iff_length _ _).mp h).2
  revert hlength
  decide

/-! ### The pages of a command -/

def physPage (buffer : Word) (i : ℕ) : Word := buffer - memPhysOffset + BitVec.ofNat 64 i * 0x1000

/-- The command describes the first `pages` pages of the buffer. -/
structure Describes (c : SentCommand) (buffer : Word) (pages : ℕ) : Prop where
  first : 0 < pages → c.command.prp1 = physPage buffer 0
  second : pages = 2 → c.command.prp2 = physPage buffer 1
  list : 2 < pages → ∀ i, i + 1 < pages →
    c.mem (c.command.prp2 + memPhysOffset + 8 * BitVec.ofNat 64 i) = physPage buffer (i + 1)

/-- Each time the call returns, it has sent a command that describes the pages of its buffer. -/
def Described (d : IoDevice) (op : IoOp) : Prop :=
  ∀ st r st', nvmeExecuteReadWrite d op st = some (r, st') → ∃ c, st'.sent = c :: st.sent ∧
    Describes c op.buffer ((op.LBACount.toNat * d.lbaSize.toNat + 4095) / 4096)

/-- A transfer of whole LBAs, of 512 to 4096 bytes each, between a buffer of pages in the direct map and a part
of the device before its last LBA; the controller takes so many pages at once. -/
structure IoOp.Proper (d : IoDevice) (op : IoOp) : Prop where
  size : ∃ k, 9 ≤ k ∧ k ≤ 12 ∧ d.lbaSize.toNat = 2 ^ k
  aligned : op.buffer.toNat % 4096 = 0
  direct : memPhysOffset.toNat ≤ op.buffer.toNat
  room : op.buffer.toNat + op.LBACount.toNat * d.lbaSize.toNat ≤ 2 ^ 64
  pages : op.LBACount.toNat * d.lbaSize.toNat ≤ d.maxPrps.toNat * 4096
  inside : op.startLBA.toNat + op.LBACount.toNat < d.lbaCount.toNat

lemma prpEntry_eq {buffer : Word} (h : buffer.toNat % 4096 = 0) (i : ℕ) :
    prpEntry buffer i = physPage buffer (i + 1) := by
  have hand : buffer &&& 0xFFF = 0#64 := by
    apply BitVec.eq_of_toNat_eq
    rw [BitVec.toNat_and]
    exact (Nat.and_two_pow_sub_one_eq_mod buffer.toNat 12).trans h
  have hnext : BitVec.ofNat 64 (i + 1) * 0x1000 = 0x1000 + BitVec.ofNat 64 i * (0x1000 : Word) := by
    rw [BitVec.ofNat_add, BitVec.add_mul, BitVec.add_comm]
    rfl
  rw [prpEntry, physPage, hand, hnext, BitVec.sub_zero, BitVec.add_assoc]

lemma IoOp.Proper.bytes_lt (h : op.Proper d) : op.LBACount.toNat * d.lbaSize.toNat < 2 ^ 64 := by
  have hroom := h.room
  have hdirect := h.direct
  have hoffset : memPhysOffset.toNat = 0xFFFF800000000000 := rfl
  omega

lemma IoOp.Proper.bytes (h : op.Proper d) : (op.lbas d * d.lbaSize).toNat = op.LBACount.toNat * d.lbaSize.toNat := by
  rw [lbas_inside h.inside, BitVec.toNat_mul, Nat.mod_eq_of_lt h.bytes_lt]

lemma IoOp.Proper.prpNum (h : op.Proper d) (hpos : 0 < op.LBACount.toNat) :
    (op.prpNum d).toNat + 1 = (op.LBACount.toNat * d.lbaSize.toNat + 4095) / 4096 := by
  have hless : (op.LBACount - 1).toNat = op.LBACount.toNat - 1 := by bv_omega
  have hlt : (op.LBACount.toNat - 1) * d.lbaSize.toNat < 2 ^ 64 :=
    Nat.lt_of_le_of_lt (Nat.mul_le_mul_right _ (Nat.sub_le _ _)) h.bytes_lt
  have hnum : (op.prpNum d).toNat = (op.LBACount.toNat - 1) * d.lbaSize.toNat / 4096 := by
    rw [IoOp.prpNum, lbas_inside h.inside, BitVec.toNat_udiv, BitVec.toNat_mul, hless, Nat.mod_eq_of_lt hlt]
    rfl
  obtain ⟨k, hk9, hk12, hsize⟩ := h.size
  rw [hnum, hsize]
  interval_cases k <;> omega

lemma IoOp.Proper.accepted (h : op.Proper d) (hpos : 0 < op.LBACount.toNat) : op.prpNum d ≤ d.maxPrps := by
  have hnum := h.prpNum hpos
  have hpages := h.pages
  rw [BitVec.le_def]
  omega

lemma physPage_zero (buffer : Word) : physPage buffer 0 = buffer - memPhysOffset := by
  rw [physPage, BitVec.zero_mul, BitVec.add_zero]

lemma physPage_one (buffer : Word) : physPage buffer 1 = buffer + 0x1000 - memPhysOffset := by
  rw [physPage, BitVec.one_mul]
  bv_omega

lemma IoOp.Proper.describes_iff (h : op.Proper d) {c : SentCommand} (hprps : PrpFields d op c) :
    Describes c op.buffer ((op.LBACount.toNat * d.lbaSize.toNat + 4095) / 4096) ↔
      op.LBACount.toNat * d.lbaSize.toNat ≤ 4096 ∨ 8192 < op.LBACount.toNat * d.lbaSize.toNat ∨
        op.buffer = memPhysOffset := by
  cases hprps with
  | one hbytes hprp1 =>
    have hle : op.LBACount.toNat * d.lbaSize.toNat ≤ 4096 := h.bytes ▸ hbytes
    refine iff_of_true ⟨fun _ => ?_, fun hpages => ?_, fun hpages => ?_⟩ (.inl hle)
    · rw [hprp1, physPage_zero]
    · omega
    · omega
  | two hmore hbytes hprp1 hprp2 =>
    have hlt : 4096 < op.LBACount.toNat * d.lbaSize.toNat := h.bytes ▸ hmore
    have hle : op.LBACount.toNat * d.lbaSize.toNat ≤ 8192 := h.bytes ▸ hbytes
    have hzero : c.command.prp1 = physPage op.buffer 0 ↔ op.buffer = memPhysOffset := by
      rw [hprp1, physPage_zero]
      bv_omega
    constructor
    · exact fun hdescribes => .inr (.inr (hzero.mp (hdescribes.first (by omega))))
    · rintro (hone | hmany | hbuffer)
      · omega
      · omega
      · refine ⟨fun _ => hzero.mpr hbuffer, fun _ => ?_, fun hpages => ?_⟩
        · rw [hprp2, physPage_one]
        · omega
  | list hbytes hprp1 hlist =>
    have hlt : 8192 < op.LBACount.toNat * d.lbaSize.toNat := h.bytes ▸ hbytes
    have hpos : 0 < op.LBACount.toNat := by
      by_contra hzero
      rw [Nat.eq_zero_of_not_pos hzero, Nat.zero_mul] at hlt
      omega
    have hnum := h.prpNum hpos
    have hbound := h.bytes_lt
    refine iff_of_true ⟨fun _ => ?_, fun hpages => ?_, fun _ i hi => ?_⟩ (.inr (.inl hlt))
    · rw [hprp1, physPage_zero]
    · omega
    · rw [hlist (by omega) i (by omega), prpEntry_eq h.aligned]

/-- **The pages of a command.** A transfer between pages in the direct map and LBAs before the last one is
described as it should be exactly if it is not for two pages; or if the two pages are the first of all, at the
physical address zero. -/
theorem described_iff (d : IoDevice) (op : IoOp) (h : op.Proper d) : Described d op ↔
    op.LBACount.toNat * d.lbaSize.toNat ≤ 4096 ∨ 8192 < op.LBACount.toNat * d.lbaSize.toNat ∨
      op.buffer = memPhysOffset := by
  have haccept : d.Accepts (op.lbas d) := by
    by_cases hpos : 0 < op.LBACount.toNat
    · exact .inr (h.accepted hpos)
    · left
      rw [BitVec.le_def, h.bytes, Nat.eq_zero_of_not_pos hpos, Nat.zero_mul]
      exact Nat.zero_le _
  rw [Described, sends_iff fun c _ _ hprps => h.describes_iff hprps]
  exact and_iff_right haccept

theorem read17_described : (read17 1).Proper twoSlots ∧ Described twoSlots (read17 1) := by
  have hproper : (read17 1).Proper twoSlots :=
    ⟨⟨9, by decide, by decide, by decide⟩, by decide, by decide, by decide, by decide, by decide⟩
  exact ⟨hproper, (described_iff twoSlots (read17 1) hproper).mpr (by decide)⟩

/-- A read of 16 LBAs, two pages: the controller is told to put the first one at the physical address zero. -/
theorem two_pages_not_described : (∃ st, run (step twoSlots) (start twoSlots fun _ => 0)
      [⟨0xFFFF800000020000, 0, 16, false, 1⟩] = some st ∧
    st.sent.map (fun c => (c.command.prp1, c.command.prp2)) = [(0, 0x21000)]) ∧
    ¬ Described twoSlots ⟨0xFFFF800000020000, 0, 16, false, 1⟩ := by
  refine ⟨exists_run (step twoSlots) (by decide +kernel), fun h => ?_⟩
  have hcall : (nvmeExecuteReadWrite twoSlots ⟨0xFFFF800000020000, 0, 16, false, 1⟩ (start twoSlots fun _ => 0)).map
      (fun r => r.2.sent.map fun c => c.command.prp1) = some [0] := by decide +kernel
  obtain ⟨⟨r, st⟩, hcall, hsent⟩ := map_eq_some_iff.mp hcall
  obtain ⟨c, hc, hdescribes⟩ := h _ r st hcall
  have hfirst := hdescribes.first (by decide)
  rw [hc, List.map_cons, hfirst] at hsent
  exact absurd (List.cons.inj hsent).1 (by decide)

end WivOS.Nvme
