/-
# The buffers of `read` and `write`

What `syscall_read` and `syscall_write` of `kernel/tasking/syscalls.c` give to a driver (`driverCalls`).
`syscall_privilege_check` looks at bit 47 of the two ends of a range, under an addition that wraps around. The loop goes
on in steps of 16 MiB but gives the whole length to the driver each time, so its calls are right as long as there is
one only (`transfers_iff`).
-/
import Mathlib.Data.Nat.Bitwise
import WivOS.Tasking.Syscalls

namespace WivOS.Syscalls

open List Option

open Vfs (Node)

/-! ### The calls of a driver -/

/-- `step`: the loop ends with an answer below it. -/
def transferStep (length currentIndex : Word) : Word :=
  if length < currentIndex + 16777216 then length % 16777216 else 16777216

/-- A call of the driver: where its buffer begins in the caller's one, and what it returned. It gets
`length` bytes there. -/
structure DriverCall where
  index : Word
  retValue : Word
deriving DecidableEq

def driverCalls (length : Word) : List Word → Word → List DriverCall
  | [], _ => []
  | retValue :: rets, currentIndex =>
    if currentIndex < length then
      ⟨currentIndex, retValue⟩ ::
        if retValue < transferStep length currentIndex then [] else driverCalls length rets (currentIndex + retValue)
    else []

def syscallDriverCalls (st : Kernel) (pid : ℕ) (fd : ℤ) (buffer length : Word) (rets : List Word) : List DriverCall :=
  if syscallPrivilegeCheck buffer length then []
  else if (st.handle pid fd).isSome then driverCalls length rets 0 else []

variable {call : DriverCall} {base size : Word}

section

variable {node : Node} {length currentIndex retValue r : Word} {rets : List Word} {st st' : Kernel}

lemma transfer_cons (hlt : currentIndex < length) : transfer node length (retValue :: rets) currentIndex st =
    if retValue < transferStep length currentIndex then some (currentIndex + retValue, st.vfsOp node)
    else transfer node length rets (currentIndex + retValue) (st.vfsOp node) := if_pos hlt

lemma driverCalls_cons (hlt : currentIndex < length) : driverCalls length (retValue :: rets) currentIndex =
    ⟨currentIndex, retValue⟩ ::
      if retValue < transferStep length currentIndex then [] else driverCalls length rets (currentIndex + retValue) :=
  if_pos hlt

lemma index_lt : ∀ {rets : List Word} {currentIndex : Word},
    call ∈ driverCalls length rets currentIndex → call.index < length
  | [], _, h => by cases h
  | retValue :: rets, currentIndex, h => by
    by_cases hlt : currentIndex < length
    · rw [driverCalls_cons hlt, mem_cons] at h
      rcases h with rfl | h
      · exact hlt
      · split_ifs at h
        · cases h
        · exact index_lt h
    · rw [driverCalls, if_neg hlt] at h
      cases h

lemma driverCalls_small (hlength : length.toNat ≤ 16777216) (hpos : 0 < length.toNat) (retValue : Word)
    (rets : List Word) :
    driverCalls length (retValue :: rets) 0 = [⟨0, retValue⟩] ∧
      transfer node length (retValue :: rets) 0 st = some (retValue, st.vfsOp node) := by
  have hlt : (0 : Word) < length := by
    rw [BitVec.lt_def]
    exact hpos
  have hstep : transferStep length 0 = length := by
    apply BitVec.eq_of_toNat_eq
    rw [transferStep, zero_add]
    split_ifs with h
    · rw [BitVec.toNat_umod]
      exact Nat.mod_eq_of_lt h
    · exact Nat.le_antisymm (Nat.not_lt.mp h) hlength
  rw [driverCalls_cons hlt, transfer_cons hlt, hstep, zero_add]
  by_cases hret : retValue < length
  · rw [if_pos hret, if_pos hret]
    exact ⟨rfl, rfl⟩
  · rw [if_neg hret, if_neg hret]
    cases rets with
    | nil => exact ⟨rfl, if_neg hret⟩
    | cons retValue' rets =>
      refine ⟨?_, if_neg hret⟩
      rw [driverCalls, if_neg hret]

lemma second_call {retValue' : Word} (hret : 16777216 ≤ retValue.toNat) (hlt : retValue.toNat < length.toNat) :
    (⟨retValue, retValue'⟩ : DriverCall) ∈ driverCalls length (retValue :: retValue' :: rets) 0 := by
  have hpos : (0 : Word) < length := Nat.lt_of_le_of_lt (Nat.zero_le _) hlt
  have hstep : transferStep length 0 = 16777216 := by
    rw [transferStep, zero_add]
    exact if_neg fun h => Nat.lt_irrefl _ (Nat.lt_trans (Nat.lt_of_le_of_lt hret hlt) h)
  have hmore : ¬ retValue < 16777216 := Nat.not_lt.mpr hret
  have hlt : retValue < length := hlt
  rw [driverCalls_cons hpos, hstep, if_neg hmore, zero_add, driverCalls_cons hlt]
  exact mem_cons_of_mem _ mem_cons_self

end

/-! ### The user half -/

/-- Every address of the range is below the kernel half, and it does not wrap around. -/
structure UserRange (base size : Word) : Prop where
  below : ∀ i < size.toNat, base.toNat + i < 0x800000000000
  within : base.toNat + size.toNat ≤ 2 ^ 64

lemma userRange_iff : UserRange base size ↔ size.toNat = 0 ∨ base.toNat + size.toNat ≤ 0x800000000000 := by
  constructor
  · intro h
    rcases Nat.eq_zero_or_pos size.toNat with hzero | hpos
    · exact .inl hzero
    · have := h.below (size.toNat - 1) (by omega)
      exact .inr (by omega)
  · rintro (hzero | hle)
    · exact ⟨fun i hi => by omega, by have := base.isLt; omega⟩
    · exact ⟨fun i hi => by omega, by omega⟩

lemma and_bit_eq_zero (x : Word) : x &&& 0x800000000000 = 0 ↔ x.toNat % 2 ^ 48 < 2 ^ 47 := by
  rw [← BitVec.toNat_inj, BitVec.toNat_and, show (0x800000000000 : Word).toNat = 2 ^ 47 by rfl, Nat.and_two_pow,
    Nat.testBit_eq_decide_div_mod_eq, show (0 : Word).toNat = 0 by rfl]
  by_cases hbit : x.toNat / 2 ^ 47 % 2 = 1
  · rw [decide_eq_true hbit, Bool.toNat_true]
    omega
  · rw [decide_eq_false hbit, Bool.toNat_false]
    omega

lemma syscallPrivilegeCheck_iff (base size : Word) : syscallPrivilegeCheck base size = false ↔
    base.toNat % 2 ^ 48 < 2 ^ 47 ∧ (base.toNat + size.toNat) % 2 ^ 48 < 2 ^ 47 := by
  have hsum : (base + size).toNat % 2 ^ 48 = (base.toNat + size.toNat) % 2 ^ 48 := by
    rw [BitVec.toNat_add]
    exact Nat.mod_mod_of_dvd _ (Nat.pow_dvd_pow 2 (by decide))
  rw [syscallPrivilegeCheck, Bool.or_eq_false_iff, decide_eq_false_iff_not, decide_eq_false_iff_not, not_not, not_not,
    and_bit_eq_zero, and_bit_eq_zero, hsum]

lemma sub_one_toNat (h : 16777216 < size.toNat) : (size - 1).toNat = size.toNat - 1 :=
  BitVec.toNat_sub_of_le (Nat.le_trans (by decide : (1 : Word).toNat ≤ 16777216) (Nat.le_of_lt h))

lemma mem_syscallDriverCalls {st : Kernel} {pid : ℕ} {fd : ℤ} {rets : List Word}
    (h : call ∈ syscallDriverCalls st pid fd base size rets) :
    syscallPrivilegeCheck base size = false ∧ call ∈ driverCalls size rets 0 := by
  rw [syscallDriverCalls] at h
  split_ifs at h with hcheck hopen
  · cases h
  · exact ⟨by simpa using hcheck, h⟩
  · cases h

lemma driverCalls_user (hbelow : base.toNat + size.toNat < 2 ^ 47)
    (hsmall : size.toNat ≤ 16777216 ∨ base.toNat + 2 * size.toNat ≤ 2 ^ 47 + 1) {rets : List Word}
    (hcall : call ∈ driverCalls size rets 0) : UserRange (base + call.index) size := by
  have hlt : call.index.toNat < size.toNat := index_lt hcall
  rcases hsmall with hsmall | hlast
  · -- the only call has the caller's buffer
    cases rets with
    | nil => cases hcall
    | cons retValue rets =>
      rw [(@driverCalls_small 0 size vfsInit hsmall (by omega) retValue rets).1, mem_singleton] at hcall
      rw [hcall, add_zero]
      exact userRange_iff.mpr (by omega)
  · refine userRange_iff.mpr (.inr ?_)
    rw [BitVec.toNat_add_of_lt (by omega)]
    omega

lemma handle_kentryThreaded : ((kentryThreaded []).handle 1 0).isSome := rfl

lemma last_call_user (hcheck : syscallPrivilegeCheck base size = false)
    (hle : base.toNat + size.toNat ≤ 0x800000000000) (hlarge : 16777216 < size.toNat)
    (hcalls : ∀ call ∈ syscallDriverCalls (kentryThreaded []) 1 0 base size [size - 1, 0],
      UserRange (base + call.index) size) :
     base.toNat + 2 * size.toNat ≤ 2 ^ 47 + 1 := by
  have hsub := sub_one_toNat hlarge
  have hcall : (⟨size - 1, 0⟩ : DriverCall) ∈ syscallDriverCalls (kentryThreaded []) 1 0 base size [size - 1, 0] := by
    rw [syscallDriverCalls, if_neg (by simp [hcheck]), if_pos handle_kentryThreaded]
    exact second_call (by omega) (by omega)
  have hindex : (base + (size - 1)).toNat = base.toNat + (size.toNat - 1) := by
    rw [BitVec.toNat_add_of_lt (by omega), hsub]
  rcases userRange_iff.mp (hcalls _ hcall) with hzero | hle
  · omega
  · rw [hindex] at hle
    omega

/-- **The buffers that the check lets through** are in the user half, and so are those that a driver gets, exactly if
the range is empty or bit 47 of one of its ends is set; or it ends below 2^48, and the last call that the loop can
make ends in the user half as well. -/
theorem user_buffers_iff (base size : Word) :
    ((syscallPrivilegeCheck base size = false → UserRange base size) ∧ ∀ st pid fd rets,
      ∀ call ∈ syscallDriverCalls st pid fd base size rets, UserRange (base + call.index) size) ↔
    size.toNat = 0 ∨ 2 ^ 47 ≤ base.toNat % 2 ^ 48 ∨ 2 ^ 47 ≤ (base.toNat + size.toNat) % 2 ^ 48 ∨
      base.toNat + size.toNat < 2 ^ 48 ∧ (size.toNat ≤ 16777216 ∨ base.toNat + 2 * size.toNat ≤ 2 ^ 47 + 1) := by
  by_cases hcheck : syscallPrivilegeCheck base size = false
  · obtain ⟨hbase, hend⟩ := (syscallPrivilegeCheck_iff base size).mp hcheck
    constructor
    · rintro ⟨hrange, hcalls⟩
      rcases userRange_iff.mp (hrange hcheck) with hzero | hle
      · exact .inl hzero
      · refine .inr (.inr (.inr ⟨by omega, ?_⟩))
        rcases Nat.lt_or_ge 16777216 size.toNat with hlarge | hsmall
        · exact .inr (last_call_user hcheck hle hlarge (hcalls _ _ _ _))
        · exact .inl hsmall
    · intro hcond
      have hrange : size.toNat = 0 ∨ base.toNat + size.toNat < 2 ^ 47 ∧
          (size.toNat ≤ 16777216 ∨ base.toNat + 2 * size.toNat ≤ 2 ^ 47 + 1) := by omega
      refine ⟨fun _ => userRange_iff.mpr (by omega), fun st pid fd rets call hcall => ?_⟩
      rcases hrange with hzero | ⟨hbelow, hsmall⟩
      · exact userRange_iff.mpr (.inl hzero)
      · exact driverCalls_user hbelow hsmall (mem_syscallDriverCalls hcall).2
  · refine iff_of_true ⟨fun h => absurd h hcheck, fun st pid fd rets call hcall => ?_⟩ ?_
    · exact absurd (mem_syscallDriverCalls hcall).1 hcheck
    · rw [syscallPrivilegeCheck_iff] at hcheck
      omega

/-- A range that goes around all of memory passes, so does an address above 2^48; and of 32 MiB right below
the kernel half the driver gets 32 MiB from their middle on. -/
theorem kernel_buffer_passes :
    (syscallPrivilegeCheck 0x2000 0xFFFFFFFFFFFFF000 = false ∧ ¬ UserRange 0x2000 0xFFFFFFFFFFFFF000) ∧
    (syscallPrivilegeCheck 0x1000000000000 1 = false ∧ ¬ UserRange 0x1000000000000 1) ∧
    ∃ call ∈ syscallDriverCalls (kentryThreaded []) 1 0 0x7FFFFDFFF000 0x2000000 [0x1000000, 0],
      ¬ UserRange (0x7FFFFDFFF000 + call.index) 0x2000000 := by
  refine ⟨⟨by decide, ?_⟩, ⟨by decide, ?_⟩, ⟨0x1000000, 0⟩, by decide +kernel, ?_⟩
  · rw [userRange_iff]
    decide
  · rw [userRange_iff]
    decide
  · rw [userRange_iff]
    decide

/-! ### What a call returns -/

/-- The bytes that the calls moved; `-1` is an error. -/
def delivered (calls : List DriverCall) : ℕ :=
  ((calls.filter (·.retValue ≠ -1)).map (·.retValue.toNat)).sum

def FirstFailed (calls : List DriverCall) : Prop := ∃ call ∈ calls.head?, call.retValue = -1

def answered (answers : ℕ → Word) (n : ℕ) : List Word := (List.range n).map answers

/-- A driver returns `-1` or at most the length it was given. -/
def Answers (length : Word) (answers : ℕ → Word) : Prop := ∀ k, answers k = -1 ∨ (answers k).toNat ≤ length.toNat

/-- What a `read` or `write` of `length` bytes should do with the answers of a driver, given the calls
it makes. -/
structure Transfers (call : List Word → Option (Word × Kernel)) (length : Word) (answers : ℕ → Word) : Prop where
  /-- It ends when the driver has reported the end of the file or an error. -/
  ends : ∀ k, answers k = 0 ∨ answers k = -1 → (call (answered answers (k + 1))).isSome
  inside : ∀ n, ∀ c ∈ driverCalls length (answered answers n) 0, c.retValue ≠ -1 →
    c.index.toNat + c.retValue.toNat ≤ length.toNat
  failed : ∀ n r st', call (answered answers n) = some (r, st') → r = -1 →
    FirstFailed (driverCalls length (answered answers n) 0)
  total : ∀ n r st', call (answered answers n) = some (r, st') →
    ¬ FirstFailed (driverCalls length (answered answers n) 0) →
    r.toNat = delivered (driverCalls length (answered answers n) 0)

section

variable {st : Kernel} {pid : ℕ} {fd : ℤ} {buffer length : Word} {node : Node}

lemma syscallTransfer_eq (hcheck : syscallPrivilegeCheck buffer length = false) (hnode : st.handle pid fd = some node)
    (rets : List Word) : syscallTransfer st pid fd buffer length rets = transfer node length rets 0 st := by
  rw [syscallTransfer, if_neg (by simp [hcheck]), onNode, hnode]

lemma answered_succ (answers : ℕ → Word) (n : ℕ) :
    answered answers (n + 1) = answers 0 :: (List.range n).map fun k => answers (k + 1) := by
  rw [answered, range_succ_eq_map, map_cons, List.map_map]
  rfl

lemma transfer_empty (hzero : length.toNat = 0) (rets : List Word) :
    driverCalls length rets 0 = [] ∧ transfer node length rets 0 st = some (0, st) := by
  have hnot : ¬ (0 : Word) < length := by
    rw [BitVec.lt_def, hzero]
    exact Nat.not_lt_zero _
  cases rets with
  | nil => exact ⟨rfl, if_neg hnot⟩
  | cons retValue rets => exact ⟨if_neg hnot, if_neg hnot⟩

/-- **A buffer of at most 16 MiB.** There is one call of the driver, and its answer is the result. -/
lemma transfers_small (hcheck : syscallPrivilegeCheck buffer length = false) (hnode : st.handle pid fd = some node)
    (hlength : length.toNat ≤ 16777216) {answers : ℕ → Word} (hanswers : Answers length answers) :
    Transfers (syscallTransfer st pid fd buffer length) length answers := by
  have heq := syscallTransfer_eq hcheck hnode
  rcases Nat.eq_zero_or_pos length.toNat with hzero | hpos
  · have hcalls := fun n => (@transfer_empty st length node hzero (answered answers n)).1
    have hreturns := fun n => (@transfer_empty st length node hzero (answered answers n)).2
    refine ⟨fun k _ => by rw [heq, hreturns, isSome_some], fun n c hc => ?_, fun n r st' h hr => ?_, fun n r st' h _ => ?_⟩
    · rw [hcalls] at hc
      cases hc
    · rw [heq, hreturns] at h
      cases h
      cases hr
    · rw [heq, hreturns] at h
      cases h
      rw [hcalls]
      rfl
  · have hcalls := fun n => (@driverCalls_small node length st hlength hpos (answers 0)
      ((List.range n).map fun k => answers (k + 1))).1
    have hreturns := fun n => (@driverCalls_small node length st hlength hpos (answers 0)
      ((List.range n).map fun k => answers (k + 1))).2
    have hpending : transfer node length (answered answers 0) 0 st = none := if_pos hpos
    refine ⟨fun k _ => ?_, fun n c hc hne => ?_, fun n r st' h hr => ?_, fun n r st' h hfirst => ?_⟩
    · rw [heq, answered_succ, hreturns, isSome_some]
    · cases n with
      | zero => cases hc
      | succ n =>
        rw [answered_succ, hcalls, mem_singleton] at hc
        subst hc
        rw [show (0 : Word).toNat = 0 by rfl, Nat.zero_add]
        exact (hanswers 0).resolve_left hne
    · cases n with
      | zero => cases hpending.symm.trans ((heq _).symm.trans h)
      | succ n =>
        rw [heq, answered_succ, hreturns] at h
        rw [answered_succ, hcalls]
        exact ⟨_, rfl, (Prod.mk.inj (some.inj h)).1.trans hr⟩
    · cases n with
      | zero => cases hpending.symm.trans ((heq _).symm.trans h)
      | succ n =>
        rw [heq, answered_succ, hreturns] at h
        rw [answered_succ, hcalls] at hfirst ⊢
        have hne : answers 0 ≠ -1 := fun h => hfirst ⟨_, rfl, h⟩
        rw [← (Prod.mk.inj (some.inj h)).1, delivered, filter_cons_of_pos (by simpa using hne)]
        rfl

end

/-- **The loop over a buffer.** It does what it should, for every driver, exactly for a buffer of at most
16 MiB. -/
theorem transfers_iff (st : Kernel) (pid : ℕ) (fd : ℤ) (buffer length : Word)
    (hcheck : syscallPrivilegeCheck buffer length = false) (hnode : (st.handle pid fd).isSome) :
    (∀ answers, Answers length answers → Transfers (syscallRead st pid fd buffer length) length answers ∧
      Transfers (syscallWrite st pid fd buffer length) length answers) ↔ length.toNat ≤ 16777216 := by
  obtain ⟨node, hnode⟩ := isSome_iff_exists.mp hnode
  constructor
  · intro h
    by_contra hlarge
    -- a driver that stops after 16 MiB, and then has all but one byte of what it is asked for
    have hsub := sub_one_toNat (Nat.not_le.mp hlarge)
    have hanswers : Answers length fun k => if k = 0 then 16777216 else length - 1 := by
      intro k
      right
      dsimp only
      split_ifs
      · exact Nat.le_of_not_le hlarge
      · omega
    have hcall : (⟨16777216, length - 1⟩ : DriverCall) ∈ driverCalls length
        (answered (fun k => if k = 0 then 16777216 else length - 1) 2) 0 :=
      second_call (Nat.le_refl _) (Nat.not_le.mp hlarge)
    have hne : length - 1 ≠ -1 := by
      intro heq
      have := congrArg BitVec.toNat heq
      have hlt := length.isLt
      rw [hsub, show (-1 : Word).toNat = 2 ^ 64 - 1 by rfl] at this
      omega
    have hle := (h _ hanswers).1.inside 2 _ hcall hne
    rw [hsub] at hle
    have : (16777216 : Word).toNat = 16777216 := rfl
    dsimp only at hle
    omega
  · intro hlength answers hanswers
    exact ⟨transfers_small hcheck hnode hlength hanswers, transfers_small hcheck hnode hlength hanswers⟩

theorem transfers_one_page : syscallPrivilegeCheck 0x1000 0x1000 = false ∧ ((kentryThreaded []).handle 1 0).isSome ∧
    ((∀ answers, Answers 0x1000 answers → Transfers (syscallRead (kentryThreaded []) 1 0 0x1000 0x1000) 0x1000 answers ∧
      Transfers (syscallWrite (kentryThreaded []) 1 0 0x1000 0x1000) 0x1000 answers) ↔
        (0x1000 : Word).toNat ≤ 16777216) :=
  ⟨by decide, rfl, transfers_iff (kentryThreaded []) 1 0 0x1000 0x1000 (by decide) rfl⟩

lemma transfer_eof {node : Node} {length currentIndex : Word} (hlt : currentIndex < length)
    (hstep : transferStep length currentIndex = 0) : ∀ (n : ℕ) (st : Kernel),
    transfer node length (List.replicate n 0) currentIndex st = none
  | 0, _ => if_pos hlt
  | n + 1, st => by
    rw [replicate_succ, transfer_cons hlt, hstep, if_neg (by decide), add_zero]
    exact transfer_eof hlt hstep n _

/-- A read of 32 MiB. From a driver that had 16 MiB, and has all it is asked for then, it gets 16 MiB behind
the buffer. From a file of 24 MiB it does not return; and it goes on after an error. -/
theorem read_outside_buffer : (⟨0x1000000, 0x2000000⟩ : DriverCall) ∈ driverCalls 0x2000000 [0x1000000, 0x2000000] 0 ∧
    (∀ n, syscallRead (kentryThreaded []) 1 0 0x1000 0x2000000 (0x1800000 :: List.replicate n 0) = none) ∧
    syscallRead (kentryThreaded []) 1 0 0x1000 0x2000000 [0x1800000, -1] = none := by
  refine ⟨by decide +kernel, fun n => ?_, by decide +kernel⟩
  rw [syscallRead, syscallTransfer_eq (by decide) rfl, transfer_cons (by decide), if_neg (by decide)]
  exact transfer_eof (by decide) (by decide) n _

end WivOS.Syscalls
