/-
# The numbers of file handles

Runs of `syscall_open` and `syscall_close` of `kernel/tasking/syscalls.c` by one process. A number is free while its
entry is `-1`, but `syscall_close` writes `NULL` into it. So a process has 256 handles in all its life
(`syscallOpen_cases`, `open_close_iff`).
-/
import WivOS.Tasking.Syscalls

namespace WivOS.Syscalls

open List Option Machine

open Vfs (Node Path Drivers kopen)

inductive Call where
  | openPath (drv : Drivers) (addr : Word) (path : Path) (mode : Word)
  | close (fd : ℤ)

def Call.exec (st : Kernel) (pid : ℕ) : Call → Option (Word × Kernel)
  | .openPath drv addr path mode => syscallOpen st pid drv addr path mode
  | .close fd => syscallClose st pid fd

def Call.step (pid : ℕ) (st : Kernel) (call : Call) : Option Kernel := (call.exec st pid).map Prod.snd

def openCount (st : Kernel) (pid : ℕ) : ℕ :=
  (List.finRange maxFileHandles).countP fun i : Fin maxFileHandles => (st.handle pid (i : ℕ)).isSome

def Existing (st : Kernel) (drv : Drivers) (addr : Word) (path : Path) (mode : Word) : Prop :=
  syscallPrivilegeCheck addr (BitVec.ofNat 64 (path.length + 1)) = false ∧
    (kopen drv st.tree path (mode.setWidth 32) st.heap).1.isSome

def Available (st : Kernel) (pid : ℕ) (fd : ℤ) : Prop :=
  ∃ table, st.procs[pid]? = some table ∧ ∃ i : Fin maxFileHandles, (i : ℤ) = fd ∧
    ∀ n, freeHandle (fun j => if j = i then table j else .node n) = some i

/-- The call returns `r` and leaves `st'`. What it should do: an open gives a number that is not open, and
it succeeds as long as not all are; a close makes its number available. -/
def Serves (st : Kernel) (pid : ℕ) (r : Word) (st' : Kernel) : Call → Prop
  | .openPath drv addr path mode =>
    (Existing st drv addr path mode → openCount st pid < maxFileHandles → r ≠ -1) ∧
      (r ≠ -1 → ∃ fd : Fin maxFileHandles, r = (fd : ℕ) ∧ st.handle pid (fd : ℕ) = none ∧
        (st'.handle pid (fd : ℕ)).isSome)
  | .close fd => (st.handle pid fd).isSome → r = 0 ∧ st'.handle pid fd = none ∧ Available st' pid fd

def LeavesOpen (pid : ℕ) (st : Kernel) : Call → Prop
  | .openPath .. => True
  | .close fd => st.handle pid fd = none

instance (pid : ℕ) (st : Kernel) : ∀ call, Decidable (LeavesOpen pid st call)
  | .openPath .. => isTrue trivial
  | .close fd => inferInstanceAs (Decidable (st.handle pid fd = none))

section

variable {st st' : Kernel} {pid : ℕ} {fd : ℤ} {table : Handles} {r : Word}

lemma handle_eq_none (htable : st.procs[pid]? = some table) (i : Fin maxFileHandles) :
    st.handle pid (i : ℕ) = none ↔ ∀ n, table i ≠ .node n := by
  rw [eq_none_iff_forall_ne_some]
  refine forall_congr' fun n => not_congr ?_
  rw [handle_eq_some]
  constructor
  · rintro ⟨table', htable', j, hj, h⟩
    obtain rfl := some.inj (htable.symm.trans htable')
    obtain rfl := Fin.ext (Int.ofNat.inj hj)
    exact h
  · exact fun h => ⟨table, htable, i, rfl, h⟩

lemma procs_setHandle (htable : st.procs[pid]? = some table) (fd : ℤ) (x : Handle) :
    (st.setHandle pid fd x).procs[pid]? = some fun i : Fin maxFileHandles => if (i : ℤ) = fd then x else table i := by
  rw [Kernel.setHandle, getElem?_modify, htable]
  refine congrArg some ?_
  dsimp only
  rw [if_pos rfl]

lemma freeHandle_eq_none : freeHandle table = none ↔ ∀ i, table i ≠ .unused := by
  rw [freeHandle, find?_eq_none]
  simp

lemma freeHandle_unused {i : Fin maxFileHandles} (h : freeHandle table = some i) : table i = .unused := by
  simpa using find?_some h

/-- **When an open succeeds.** There has to be an entry that was never given out, and its number is
returned. -/
lemma syscallOpen_cases (htable : st.procs[pid]? = some table) (drv : Drivers) (addr : Word) (path : Path)
    (mode : Word) : (∃ fd : Fin maxFileHandles, table fd = .unused ∧ ∃ n heap, syscallOpen st pid drv addr path mode =
      some (((fd : ℕ) : Word), Kernel.setHandle { st with heap } pid (fd : ℕ) (.node n))) ∨
    ∃ heap, syscallOpen st pid drv addr path mode = some (-1, { st with heap }) ∧
      (Existing st drv addr path mode → ∀ i, table i ≠ .unused) := by
  rw [syscallOpen, htable, bind_some]
  by_cases hcheck : syscallPrivilegeCheck addr (BitVec.ofNat 64 (path.length + 1)) = true
  · exact .inr ⟨st.heap, if_pos hcheck, fun h => absurd (hcheck.symm.trans h.1) (by decide)⟩
  · rw [if_neg hcheck]
    cases hfree : freeHandle table with
    | none => exact .inr ⟨st.heap, rfl, fun _ => freeHandle_eq_none.mp hfree⟩
    | some fd =>
      rcases hopen : kopen drv st.tree path (mode.setWidth 32) st.heap with ⟨_ | n, heap⟩
      · refine .inr ⟨heap, rfl, fun h => ?_⟩
        rw [Existing, hopen] at h
        cases h.2
      · exact .inl ⟨fd, freeHandle_unused hfree, n, heap, rfl⟩

def NoNull (st : Kernel) (pid : ℕ) : Prop := ∃ table, st.procs[pid]? = some table ∧ ∀ i, table i ≠ .null

lemma openCount_eq (htable : st.procs[pid]? = some table) (hnull : ∀ i, table i ≠ .null)
    (hused : ∀ i, table i ≠ .unused) :
    openCount st pid = maxFileHandles := by
  rw [openCount, countP_eq_length.mpr, length_finRange]
  intro i _
  rw [← not_isNone, Bool.not_eq_true', ← Bool.not_eq_true, isNone_iff_eq_none, handle_eq_none htable]
  intro h
  cases hi : table i with
  | unused => exact hused i hi
  | null => exact hnull i hi
  | node n => exact h n hi

lemma available_iff (htable : st.procs[pid]? = some table) (i : Fin maxFileHandles) :
    Available st pid (i : ℕ) ↔ table i = .unused := by
  constructor
  · rintro ⟨table', htable', j, hj, h⟩
    obtain rfl := some.inj (htable.symm.trans htable')
    obtain rfl := Fin.ext (Int.ofNat.inj hj)
    have hunused := freeHandle_unused (h 0)
    rwa [if_pos rfl] at hunused
  · intro h
    refine ⟨table, htable, i, rfl, fun n => ?_⟩
    cases hfree : freeHandle (fun j => if j = i then table j else .node n) with
    | none =>
      have hne := freeHandle_eq_none.mp hfree i
      rw [if_pos rfl] at hne
      exact absurd h hne
    | some j =>
      have hj := freeHandle_unused hfree
      by_cases hji : j = i
      · rw [hji]
      · rw [if_neg hji] at hj
        cases hj

/-- **One call** of a process that has no entry that is `NULL`: it returns, and it does what it should exactly
if it is not a close of an open handle. -/
lemma NoNull.serves_iff (h : NoNull st pid) (call : Call) :
    ∃ r st', call.exec st pid = some (r, st') ∧ (Serves st pid r st' call ↔ LeavesOpen pid st call) := by
  obtain ⟨table, htable, hnull⟩ := h
  cases call with
  | openPath drv addr path mode =>
    rcases syscallOpen_cases htable drv addr path mode with ⟨fd, hunused, n, heap, heq⟩ | ⟨heap, heq, hused⟩
    · have hne : ((fd : ℕ) : Word) ≠ -1 := by
        intro h
        have hfd := congrArg BitVec.toNat h
        rw [show ((fd : ℕ) : Word) = BitVec.ofNat 64
          fd by rfl, BitVec.toNat_ofNat, show (-1 : Word).toNat = 2 ^ 64 - 1 by rfl] at hfd
        have : (fd : ℕ) < 256 := fd.isLt
        omega
      refine ⟨_, _, heq, iff_of_true ⟨fun _ _ => hne, fun _ => ⟨fd, rfl, ?_, ?_⟩⟩ trivial⟩
      · rw [handle_eq_none htable, hunused]
        exact nofun
      · have hset := @procs_setHandle { st with heap } pid table htable (fd : ℕ) (.node n)
        rw [handle_eq_some.mpr ⟨_, hset, fd, rfl, if_pos rfl⟩]
        rfl
    · refine ⟨_, _, heq, iff_of_true ⟨fun hexisting hcount => ?_, fun hne => absurd rfl hne⟩ trivial⟩
      rw [openCount_eq htable hnull (hused hexisting)] at hcount
      exact absurd hcount (Nat.lt_irrefl _)
  | close fd =>
    rw [Call.exec, syscallClose, onNode]
    cases hhandle : st.handle pid fd with
    | none => exact ⟨_, _, rfl, iff_of_true (fun h => by rw [hhandle] at h; cases h) hhandle⟩
    | some n =>
      refine ⟨_, _, rfl, iff_of_false (fun hserves => ?_) ?_⟩
      · obtain ⟨-, -, havailable⟩ := hserves (by rw [hhandle]; rfl)
        obtain ⟨_, -, i, rfl, -⟩ := handle_eq_some.mp hhandle
        have hset := @procs_setHandle ((st.vfsOp n).kfree n) pid table htable (i : ℕ) .null
        have hunused := (available_iff hset i).mp havailable
        rw [if_pos rfl] at hunused
        cases hunused
      · rw [LeavesOpen, hhandle]
        exact some_ne_none n

lemma NoNull.step (h : NoNull st pid) {call : Call} (hleaves : LeavesOpen pid st call)
    (hstep : call.step pid st = some st') :
    NoNull st' pid := by
  obtain ⟨table, htable, hnull⟩ := h
  rw [Call.step, map_eq_some_iff] at hstep
  obtain ⟨⟨r, _⟩, hexec, rfl⟩ := hstep
  cases call with
  | openPath drv addr path mode =>
    rcases syscallOpen_cases htable drv addr path mode with ⟨fd, -, n, heap, heq⟩ | ⟨heap, heq, -⟩
    · obtain ⟨-, rfl⟩ := Prod.mk.inj (some.inj (heq.symm.trans hexec))
      refine ⟨_, @procs_setHandle { st with heap } pid table htable (fd : ℕ) (.node n), fun i => ?_⟩
      split_ifs
      · exact nofun
      · exact hnull i
    · obtain ⟨-, rfl⟩ := Prod.mk.inj (some.inj (heq.symm.trans hexec))
      exact ⟨table, htable, hnull⟩
  | close fd =>
    have hnone : st.handle pid fd = none := hleaves
    rw [Call.exec, syscallClose, onNode, hnone] at hexec
    obtain ⟨-, rfl⟩ := Prod.mk.inj (some.inj hexec)
    exact ⟨table, htable, hnull⟩

end

/-- **Runs of opens and closes** by a process that has no entry that is `NULL`, as those that `process_create`
makes. As long as no open handle is closed, each call does what it should; and a call does so exactly if
it is not such a close. -/
theorem open_close_iff {st : Kernel} {pid : ℕ} (hstart : NoNull st pid) {calls : List Call}
    (hleaves : Along (Call.step pid) (LeavesOpen pid) st calls) :
    ∃ st', run (Call.step pid) st calls = some st' ∧ ∀ call, ∃ r st'', call.exec st' pid = some (r, st'') ∧
      (Serves st' pid r st'' call ↔ LeavesOpen pid st' call) := by
  have hstep : ∀ s call, NoNull s pid → LeavesOpen pid s call →
      ∃ s', Call.step pid s call = some s' ∧ NoNull s' pid := by
    intro s call hs hleaves
    obtain ⟨r, s', hexec, -⟩ := hs.serves_iff call
    have hstep : Call.step pid s call = some s' := by rw [Call.step, hexec, map_some]
    exact ⟨s', hstep, hs.step hleaves hstep⟩
  obtain ⟨st', hrun, hst'⟩ := run_total_along (Call.step pid) hstep calls st hstart hleaves
  exact ⟨st', hrun, hst'.serves_iff⟩

/-- The init process opens a file, and closes a handle that is not open. -/
def openOne : List Call := [.openPath everyFile 0x1000 ['/', 'f'] 0, .close 7]

lemma noNull_kentryThreaded : NoNull (kentryThreaded [['/']]) 1 := by
  refine ⟨_, rfl, fun i h => ?_⟩
  split_ifs at h

theorem open_close_one : Along (Call.step 1) (LeavesOpen 1) (kentryThreaded [['/']]) openOne ∧
    ∃ st', run (Call.step 1) (kentryThreaded [['/']]) openOne = some st' ∧ ∀ call, ∃ r st'',
      call.exec st' 1 = some (r, st'') ∧ (Serves st' 1 r st'' call ↔ LeavesOpen 1 st' call) := by
  have hleaves : Along (Call.step 1) (LeavesOpen 1) (kentryThreaded [['/']]) openOne := by decide +kernel
  exact ⟨hleaves, open_close_iff noNull_kentryThreaded hleaves⟩

/-- The init process opens a file, its handle is 3, and closes it. The number 3 is not open, and it is not
available. -/
theorem closed_number_lost : ∃ st', run (Call.step 1) (kentryThreaded [['/']])
    [.openPath everyFile 0x1000 ['/', 'f'] 0, .close 3] = some st' ∧ st'.handle 1 3 = none ∧ ¬ Available st' 1 3 := by
  obtain ⟨st', hrun, hhandle, hentry⟩ := @exists_run _ _ (Call.step 1)
    (fun st' => st'.handle 1 3 = none ∧ st'.procs[1]?.map (fun table : Handles => table ⟨3, by decide⟩) = some .null) _
    (kentryThreaded [['/']]) [.openPath everyFile 0x1000 ['/', 'f'] 0, .close 3] (by decide +kernel)
  refine ⟨st', hrun, hhandle, fun havailable => ?_⟩
  obtain ⟨table, htable, hnull⟩ := map_eq_some_iff.mp hentry
  cases hnull.symm.trans ((available_iff htable ⟨3, by decide⟩).mp havailable)

end WivOS.Syscalls
