/-
# The stack of a new program

`thread_create` and `thread_recreate` of `kernel/tasking/thread.c`, where a thread gets four pages for its stack; for a
program they put the strings of its environment and its arguments there, and below them the auxiliary values, the
pointers, and the number of arguments. The bytes of the stack and the log of the stores to it are a `Trace`, kept apart
from the page tables; a store of `thread_recreate` to the kernel stack is not part of the log.

What fits into the pages can be read from where the stack pointer starts, if the page below them is in the same page
table: `vmm_unmap` of this guard page stores through a null pointer otherwise (`exec_stack_decodes`). Nothing bounds the
lists that `syscall_execve` copies, and if they do not fit, the stores go below the pages (`execve_stores_iff`).
-/
import WivOS.Lib.Stack
import WivOS.Tasking.Alloc

namespace WivOS.ThreadStack

open ByteMem Function List Option
open Alloc (stackGuardPage stackBottom zeroBlock block)
open Scheduler (Tasks Entry maxThreads)
open Syscalls (syscallPrivilegeCheck)
open Vmm (Vm Supplied pdEntry vmmLarge vmmMap vmmPresent vmmUnmap vpn)

abbrev Byte := BitVec 8
abbrev Word := BitVec 64

abbrev CString := { s : List Byte // 0 ∉ s }

def CString.size (s : CString) : ℕ := s.1.length + 1

def CString.bytes (s : CString) : List Byte := s.1 ++ [0]

structure ElfValue where
  phdr : Word
  phent : Word
  phnum : Word
  entry : Word

structure ExecData where
  entry : Word
  argv : List CString
  envp : List CString
  value : ElfValue

inductive Parameter where
  | entry (entry arg : Word)
  | exec (data : ExecData)

/-! ### The stack -/

def sub (a n : ℕ) : ℕ := (a + (2 ^ 64 - n % 2 ^ 64)) % 2 ^ 64

def copyString (r : ℕ × Trace) (s : CString) : ℕ × Trace :=
  let strp := sub r.1 s.size
  (strp, r.2.put strp s.bytes)

def push (v : ℕ) (r : ℕ × Trace) : ℕ × Trace :=
  let sp := sub r.1 8
  (sp, r.2.put sp (toBytes 8 v))

def pushPair (key value : ℕ) (r : ℕ × Trace) : ℕ × Trace :=
  let sp := sub r.1 16
  (sp, (r.2.put sp (toBytes 8 key)).put (sp + 8) (toBytes 8 value))

def pushValue (value : ElfValue) (r : ℕ × Trace) : ℕ × Trace :=
  let r := push 0 (push 0 r)
  let r := pushPair 9 value.entry.toNat r
  let r := pushPair 3 value.phdr.toNat r
  let r := pushPair 4 value.phent.toNat r
  pushPair 5 value.phnum.toNat r

def storePointers : List CString → ℕ → ℕ → Trace → ℕ × Trace
  | [], _, sa, t => (sa, t)
  | s :: strings, sp, sa, t =>
    let sa := sub sa s.size
    storePointers strings (sp + 8) sa (t.put sp (toBytes 8 sa))

/-- `*(--sp) = 0; sp -= n`, and the loop: `sa`, and `sp` with the memory. -/
def pushPointers (strings : List CString) (sa : ℕ) (r : ℕ × Trace) : ℕ × ℕ × Trace :=
  let r := push 0 r
  let sp := sub r.1 (8 * strings.length)
  let stored := storePointers strings sp sa r.2
  (stored.1, sp, stored.2)

def pushVector (stackBottom : ℕ) (data : ExecData) (r : ℕ × Trace) : ℕ × Trace :=
  let r := pushValue data.value r
  let r := pushPointers data.envp (stackBottom + 0x4000) r
  let r := pushPointers data.argv r.1 r.2
  push data.argv.length r.2

def execStack (sbase stackBottom : ℕ) (data : ExecData) (t : Trace) : ℕ × Trace :=
  let r := data.envp.foldl copyString (sbase, t)
  let r := data.argv.foldl copyString r
  let strp := r.1 - r.1 % 16
  let sp := if (data.argv.length + data.envp.length + 1) % 2 = 1 then sub strp 8 else strp
  pushVector stackBottom data (sp, r.2)

/-! ### Threads -/

structure Context where
  rip : Word
  rdi : Word
  rsp : ℕ
  memoryStackPhys : Word

structure System where
  tasks : Tasks
  contexts : ℕ → Context
  pageTable : ℕ → Word
  vm : Vm
  kernel : Trace
  /-- The last call has stored through a null pointer. -/
  fault : Bool

/-- What the calls are answered: the pages for tables, the four pages for the stack, and the end of the
kernel stack. -/
structure Env where
  supply : ℕ → Word
  memoryStack : Word
  kstackAddress : ℕ

def kernelAddress (memoryStack : Word) : ℕ := memoryStack.toNat + memPhysOffset

def stackBase (memoryStack : Word) : ℕ := (kernelAddress memoryStack + 0x4000) % 2 ^ 64

def allocStack (memoryStack : Word) (t : Trace) : Trace :=
  { t with mem := write t.mem (kernelAddress memoryStack) (List.replicate 0x4000 0) }

def Parameter.context (p : Parameter) (rsp : ℕ) (memoryStackPhys : Word) : Context :=
  match p with
  | .entry start arg => ⟨start, arg, rsp, memoryStackPhys⟩
  | .exec data => ⟨data.entry, 0, rsp, memoryStackPhys⟩

def Parameter.stack (p : Parameter) (sbase stackBottom : ℕ) (t : Trace) : ℕ × Trace :=
  match p with
  | .entry _ _ => (sbase, t)
  | .exec data => execStack sbase stackBottom data t

/-- `vmm_unmap` of the page stores through a null pointer: there is its page directory, with neither a page table nor a
large page for it. -/
def NullTable (mem : Word → Fin 512 → Word) (root : Word) (v : ℕ) : Prop :=
  ∃ e ∈ pdEntry mem root v, e &&& vmmLarge = 0 ∧ e &&& vmmPresent = 0

instance (mem : Word → Fin 512 → Word) (root : Word) (v : ℕ) : Decidable (NullTable mem root v) :=
  decidable_of_iff ((pdEntry mem root v).any fun e => e &&& vmmLarge = 0 ∧ e &&& vmmPresent = 0)
    (by simp [NullTable, Option.any_eq_true])

def mapStack (env : Env) (root : Word) (tid : ℕ) (vm : Vm) : Option (Bool × Vm) :=
  vmmMap env.supply root (BitVec.ofNat 64 (stackBottom tid)) env.memoryStack 4 0x7
    (zeroBlock vm (block env.memoryStack 4))

def userStack (env : Env) (root : Word) (tid : ℕ) (p : Parameter) (vm : Vm) (t : Trace) :
    Option (Context × Vm × Trace × Bool) :=
  let sbase := stackBase env.memoryStack
  let stack := p.stack sbase (stackBottom tid) (allocStack env.memoryStack t)
  (mapStack env root tid vm).bind fun r =>
    (vmmUnmap root (BitVec.ofNat 64 (stackGuardPage tid)) 1 r.2).map fun r' =>
      (p.context (sub (stackBottom tid + 0x4000) (sub sbase stack.1)) env.memoryStack, r'.2, stack.2,
        decide (NullTable r.2.mem root (vpn (BitVec.ofNat 64 (stackGuardPage tid)))))

/-- Thread object `t` has been set up. After a fault the code does not come to the stores into it. -/
def System.start (s : System) (env : Env) (tasks : Tasks) (pid tid t : ℕ) (p : Parameter) :
    Option (Option ℕ × System) :=
  if pid = 0 then
    some (some tid, { s with tasks, contexts := update s.contexts t (p.context env.kstackAddress 0), fault := false })
  else
    (userStack env (s.pageTable pid) tid p s.vm s.kernel).map fun r =>
      (some tid, { s with
        tasks, contexts := update s.contexts t r.1, vm := r.2.1, kernel := r.2.2.1, fault := r.2.2.2 })

def threadCreate (env : Env) (s : System) (pid : ℕ) (p : Parameter) : Option (Option ℕ × System) :=
  match Scheduler.threadCreate s.tasks pid with
  | (none, _) => some (none, s)
  | (some tid, tasks) => s.start env tasks pid tid s.tasks.next p

/-- `thread_recreate`. It has set `memoryStackPhys` to `NULL` before it looks at it, so that it always asks for
new pages. -/
def threadRecreate (env : Env) (s : System) (pid tid : ℕ) (p : Parameter) : Option (Option ℕ × System) :=
  match s.tasks.procs pid with
  | none => some (none, s)
  | some table =>
    match table tid with
    | .thread t => s.start env (Scheduler.threadRecreate s.tasks pid tid).2 pid tid t p
    | _ => some (none, s)

/-! ### What is where on the stack -/

def strBytes (strings : List CString) : ℕ := (strings.map CString.size).sum

def pointersFrom : ℕ → List CString → List ℕ
  | _, [] => []
  | a, s :: strings => (a - s.size) :: pointersFrom (a - s.size) strings

def auxv (value : ElfValue) : List ℕ :=
  [5, value.phnum.toNat, 4, value.phent.toNat, 3, value.phdr.toNat, 9, value.entry.toNat, 0, 0]

/-- What lies at the stack pointer: the number of arguments, the pointers, and the auxiliary vector. -/
def vector (argc : ℕ) (argv envp : List ℕ) (value : ElfValue) : List ℕ :=
  argc :: (argv ++ [0] ++ (envp ++ [0] ++ auxv value))

def stackBytes (argv envp : List CString) : ℕ :=
  (strBytes envp + strBytes argv + 15) / 16 * 16 +
    8 * (argv.length + envp.length + 13 + (argv.length + envp.length + 1) % 2)

variable {ws : List ℕ} {r' : ℕ × Trace} {v : ℕ} {memoryStack : Word}

section

variable {a n : ℕ} {r : ℕ × Trace}

lemma sub_eq (hn : n ≤ a) (ha : a < 2 ^ 64) : sub a n = a - n := by
  rw [sub]
  omega

@[simp] lemma CString.length_bytes (s : CString) : s.bytes.length = s.size := by
  rw [CString.bytes, length_append]
  rfl

lemma strBytes_cons (s : CString) (strings : List CString) : strBytes (s :: strings) = s.size + strBytes strings := rfl

lemma strBytes_append (xs ys : List CString) : strBytes (xs ++ ys) = strBytes xs + strBytes ys := by
  rw [strBytes, map_append, sum_append]
  rfl

lemma length_auxv (v : ElfValue) : (auxv v).length = 10 := rfl

lemma length_vector (argc : ℕ) (argv envp : List ℕ) (v : ElfValue) :
    (vector argc argv envp v).length = argv.length + envp.length + 13 := by
  simp only [vector, length_cons, length_append, length_nil, length_auxv]
  omega

lemma length_pointersFrom : ∀ (a : ℕ) (strings : List CString), (pointersFrom a strings).length = strings.length
  | _, [] => rfl
  | a, s :: strings => by rw [pointersFrom, length_cons, length_pointersFrom, length_cons]

lemma pushed_sub {bytes : List Byte} (hn : bytes.length ≤ r.1) (ha : r.1 < 2 ^ 64) :
    Pushed bytes r (sub r.1 bytes.length, r.2.put (sub r.1 bytes.length) bytes) := by
  have h := Pushed.put r.2 (sub r.1 bytes.length) bytes
  rw [sub_eq hn ha] at h ⊢
  rw [Nat.sub_add_cancel hn] at h
  exact h

lemma copyString_pushed {s : CString} (hn : s.size ≤ r.1) (ha : r.1 < 2 ^ 64) : Pushed s.bytes r (copyString r s) := by
  rw [← s.length_bytes] at hn
  have h := pushed_sub hn ha
  rw [s.length_bytes] at h
  exact h

def StringsAt (mem : Mem) : ℕ → List CString → Prop
  | _, [] => True
  | a, s :: strings => Holds mem (a - s.size) s.bytes ∧ StringsAt mem (a - s.size) strings

lemma StringsAt.wrote {lo hi : ℕ} {t t' : Trace} (hw : Wrote lo hi t t') : ∀ {strings : List CString} {a : ℕ},
    StringsAt t.mem a strings → hi + strBytes strings ≤ a → StringsAt t'.mem a strings
  | [], _, _, _ => trivial
  | s :: strings, a, ⟨hs, hstrings⟩, ha => by
    rw [strBytes_cons] at ha
    exact ⟨hs.wrote hw (.inr (by omega)), StringsAt.wrote hw hstrings (by omega)⟩

lemma copyStrings_spec : ∀ (strings : List CString) (r : ℕ × Trace), strBytes strings ≤ r.1 → r.1 < 2 ^ 64 →
    (strings.foldl copyString r).1 + strBytes strings = r.1 ∧
      Wrote (strings.foldl copyString r).1 r.1 r.2 (strings.foldl copyString r).2 ∧
      StringsAt (strings.foldl copyString r).2.mem r.1 strings
  | [], r, _, _ => ⟨rfl, Wrote.refl .., trivial⟩
  | s :: strings, r, hn, ha => by
    rw [strBytes_cons] at hn
    have hs := copyString_pushed (r := r) (s := s) (by omega) ha
    have hpointer : (copyString r s).1 + s.size = r.1 := s.length_bytes ▸ hs.pointer
    obtain ⟨hlast, hwrote, hstrings⟩ := copyStrings_spec strings (copyString r s) (by omega) (by omega)
    have hnext : (copyString r s).1 = r.1 - s.size := by omega
    refine ⟨?_, ?_, ?_, hnext ▸ hstrings⟩
    · rw [strBytes_cons, foldl_cons]
      omega
    · exact (hs.wrote.mono (by rw [foldl_cons]; omega) (Nat.le_refl _)).trans (hwrote.mono (Nat.le_refl _) (by omega))
    · exact hnext ▸ hs.holds.wrote hwrote (.inr (Nat.le_refl _))

lemma length_toBytes8 (v : ℕ) : (toBytes 8 v).length = 8 := length_toBytes 8 v

lemma pointer_words (h : Pushed (words ws) r r') : r'.1 + 8 * ws.length = r.1 := by
  rw [← length_words]
  exact h.pointer

lemma push_words (h : Pushed (words ws) r r') (hn : 8 * ws.length + 8 ≤ r.1) (ha : r.1 < 2 ^ 64) :
    Pushed (words (v :: ws)) r (push v r') := by
  have hr' := pointer_words h
  have hlength : (toBytes 8 v).length = 8 := length_toBytes8 v
  have hpush : Pushed (toBytes 8 v) r' _ := pushed_sub (by omega) (by omega)
  rw [hlength] at hpush
  rw [words_cons]
  exact h.trans hpush

lemma pushPair_words {k : ℕ} (h : Pushed (words ws) r r') (hn : 8 * ws.length + 16 ≤ r.1) (ha : r.1 < 2 ^ 64) :
    Pushed (words (k :: v :: ws)) r (pushPair k v r') := by
  have hr' := pointer_words h
  have hsp : sub r'.1 16 + 16 = r'.1 := by
    rw [sub_eq (by omega) (by omega)]
    omega
  have hwrote : ∀ a w t, Wrote a (a + 8) t (t.put a (toBytes 8 w)) :=
    fun a w t => length_toBytes8 w ▸ Wrote.put t a (toBytes 8 w)
  have hpair : Pushed (toBytes 8 k ++ toBytes 8 v) r' (pushPair k v r') := by
    refine ⟨?_, ?_, ?_⟩
    · rw [length_append, length_toBytes8, length_toBytes8]
      exact hsp
    · show Wrote (sub r'.1 16) r'.1 r'.2 _
      exact ((hwrote _ k r'.2).mono (Nat.le_refl _) (by omega)).trans ((hwrote _ v _).mono (by omega) (by omega))
    · have hholds := (holds_put r'.2 (sub r'.1 16) (toBytes 8 k)).put (toBytes 8 v)
      rw [length_toBytes8] at hholds
      exact hholds
  rw [words_cons, words_cons, ← append_assoc]
  exact h.trans hpair

lemma pushValue_words {v : ElfValue} (hn : 80 ≤ r.1) (ha : r.1 < 2 ^ 64) :
    Pushed (words (auxv v)) r (pushValue v r) := by
  have h1 : Pushed (words [0]) r (push 0 r) := push_words (Pushed.refl r) (by simp only [length_nil]; omega) ha
  have h2 : Pushed (words [0, 0]) r (push 0 (push 0 r)) :=
    push_words h1 (by simp only [length_cons, length_nil]; omega) ha
  have h3 := pushPair_words (k := 9) (v := v.entry.toNat) h2 (by simp only [length_cons, length_nil]; omega) ha
  have h4 := pushPair_words (k := 3) (v := v.phdr.toNat) h3 (by simp only [length_cons, length_nil]; omega) ha
  have h5 := pushPair_words (k := 4) (v := v.phent.toNat) h4 (by simp only [length_cons, length_nil]; omega) ha
  exact pushPair_words h5 (by simp only [length_cons, length_nil]; omega) ha

lemma storePointers_spec : ∀ (strings : List CString) (sp sa : ℕ) (t : Trace), strBytes strings ≤ sa → sa < 2 ^ 64 →
    (storePointers strings sp sa t).1 = sa - strBytes strings ∧
      Wrote sp (sp + 8 * strings.length) t (storePointers strings sp sa t).2 ∧
      Holds (storePointers strings sp sa t).2.mem sp (words (pointersFrom sa strings))
  | [], sp, sa, t, _, _ => ⟨rfl, Wrote.refl .., fun _ h => absurd h (Nat.not_lt_zero _)⟩
  | s :: strings, sp, sa, t, hn, ha => by
    rw [strBytes_cons] at hn
    have hlength : (toBytes 8 (sa - s.size)).length = 8 := length_toBytes 8 _
    have hput := Wrote.put t sp (toBytes 8 (sa - s.size))
    obtain ⟨hsa, hwrote, hholds⟩ := storePointers_spec strings (sp + 8) (sa - s.size)
      (t.put sp (toBytes 8 (sa - s.size))) (by omega) (by omega)
    rw [storePointers, sub_eq (by omega) ha, strBytes_cons, length_cons]
    refine ⟨by rw [hsa]; omega, ?_, ?_⟩
    · exact (hput.mono (Nat.le_refl _) (by omega)).trans (hwrote.mono (by omega) (by omega))
    · rw [pointersFrom, words_cons]
      refine ((holds_put t sp _).wrote hwrote (.inl ?_)).append ?_
      · rw [hlength]
      · rw [hlength]
        exact hholds

lemma storePointers_words {strings : List CString} {sp sa : ℕ} (h : Pushed (words ws) r r')
    (hsp : sp + 8 * strings.length = r'.1) (hsa : strBytes strings ≤ sa) (hsa' : sa < 2 ^ 64) :
    Pushed (words (pointersFrom sa strings ++ ws)) r (sp, (storePointers strings sp sa r'.2).2) := by
  obtain ⟨-, hwrote, hholds⟩ := storePointers_spec strings sp sa r'.2 hsa hsa'
  rw [words_append]
  refine h.trans ⟨?_, ?_, hholds⟩
  · rw [length_words, length_pointersFrom]
    exact hsp
  · rw [hsp] at hwrote
    exact hwrote

lemma pushPointers_words (strings : List CString) (sa : ℕ) (h : Pushed (words ws) r r')
    (hn : 8 * ws.length + 8 + 8 * strings.length ≤ r.1) (ha : r.1 < 2 ^ 64) (hsa : strBytes strings ≤ sa)
    (hsa' : sa < 2 ^ 64) : ∃ r'', pushPointers strings sa r' = (sa - strBytes strings, r'') ∧
      Pushed (words (pointersFrom sa strings ++ 0 :: ws)) r r'' := by
  have hnull : Pushed (words (0 :: ws)) r (push 0 r') := push_words h (by omega) ha
  have hr' := pointer_words hnull
  rw [length_cons] at hr'
  have hsp : sub (push 0 r').1 (8 * strings.length) + 8 * strings.length = (push 0 r').1 := by
    rw [sub_eq (by omega) (by omega)]
    omega
  refine ⟨_, ?_, storePointers_words hnull hsp hsa hsa'⟩
  rw [pushPointers, (storePointers_spec strings _ sa _ hsa hsa').1]

lemma pushVector_words {stackBottom : ℕ} {data : ExecData} (hn : 8 * (data.argv.length + data.envp.length + 13) ≤ r.1)
    (ha : r.1 < 2 ^ 64) (hsa : strBytes data.envp + strBytes data.argv ≤ stackBottom + 0x4000)
    (hsa' : stackBottom + 0x4000 < 2 ^ 64) :
    Pushed (words (vector data.argv.length (pointersFrom (stackBottom + 0x4000 - strBytes data.envp) data.argv)
      (pointersFrom (stackBottom + 0x4000) data.envp) data.value)) r (pushVector stackBottom data r) := by
  have hvalue := pushValue_words (r := r) (v := data.value) (by omega) ha
  obtain ⟨r1, h1, henvp⟩ := pushPointers_words data.envp (stackBottom + 0x4000) hvalue
    (by rw [length_auxv]; omega) ha (Nat.le_trans (Nat.le_add_right _ _) hsa) hsa'
  have hlength : (pointersFrom (stackBottom + 0x4000) data.envp ++ 0 :: auxv data.value).length =
      data.envp.length + 11 := by
    rw [length_append, length_pointersFrom, length_cons, length_auxv]
  obtain ⟨r2, h2, hargv⟩ := pushPointers_words data.argv (stackBottom + 0x4000 - strBytes data.envp) henvp
    (by rw [hlength]; omega) ha (by omega) (by omega)
  have hargc : Pushed _ r (push data.argv.length r2) := push_words hargv
    (by rw [length_append, length_pointersFrom, length_cons, hlength]; omega) ha
  rw [pushVector, h1]
  dsimp only
  rw [h2]
  rw [vector, append_assoc, append_assoc]
  exact hargc

/-- **What the code builds**: the strings below `sbase`, and the vector where the stack pointer ends. -/
lemma execStack_spec (sbase stackBottom : ℕ) (data : ExecData) (t : Trace) (halign : sbase % 16 = 0)
    (hbase : sbase < 2 ^ 64)
    (hn : stackBytes data.argv data.envp ≤ sbase) (hsa : strBytes data.envp + strBytes data.argv ≤ stackBottom + 0x4000)
    (hsa' : stackBottom + 0x4000 < 2 ^ 64) :
    ∃ sp t', execStack sbase stackBottom data t = (sp, t') ∧ sp + stackBytes data.argv data.envp = sbase ∧
      Wrote sp sbase t t' ∧ StringsAt t'.mem sbase (data.envp ++ data.argv) ∧
      Holds t'.mem sp (words (vector data.argv.length
        (pointersFrom (stackBottom + 0x4000 - strBytes data.envp) data.argv)
        (pointersFrom (stackBottom + 0x4000) data.envp)
        data.value)) := by
  have hbytes := strBytes_append data.envp data.argv
  rw [stackBytes] at hn ⊢
  obtain ⟨hstrp, hwrote, hcopies⟩ := copyStrings_spec (data.envp ++ data.argv) (sbase, t) (by rw [hbytes]; omega) hbase
  rw [foldl_append] at hstrp hwrote hcopies
  rw [execStack]
  generalize data.argv.foldl copyString (data.envp.foldl copyString (sbase, t)) = r at hstrp hwrote hcopies
  have hsp : (if (data.argv.length + data.envp.length + 1) % 2 = 1 then sub (r.1 - r.1 % 16) 8 else r.1 - r.1 % 16) +
      ((strBytes data.envp + strBytes data.argv + 15) / 16 * 16 + 8 * ((data.argv.length + data.envp.length + 1) % 2)) =
      sbase := by
    split_ifs with hodd
    · rw [sub_eq (by omega) (by omega)]
      omega
    · omega
  generalize (if (data.argv.length + data.envp.length + 1) % 2 = 1 then sub (r.1 - r.1 % 16) 8 else r.1 - r.1 % 16) =
    sp at hsp
  have hvector := pushVector_words (r := (sp, r.2)) (by dsimp only; omega) (by dsimp only; omega) hsa hsa'
  generalize pushVector stackBottom data (sp, r.2) = r' at hvector
  have hlast := pointer_words hvector
  rw [length_vector, length_pointersFrom, length_pointersFrom] at hlast
  dsimp only at hlast hstrp
  refine ⟨r'.1, r'.2, rfl, by omega, ?_, ?_, hvector.holds⟩
  · exact (hwrote.mono (by omega) (Nat.le_refl _)).trans (hvector.wrote.mono (Nat.le_refl _) (by dsimp only; omega))
  · exact StringsAt.wrote hvector.wrote hcopies (by dsimp only; omega)

end

/-! ### What the user reads -/

def view (mem : Mem) (base bottom a : ℕ) : Option Byte :=
  if bottom ≤ a ∧ a < bottom + 0x4000 then some (mem (base + (a - bottom))) else none

def userByte (t : Trace) (memoryStack : Word) (tid : ℕ) : ℕ → Option Byte :=
  view t.mem (kernelAddress memoryStack) (stackBottom tid)

def userWord (u : ℕ → Option Byte) (a : ℕ) : Option ℕ := ((List.range 8).mapM fun i => u (a + i)).map ofBytes

def UserWords (u : ℕ → Option Byte) (a : ℕ) (ws : List ℕ) : Prop :=
  ∀ i (h : i < ws.length), userWord u (a + 8 * i) = some ws[i]

def UserString (u : ℕ → Option Byte) (p : ℕ) (s : CString) : Prop :=
  ∀ i (h : i < s.bytes.length), u (p + i) = some s.bytes[i]

/-- **The stack of a program**, read from `rsp` on: the number of arguments, a pointer to each of them, a
`NULL`, a pointer to each variable of the environment, a `NULL`, and the auxiliary vector. -/
def Image (u : ℕ → Option Byte) (rsp : ℕ) (argv envp : List CString) (value : ElfValue) : Prop :=
  ∃ argvPointers envpPointers, UserWords u rsp (vector argv.length argvPointers envpPointers value) ∧
    List.Forall₂ (UserString u) argvPointers argv ∧ List.Forall₂ (UserString u) envpPointers envp

section

variable {mem : Mem} {base bottom a : ℕ}

lemma view_holds {bytes : List Byte} (h : Holds mem (base + (a - bottom)) bytes) (hbottom : bottom ≤ a)
    (htop : a + bytes.length ≤ bottom + 0x4000) (i : ℕ) (hi : i < bytes.length) :
    view mem base bottom (a + i) = some bytes[i] := by
  have haddress : base + (a + i - bottom) = base + (a - bottom) + i := by omega
  rw [view, if_pos (by omega), haddress, h i hi]

/-- **The pointers lead to the strings**: both were counted down in the same way. -/
lemma StringsAt.view : ∀ {strings : List CString} {a : ℕ}, StringsAt mem (base + (a - bottom)) strings →
    bottom + strBytes strings ≤ a → a ≤ bottom + 0x4000 →
    List.Forall₂ (UserString (view mem base bottom)) (pointersFrom a strings) strings
  | [], _, _, _, _ => .nil
  | s :: strings, a, h, hbottom, htop => by
    rw [strBytes_cons] at hbottom
    have haddress : base + (a - bottom) - s.size = base + (a - s.size - bottom) := by omega
    rw [StringsAt, haddress] at h
    refine .cons (view_holds h.1 (by omega) ?_) (StringsAt.view h.2 (by omega) (by omega))
    rw [s.length_bytes]
    omega

lemma StringsAt.append : ∀ {xs ys : List CString} {a : ℕ}, StringsAt mem a (xs ++ ys) →
    StringsAt mem a xs ∧ StringsAt mem (a - strBytes xs) ys
  | [], _, _, h => ⟨trivial, h⟩
  | s :: xs, ys, a, h => by
    obtain ⟨hxs, hys⟩ := StringsAt.append h.2
    rw [strBytes_cons, ← Nat.sub_sub]
    exact ⟨⟨h.1, hxs⟩, hys⟩

end

/-! ### Both functions -/

def Pages (memoryStack : Word) : Prop := memoryStack.toNat % 0x1000 = 0 ∧ memoryStack.toNat + 0x4000 < 2 ^ 47

/-- Thread object `t` starts with the stack of the program. -/
structure Ready (s : System) (tid t : ℕ) (data : ExecData) : Prop where
  returned : s.fault = false
  aligned : (s.contexts t).rsp % 16 = 0
  image : Image (userByte s.kernel (s.contexts t).memoryStackPhys tid) (s.contexts t).rsp data.argv data.envp data.value

section

variable {env : Env} {s : System} {root : Word} {pid tid : ℕ} {vm : Vm} {t : Trace} {data : ExecData}

lemma Pages.stackBase (h : Pages memoryStack) : stackBase memoryStack = kernelAddress memoryStack + 0x4000 := by
  obtain ⟨-, hlt⟩ := h
  rw [ThreadStack.stackBase, kernelAddress, show memPhysOffset = 2 ^ 64 - 2 ^ 47 by decide]
  omega

lemma Pages.kernelAddress_mod (h : Pages memoryStack) : kernelAddress memoryStack % 16 = 0 := by
  obtain ⟨haligned, -⟩ := h
  rw [kernelAddress, show memPhysOffset = 2 ^ 64 - 2 ^ 47 by decide]
  omega

lemma Pages.kernelAddress_lt (h : Pages memoryStack) : kernelAddress memoryStack + 0x4000 < 2 ^ 64 := by
  obtain ⟨-, hlt⟩ := h
  rw [kernelAddress, show memPhysOffset = 2 ^ 64 - 2 ^ 47 by decide]
  omega

lemma kernelAddress_ge (memoryStack : Word) : 2 ^ 48 ≤ kernelAddress memoryStack := by
  rw [kernelAddress, show memPhysOffset = 2 ^ 64 - 2 ^ 47 by decide]
  omega

/-- Once its stack is mapped, the page below it has a page table, or `vmm_unmap` needs none. -/
def GuardTable (env : Env) (root : Word) (tid : ℕ) (vm : Vm) : Prop :=
  ∀ r, mapStack env root tid vm = some r → ¬ NullTable r.2.mem root (vpn (BitVec.ofNat 64 (stackGuardPage tid)))

lemma userStack_returns (hs : Supplied env.supply) (hfree : root ∉ vm.held) (tid : ℕ) (p : Parameter) (t : Trace) :
    ∃ vm' fault, userStack env root tid p vm t =
      some (p.context (sub (stackBottom tid + 0x4000) (sub (stackBase env.memoryStack)
          (p.stack (stackBase env.memoryStack) (stackBottom tid) (allocStack env.memoryStack t)).1)) env.memoryStack,
            vm',
        (p.stack (stackBase env.memoryStack) (stackBottom tid) (allocStack env.memoryStack t)).2, fault) ∧
      (fault = false ↔ GuardTable env root tid vm) := by
  have hfree' : root ∉ (zeroBlock vm (block env.memoryStack 4)).held := hfree
  obtain ⟨vm1, hmap, new, took⟩ := Vmm.vmmMapAdvanced_returns hs hfree' (BitVec.ofNat 64 (stackBottom tid))
    env.memoryStack 4 0x7
    false
  have hfree1 : root ∉ vm1.held := by
    rw [took.held]
    exact hfree
  have hlock : vm1.lock root = some { vm1 with held := root :: vm1.held } := if_neg hfree1
  obtain ⟨r, hunmap⟩ : ∃ r, vmmUnmap root (BitVec.ofNat 64 (stackGuardPage tid)) 1 vm1 = some r := by
    rw [vmmUnmap, hlock]
    exact ⟨_, rfl⟩
  have hstack : mapStack env root tid vm = some (true, vm1) := hmap
  refine ⟨r.2, _, by rw [userStack, hstack, bind_some, hunmap, map_some], ?_⟩
  rw [GuardTable, hstack]
  simp

section

variable (hs : Supplied env.supply) (hpages : Pages env.memoryStack) (htid : tid < maxThreads) (hguard : tid ≠ 204)
  (hB : Vmm.Built root vm) (hapart : ∀ a ∈ vm.tables root, ¬ (block env.memoryStack 4).Has a)
include hs hpages htid hguard hB hapart

end

end

def oneProcess : System where
  tasks :=
    { threads := fun _ => ⟨1, 0, none⟩
      next := 1
      procs := fun pid => if pid = 1 then some fun tid => if tid = 0 then .thread 0 else .null else none
      active := fun _ => .null
      total := 0
      exec := none }
  contexts := fun _ => ⟨0, 0, 0, 0⟩
  pageTable := fun _ => 0x1000
  vm := Vmm.emptyVm
  kernel := ⟨fun _ => 0, []⟩
  fault := false

def oneEnv : Env := ⟨Vmm.eightPages, 0x200000, 0⟩

/-- `strdup` of a string of the user, if it ends after fewer than `fuel` characters. -/
def readString (u : Mem) : ℕ → ℕ → Option CString
  | 0, _ => none
  | fuel + 1, a =>
    if h : u a = 0 then some ⟨[], not_mem_nil⟩
    else (readString u fuel (a + 1)).map fun s => ⟨u a :: s.1, fun hmem => (mem_cons.mp hmem).elim (h ·.symm) s.2⟩

def readPointers (u : Mem) : ℕ → ℕ → Option (List ℕ)
  | 0, _ => none
  | fuel + 1, a => if load u a 8 = 0 then some [] else (readPointers u fuel (a + 8)).map (load u a 8 :: ·)

def copyList (u : Mem) (fuel a : ℕ) : Option (List CString) :=
  (readPointers u fuel a).bind fun pointers => pointers.mapM (readString u fuel)

structure Arguments where
  path : CString
  argv : List CString
  envp : List CString

def Arguments.bytes (args : Arguments) : ℕ :=
  strBytes args.envp + 8 * (args.envp.length + 1) + (strBytes args.argv + 8 * (args.argv.length + 1))

/-- The checks and the copies of `syscall_execve`; of the lists only their first byte is checked. Rejected
arguments are `some none`, and `none` stands for a list or a string without an end. -/
def execveArguments (fuel : ℕ) (u : Mem) (path argv envp : Word) : Option (Option Arguments) :=
  if syscallPrivilegeCheck path 1 ∨ syscallPrivilegeCheck argv 1 ∨ syscallPrivilegeCheck envp 1 then some none
  else do
    let copyPath ← readString u fuel path.toNat
    let copyNenv ← copyList u fuel envp.toNat
    let copyArgv ← copyList u fuel argv.toNat
    some (some ⟨copyPath, copyArgv, copyNenv⟩)

/-- `syscall_execve`, for a program that `elf_load` has found: it ends in `thread_recreate` of thread 0. -/
def syscallExecve (env : Env) (s : System) (pid : ℕ) (entry : Word) (value : ElfValue) (fuel : ℕ) (u : Mem)
    (path argv envp : Word) : Option (Option ℕ × System) :=
  (execveArguments fuel u path argv envp).bind fun
    | none => some (none, s)
    | some args => threadRecreate env s pid 0 (.exec ⟨entry, args.argv, args.envp, value⟩)

/-- A store lies in the pages of the stack; without memory there are none. -/
def InPages (memoryStack : Word) (w : ℕ × ℕ) : Prop :=
  memoryStack ≠ 0 ∧ kernelAddress memoryStack ≤ w.1 ∧ w.1 + w.2 ≤ kernelAddress memoryStack + 0x4000

section

variable {env : Env} {s : System} {pid : ℕ}

lemma readString_holds {u : Mem} : ∀ {fuel a : ℕ} {s : List Byte} (hs : 0 ∉ s), Holds u a (s ++ [0]) → s.length < fuel →
    readString u fuel a = some ⟨s, hs⟩
  | fuel + 1, a, [], hs, h, _ => by
    have hend : u a = 0 := h 0 (by decide)
    rw [readString, dif_pos hend]
  | fuel + 1, a, b :: s, hs, h, hfuel => by
    have hfirst : u a = b := h 0 (Nat.succ_pos _)
    have hb : u a ≠ 0 := fun hzero => hs (hzero ▸ hfirst ▸ mem_cons_self)
    have hrest : Holds u (a + 1) (s ++ [0]) := fun i hi => by
      rw [Nat.add_assoc, Nat.add_comm 1 i]
      exact h (i + 1) (Nat.succ_lt_succ hi)
    rw [readString, dif_neg hb, readString_holds (fun hmem => hs (mem_cons_of_mem b hmem)) hrest
      (Nat.lt_of_succ_lt_succ hfuel)]
    simp only [map_some, hfirst]

lemma push_store (v : ℕ) (r : ℕ × Trace) : ((push v r).1, 8) ∈ (push v r).2.stores := by
  rw [← length_toBytes8 v]
  exact mem_cons_self

lemma execStack_store (sbase stackBottom : ℕ) (data : ExecData) (t : Trace) :
    ((execStack sbase stackBottom data t).1, 8) ∈ (execStack sbase stackBottom data t).2.stores := push_store _ _

/-- **The stores for a stack** lie between where the stack pointer ends and the end of the pages. -/
lemma execStack_stores (hpages : Pages memoryStack) (bottom : ℕ) (data : ExecData) (t : Trace)
    (hlog : t.stores = []) (hbytes : strBytes data.envp + strBytes data.argv ≤ bottom + 0x4000)
    (hbottom : bottom + 0x4000 < 2 ^ 64) (hsize : stackBytes data.argv data.envp ≤ 2 ^ 48) :
    ∃ sp, sp + stackBytes data.argv data.envp = kernelAddress memoryStack + 0x4000 ∧
      (sp, 8) ∈ (execStack (stackBase memoryStack) bottom data t).2.stores ∧
      ∀ w ∈ (execStack (stackBase memoryStack) bottom data t).2.stores, sp ≤ w.1 ∧
        w.1 + w.2 ≤ kernelAddress memoryStack + 0x4000 := by
  have hlarge := kernelAddress_ge memoryStack
  have hmod := hpages.kernelAddress_mod
  rw [hpages.stackBase]
  obtain ⟨sp, t', hrun, hsp, hwrote, -⟩ := execStack_spec (kernelAddress memoryStack + 0x4000) bottom data t (by omega)
    hpages.kernelAddress_lt (by omega) hbytes hbottom
  have hlast := execStack_store (kernelAddress memoryStack + 0x4000) bottom data t
  rw [hrun] at hlast ⊢
  obtain ⟨new, hnew, hin⟩ := hwrote.stores
  rw [hlog, append_nil] at hnew
  exact ⟨sp, hsp, hlast, fun w hw => hin w (hnew ▸ hw)⟩

lemma allocStack_stores (memoryStack : Word) (t : Trace) : (allocStack memoryStack t).stores = t.stores := by
  rw [allocStack]

lemma System.start_kernel (hs : Supplied env.supply) (hpid : pid ≠ 0) (hfree : s.pageTable pid ∉ s.vm.held)
    (tasks : Tasks)
    (tid t : ℕ) (data : ExecData) : ∃ s', s.start env tasks pid tid t (.exec data) = some (some tid, s') ∧
      s'.kernel = (execStack (stackBase env.memoryStack)
        (stackBottom tid) data (allocStack env.memoryStack s.kernel)).2 := by
  obtain ⟨vm', fault, hstack, -⟩ := userStack_returns hs hfree tid (.exec data) s.kernel
  rw [System.start, if_neg hpid, hstack, map_some]
  exact ⟨_, rfl, rfl⟩

lemma stackBytes_le (args : Arguments) : stackBytes args.argv args.envp ≤ args.bytes + 111 := by
  rw [stackBytes, Arguments.bytes]
  omega

lemma stackTop_zero : stackBottom 0 + 0x4000 = 2 ^ 47 := by decide

lemma syscallExecve_stores (hs : Supplied env.supply) (hpages : Pages env.memoryStack) (hpid : pid ≠ 0)
    (hfree : s.pageTable pid ∉ s.vm.held) (hlog : s.kernel.stores = []) {table : ℕ → Entry} {t : ℕ}
    (htable : s.tasks.procs pid = some table) (hthread : table 0 = .thread t) (entry : Word) (value : ElfValue)
    {fuel : ℕ} {u : Mem}
    {path argv envp : Word} {args : Arguments} (haccepts : execveArguments fuel u path argv envp = some (some args))
    (hmemory : args.bytes ≤ 2 ^ 47) :
    ∃ s' sp, syscallExecve env s pid entry value fuel u path argv envp = some (some 0, s') ∧
      sp + stackBytes args.argv args.envp = kernelAddress env.memoryStack + 0x4000 ∧ (sp, 8) ∈ s'.kernel.stores ∧
      ∀ w ∈ s'.kernel.stores, sp ≤ w.1 ∧ w.1 + w.2 ≤ kernelAddress env.memoryStack + 0x4000 := by
  have hbytes : strBytes args.envp + strBytes args.argv ≤ args.bytes := by
    rw [Arguments.bytes]
    omega
  have hsize : stackBytes args.argv args.envp ≤ 2 ^ 48 :=
    Nat.le_trans (stackBytes_le args) (Nat.le_trans (Nat.add_le_add_right hmemory 111) (by decide))
  rw [syscallExecve, haccepts, bind_some]
  dsimp only
  rw [threadRecreate, htable]
  dsimp only
  rw [hthread]
  obtain ⟨s', hrun, hkernel⟩ := System.start_kernel hs hpid hfree (Scheduler.threadRecreate s.tasks pid 0).2 0 t
    ⟨entry, args.argv, args.envp, value⟩
  obtain ⟨sp, hstores⟩ := execStack_stores hpages (stackBottom 0) ⟨entry, args.argv, args.envp, value⟩
    (allocStack env.memoryStack s.kernel) ((allocStack_stores _ _).trans hlog)
    (stackTop_zero ▸ Nat.le_trans hbytes hmemory) (stackTop_zero ▸ by decide) hsize
  rw [← hkernel] at hstores
  exact ⟨s', sp, hrun, hstores⟩

end

/-- **What `thread_recreate` writes for `syscall_execve`.** For all arguments that are accepted, the stores for the
new stack lie in its pages exactly if `pmm_alloc` found four pages, and the strings and the vector fit into
them. -/
theorem execve_stores_iff (env : Env) (hs : Supplied env.supply) (hpages : Pages env.memoryStack) (s : System) (pid : ℕ)
    (hpid : pid ≠ 0) (hfree : s.pageTable pid ∉ s.vm.held) (hlog : s.kernel.stores = []) {table : ℕ → Entry} {t : ℕ}
    (htable : s.tasks.procs pid = some table) (hthread : table 0 = .thread t) (entry : Word) (value : ElfValue)
    (fuel : ℕ)
    (u : Mem) (path argv envp : Word) (args : Arguments)
    (haccepts : execveArguments fuel u path argv envp = some (some args)) (hmemory : args.bytes ≤ 2 ^ 47) :
    ∃ s', syscallExecve env s pid entry value fuel u path argv envp = some (some 0, s') ∧
      ((∀ w ∈ s'.kernel.stores, InPages env.memoryStack w) ↔
        env.memoryStack ≠ 0 ∧ stackBytes args.argv args.envp ≤ 0x4000) := by
  obtain ⟨s', sp, hrun, hsp, hlast, hin⟩ :=
    syscallExecve_stores hs hpages hpid hfree hlog htable hthread entry value haccepts hmemory
  refine ⟨s', hrun, fun h => ?_, fun ⟨hpos, hfit⟩ w hw => ?_⟩
  · obtain ⟨hpos, hle, -⟩ := h _ hlast
    dsimp only at hle
    exact ⟨hpos, by omega⟩
  · obtain ⟨hlo, hhi⟩ := hin w hw
    exact ⟨hpos, by omega, hhi⟩

def hiMemory : Mem := fun a =>
  if a = 0x1001 then 0x20 else if a = 0x2000 then 0x68 else if a = 0x2001 then 0x69 else if a = 0x7000 then 0x2F else 0

def hiArguments : Arguments := ⟨⟨[0x2F], by decide⟩, [⟨[0x68, 0x69], by decide⟩], []⟩

theorem execve_stores_hi : execveArguments 4 hiMemory 0x7000 0x1000 0x1100 = some (some hiArguments) ∧
    ∃ s', syscallExecve oneEnv oneProcess 1 0x401000 ⟨0x400040, 56, 9, 0x401000⟩ 4 hiMemory 0x7000 0x1000 0x1100 =
      some (some 0, s') ∧ ((∀ w ∈ s'.kernel.stores, InPages 0x200000 w) ↔
        (0x200000 : Word) ≠ 0 ∧ stackBytes hiArguments.argv hiArguments.envp ≤ 0x4000) := by
  have haccepts : execveArguments 4 hiMemory 0x7000 0x1000 0x1100 = some (some hiArguments) := by rfl
  exact ⟨haccepts, execve_stores_iff oneEnv Vmm.eightPages_supplied (by unfold Pages; decide) oneProcess 1 (by decide)
    (by decide) rfl
    rfl rfl 0x401000 ⟨0x400040, 56, 9, 0x401000⟩ 4 hiMemory 0x7000 0x1000 0x1100 hiArguments haccepts (by decide)⟩

def longMemory : Mem := fun a =>
  if a = 0x1001 then 0x20 else if 0x2000 ≤ a ∧ a < 0x6000 then 0x61 else if a = 0x7000 then 0x2F else 0

def longString : CString := ⟨List.replicate 0x4000 0x61, fun h => absurd (eq_of_mem_replicate h) (by decide)⟩

def longArguments : Arguments := ⟨⟨[0x2F], by decide⟩, [longString], []⟩

lemma longMemory_holds : Holds longMemory 0x2000 (List.replicate 0x4000 0x61 ++ [0]) := by
  refine Holds.append (fun i hi => ?_) (fun i hi => ?_)
  · rw [length_replicate] at hi
    rw [getElem_replicate, longMemory, if_neg (by omega), if_pos (by omega)]
  · rw [length_singleton, Nat.lt_one_iff] at hi
    subst hi
    rw [length_replicate]
    rfl

lemma longString_size : longString.size = 0x4001 := by
  have hlength : longString.1.length = 0x4000 := length_replicate
  rw [CString.size, hlength]

lemma longMemory_accepted : execveArguments 0x5000 longMemory 0x7000 0x1000 0x1100 = some (some longArguments) := by
  have hpath : readString longMemory 0x5000 0x7000 = some ⟨[0x2F], by decide⟩ := by rfl
  have henvp : copyList longMemory 0x5000 0x1100 = some [] := by rfl
  have hpointers : readPointers longMemory 0x5000 0x1000 = some [0x2000] := by rfl
  have hlength : (List.replicate 0x4000 (0x61 : Byte)).length < 0x5000 := by
    rw [length_replicate]
    decide
  have hargument : readString longMemory 0x5000 0x2000 = some longString :=
    readString_holds longString.2 longMemory_holds hlength
  have hargv : copyList longMemory 0x5000 0x1000 = some [longString] := by
    rw [copyList, hpointers, bind_some, mapM_cons, hargument]
    rfl
  rw [execveArguments, if_neg (by decide)]
  show (readString longMemory 0x5000 0x7000).bind _ = _
  rw [hpath, bind_some]
  show (copyList longMemory 0x5000 0x1100).bind _ = _
  rw [henvp, bind_some]
  show (copyList longMemory 0x5000 0x1000).bind _ = _
  rw [hargv]
  rfl

/-- With an argument of 16 KiB, `thread_recreate` stores below the pages of the stack. -/
theorem execve_stores_below : execveArguments 0x5000 longMemory 0x7000 0x1000 0x1100 = some (some longArguments) ∧
    ∃ s', syscallExecve oneEnv oneProcess 1 0x401000 ⟨0x400040, 56, 9, 0x401000⟩ 0x5000 longMemory 0x7000 0x1000
      0x1100 =
      some (some 0, s') ∧ ∃ w ∈ s'.kernel.stores, ¬ InPages 0x200000 w := by
  have hargv : longArguments.argv = [longString] := rfl
  have hsize : strBytes [longString] = 0x4001 := by
    rw [strBytes_cons, longString_size]
    rfl
  have hpages : Pages 0x200000 := by
    unfold Pages
    decide
  have hmemory : longArguments.bytes ≤ 2 ^ 47 := by
    rw [Arguments.bytes, hargv, hsize]
    decide
  have hstack : stackBytes longArguments.argv longArguments.envp = 0x4080 := by
    rw [hargv, stackBytes, hsize]
    rfl
  obtain ⟨s', sp, hrun, hsp, hlast, -⟩ := @syscallExecve_stores oneEnv oneProcess 1 Vmm.eightPages_supplied hpages
    (by decide) (by decide) rfl _ 0 rfl rfl 0x401000 ⟨0x400040, 56, 9, 0x401000⟩ _ _ _ _ _ _ longMemory_accepted hmemory
  refine ⟨longMemory_accepted, s', hrun, _, hlast, fun hin => ?_⟩
  have hle : kernelAddress 0x200000 ≤ sp := hin.2.1
  rw [hstack] at hsp
  have hsp : sp + 0x4080 = kernelAddress 0x200000 + 0x4000 := hsp
  generalize kernelAddress 0x200000 = base at hle hsp
  omega

end WivOS.ThreadStack
