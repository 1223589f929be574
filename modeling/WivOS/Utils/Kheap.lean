/-
# Runs of the kernel heap

`kmalloc`, `kfree`, `krealloc` and `kcalloc` of `kernel/utils/kmalloc.c`, in memory: the header of a block is in the
page before it. The page allocator is taken as it should be; its answer to a request is part of the call, and so is
what the owner of a block writes into it. A block's header says how many pages it has, so that `kfree` returns the pages
that the block was given (`Sound`).
-/
import WivOS.Lib.ByteMem
import WivOS.Lib.Machine
import WivOS.Mem.Pmm
import WivOS.Utils.Memory

namespace WivOS.Kheap

open ByteMem Function List Option Machine
open Utils (roundUp)

/-- The memory, by kernel address, and the blocks that the page allocator has given out: the
physical address of each and the number of its pages. -/
structure Heap where
  mem : Mem
  out : List (ℕ × ℕ)

namespace Heap

variable (h : Heap)

def grant (base count : ℕ) : Heap :=
  ⟨write h.mem (base + memPhysOffset) (List.replicate (count * 0x1000) 0), (base, count) :: h.out⟩

def pmmFree (base count : ℕ) : Option Heap :=
  if (base, count) ∈ h.out then some { h with out := h.out.filter (· ≠ (base, count)) } else none

def pages (addr : ℕ) : ℕ := load h.mem (addr - 0x1000) 8

def size (addr : ℕ) : ℕ := load h.mem (addr - 0x1000 + 8) 8

def setSize (addr size : ℕ) : Heap := { h with mem := store h.mem (addr - 0x1000 + 8) 8 size }

def pageCount (size : ℕ) : ℕ := if size % 0x1000 ≠ 0 then size / 0x1000 + 1 else size / 0x1000

def kmalloc (answer : Option ℕ) (size : ℕ) : Option ℕ × Heap :=
  match answer with
  | none => (none, h)
  | some base =>
    let retAddr := base + memPhysOffset
    let h := h.grant base (pageCount size + 1)
    let h := { h with mem := store h.mem retAddr 8 (pageCount size) }
    (some (retAddr + 0x1000), h.setSize (retAddr + 0x1000) size)

def kfree (addr : ℕ) : Option Heap := h.pmmFree (addr - 0x1000 - memPhysOffset) (h.pages addr + 1)

def krealloc (answer : Option ℕ) (addr : Option ℕ) (size : ℕ) : Option (Option ℕ × Heap) :=
  match addr with
  | none => some (h.kmalloc answer size)
  | some addr =>
    if size = 0 then (h.kfree addr).map fun h => (none, h)
    else if roundUp (h.size addr) 0x1000 = roundUp size 0x1000 then some (some addr, h.setSize addr size)
    else match h.kmalloc answer size with
      | (none, h) => some (none, h)
      | (some newAddr, h) =>
        let n := if h.size addr > size then size else h.size addr
        (Heap.kfree { h with mem := copy h.mem newAddr addr n } addr).map fun h => (some newAddr, h)

def kcalloc (answer : Option ℕ) (num nsize : ℕ) : Option ℕ × Heap :=
  if num = 0 ∨ nsize = 0 then (none, h)
  else
    let size := num * nsize % 2 ^ 64
    if nsize ≠ size / num then (none, h)
    else match h.kmalloc answer size with
      | (none, h) => (none, h)
      | (some addr, h) => (some addr, { h with mem := fill h.mem addr 0 size })

end Heap

/-! ### Calls -/

inductive Call where
  | kmalloc (size : ℕ) (answer : Option ℕ)
  | kcalloc (num nsize : ℕ) (answer : Option ℕ)
  | krealloc (addr : Option ℕ) (size : ℕ) (answer : Option ℕ)
  | kfree (addr : ℕ)
  | write (addr i : ℕ) (b : BitVec 8)

structure State where
  heap : Heap
  live : List ℕ

def State.after (s : State) (freed r : Option ℕ) (heap : Heap) : State :=
  ⟨heap, r.toList ++ s.live.filter fun p => some p ≠ freed⟩

def exec (s : State) : Call → Option (Option ℕ × State)
  | .kmalloc size answer =>
    let r := s.heap.kmalloc answer size
    some (r.1, s.after none r.1 r.2)
  | .kcalloc num nsize answer =>
    let r := s.heap.kcalloc answer num nsize
    some (r.1, s.after none r.1 r.2)
  | .krealloc addr size answer => (s.heap.krealloc answer addr size).map fun r =>
      -- the old pointer is gone unless nothing was done
      (r.1, s.after (if size ≠ 0 ∧ r.1 = none then none else addr) r.1 r.2)
  | .kfree addr => (s.heap.kfree addr).map fun heap => (none, s.after (some addr) none heap)
  | .write addr i b => some (none, { s with heap := { s.heap with mem := update s.heap.mem (addr + i) b } })

def step (s : State) (call : Call) : Option State := (exec s call).map Prod.snd

def Apart (x y : ℕ × ℕ) : Prop := x.1 + x.2 * 0x1000 ≤ y.1 ∨ y.1 + y.2 * 0x1000 ≤ x.1

instance (x y : ℕ × ℕ) : Decidable (Apart x y) := inferInstanceAs (Decidable (_ ∨ _))

/-- The page allocator answers with pages apart from all that it has given out. -/
def Grants (heap : Heap) (size : ℕ) (answer : Option ℕ) : Prop :=
  ∀ base ∈ answer, ∀ x ∈ heap.out, Apart (base, Heap.pageCount size + 1) x

instance (heap : Heap) (size : ℕ) (answer : Option ℕ) : Decidable (Grants heap size answer) :=
  inferInstanceAs (Decidable (∀ base ∈ answer, ∀ x ∈ heap.out, Apart (base, Heap.pageCount size + 1) x))

/-- Live pointers only, and sizes that a `size_t` and a rounding up leave room for. -/
def Legal (s : State) : Call → Prop
  | .kmalloc size answer => size ≤ 2 ^ 64 - 2 ^ 13 ∧ Grants s.heap size answer
  | .kcalloc num nsize answer => num < 2 ^ 64 ∧ nsize < 2 ^ 64 ∧ Grants s.heap (num * nsize % 2 ^ 64) answer
  | .krealloc addr size answer => (∀ p ∈ addr, p ∈ s.live) ∧ size ≤ 2 ^ 64 - 2 ^ 13 ∧ Grants s.heap size answer
  | .kfree addr => addr ∈ s.live
  | .write addr i _ => addr ∈ s.live ∧ i < s.heap.size addr

instance (s : State) : ∀ call, Decidable (Legal s call)
  | .kmalloc size answer => inferInstanceAs (Decidable (size ≤ 2 ^ 64 - 2 ^ 13 ∧ Grants s.heap size answer))
  | .kcalloc num nsize answer =>
    inferInstanceAs (Decidable (num < 2 ^ 64 ∧ nsize < 2 ^ 64 ∧ Grants s.heap (num * nsize % 2 ^ 64) answer))
  | .krealloc addr size answer =>
    inferInstanceAs (Decidable ((∀ p ∈ addr, p ∈ s.live) ∧ size ≤ 2 ^ 64 - 2 ^ 13 ∧ Grants s.heap size answer))
  | .kfree addr => inferInstanceAs (Decidable (addr ∈ s.live))
  | .write addr i _ => inferInstanceAs (Decidable (addr ∈ s.live ∧ i < s.heap.size addr))

/-! ### What the calls should do -/

structure SameBlock (h h' : Heap) (p : ℕ) : Prop where
  pages : h'.pages p = h.pages p
  size : h'.size p = h.size p
  bytes : read h'.mem p (h.pages p * 0x1000) = read h.mem p (h.pages p * 0x1000)

/-- The live blocks lie apart, their headers are right, and `kfree` will return the pages that
they were given. -/
structure Sound (s : State) : Prop where
  disjoint : ∀ p ∈ s.live, ∀ q ∈ s.live, p ≠ q →
    p + s.heap.pages p * 0x1000 ≤ q - 0x1000 ∨ q + s.heap.pages q * 0x1000 ≤ p - 0x1000
  header : ∀ p ∈ s.live, s.heap.pages p = (s.heap.size p + 0xFFF) / 0x1000
  given : ∀ p ∈ s.live, (p - 0x1000 - memPhysOffset, s.heap.pages p + 1) ∈ s.heap.out

structure Allocates (s : State) (r : Option ℕ) (s' : State) (size : ℕ) (answer : Option ℕ) : Prop where
  failed : answer = none → r = none ∧ s' = s
  found : ∀ base, answer = some base → ∃ p, r = some p ∧ p ∉ s.live ∧ s'.live = p :: s.live ∧ s'.heap.size p = size ∧
    s'.heap.out = (base, s'.heap.pages p + 1) :: s.heap.out

/-- The block goes, and the pages that it was given go back. -/
structure Frees (s s' : State) (p : ℕ) : Prop where
  mem : s'.heap.mem = s.heap.mem
  out : s'.heap.out = s.heap.out.filter (· ≠ (p - 0x1000 - memPhysOffset, s.heap.pages p + 1))
  live : s'.live = s.live.filter (· ≠ p)

/-- A block of another size: its first bytes stay, and without memory all does. -/
structure Resizes (s : State) (r : Option ℕ) (s' : State) (p size : ℕ) (answer : Option ℕ) : Prop where
  failed : r = none → s' = s ∧ answer = none
  found : ∀ q, r = some q → s'.live = q :: s.live.filter (· ≠ p) ∧ s'.heap.size q = size ∧
    read s'.heap.mem q (min (s.heap.size p) size) = read s.heap.mem p (min (s.heap.size p) size)

/-- What a call that returned `r` did. -/
def Effect (s : State) (r : Option ℕ) (s' : State) : Call → Prop
  | .kmalloc size answer => Allocates s r s' size answer
  | .kcalloc num nsize answer =>
    (2 ^ 64 ≤ num * nsize ∨ num * nsize = 0 → r = none ∧ s' = s) ∧
      (num * nsize < 2 ^ 64 → num * nsize ≠ 0 → Allocates s r s' (num * nsize) answer ∧
        ∀ p, r = some p → read s'.heap.mem p (num * nsize) = List.replicate (num * nsize) 0)
  | .krealloc none size answer => Allocates s r s' size answer
  | .krealloc (some p) size answer => (size = 0 → r = none ∧ Frees s s' p) ∧ (size ≠ 0 → Resizes s r s' p size answer)
  | .kfree p => Frees s s' p
  | .write .. => s'.live = s.live ∧ s'.heap.out = s.heap.out

def Call.target : Call → Option ℕ
  | .krealloc addr _ _ => addr
  | .kfree addr => some addr
  | .write addr _ _ => some addr
  | _ => none

/-! ### The invariant -/

def ptr (x : ℕ × ℕ) : ℕ := x.1 + memPhysOffset + 0x1000

structure Inv (s : State) : Prop where
  live : ∀ p, p ∈ s.live ↔ ∃ x ∈ s.heap.out, ptr x = p
  pages : ∀ x ∈ s.heap.out, s.heap.pages (ptr x) + 1 = x.2
  header : ∀ x ∈ s.heap.out, s.heap.pages (ptr x) = (s.heap.size (ptr x) + 0xFFF) / 0x1000
  apart : ∀ x ∈ s.heap.out, ∀ y ∈ s.heap.out, x ≠ y → Apart x y

def Kept (h h' : Heap) (x : ℕ × ℕ) : Prop :=
  ∀ a, x.1 + memPhysOffset ≤ a → a < x.1 + memPhysOffset + x.2 * 0x1000 → h'.mem a = h.mem a

variable {base num nsize : ℕ} {answer : Option ℕ}

section

variable {h h' : Heap} {s : State} {x y : ℕ × ℕ} {n : ℕ}

lemma pageCount_eq (n : ℕ) : Heap.pageCount n = (n + 0xFFF) / 0x1000 := by
  rw [Heap.pageCount]
  split <;> omega

lemma ptr_sub (x : ℕ × ℕ) : ptr x - 0x1000 = x.1 + memPhysOffset := Nat.add_sub_cancel ..

lemma pages_ptr (h : Heap) (x : ℕ × ℕ) : h.pages (ptr x) = load h.mem (x.1 + memPhysOffset) 8 := by
  rw [Heap.pages, ptr_sub]

lemma size_ptr (h : Heap) (x : ℕ × ℕ) : h.size (ptr x) = load h.mem (x.1 + memPhysOffset + 8) 8 := by
  rw [Heap.size, ptr_sub]

lemma Kept.pages (hk : Kept h h' x) (hx : 1 ≤ x.2) : h'.pages (ptr x) = h.pages (ptr x) := by
  rw [pages_ptr, pages_ptr]
  exact load_congr fun i hi => hk _ (by omega) (by omega)

lemma Kept.size (hk : Kept h h' x) (hx : 1 ≤ x.2) : h'.size (ptr x) = h.size (ptr x) := by
  rw [size_ptr, size_ptr]
  exact load_congr fun i hi => hk _ (by omega) (by omega)

lemma Kept.same (hk : Kept h h' x) (hx : h.pages (ptr x) + 1 = x.2) : SameBlock h h' (ptr x) := by
  refine ⟨hk.pages (by omega), hk.size (by omega), read_congr fun i hi => hk _ ?_ ?_⟩
  · rw [ptr]
    omega
  · rw [ptr]
    omega

lemma kept_of_apart (hxy : Apart x y) (hmem : ∀ a, a < x.1 + memPhysOffset ∨ x.1 + memPhysOffset + x.2 * 0x1000 ≤ a →
    h'.mem a = h.mem a) : Kept h h' y := by
  intro a ha ha'
  refine hmem a ?_
  rcases hxy with hxy | hxy
  · right
    omega
  · left
    omega

lemma Inv.one_le (hs : Inv s) (hx : x ∈ s.heap.out) : 1 ≤ x.2 := by
  have := hs.pages x hx
  omega

lemma Inv.ptr_inj (hs : Inv s) (hx : x ∈ s.heap.out) (hy : y ∈ s.heap.out) (heq : ptr x = ptr y) : x = y := by
  by_contra hne
  have hx1 := hs.one_le hx
  have hy1 := hs.one_le hy
  simp only [ptr] at heq
  rcases hs.apart x hx y hy hne with h | h
  · omega
  · omega

lemma Inv.sound (hs : Inv s) : Sound s := by
  refine ⟨fun p hp q hq hne => ?_, fun p hp => ?_, fun p hp => ?_⟩
  · obtain ⟨x, hx, rfl⟩ := (hs.live p).mp hp
    obtain ⟨y, hy, rfl⟩ := (hs.live q).mp hq
    have hxp := hs.pages x hx
    have hyp := hs.pages y hy
    have hxy := hs.apart x hx y hy fun he => hne (congrArg ptr he)
    rw [ptr_sub, ptr_sub, ptr, ptr]
    rw [ptr] at hxp hyp
    rcases hxy with hxy | hxy
    · left
      omega
    · right
      omega
  · obtain ⟨x, hx, rfl⟩ := (hs.live p).mp hp
    exact hs.header x hx
  · obtain ⟨x, hx, rfl⟩ := (hs.live p).mp hp
    rw [hs.pages x hx, ptr_sub, Nat.add_sub_cancel]
    exact hx

/-! ### A new block -/

structure New (h h' : Heap) (base n : ℕ) : Prop where
  out : h'.out = (base, Heap.pageCount n + 1) :: h.out
  pages : h'.pages (ptr (base, Heap.pageCount n + 1)) = Heap.pageCount n
  size : h'.size (ptr (base, Heap.pageCount n + 1)) = n
  mem : ∀ a, a < base + memPhysOffset ∨ base + memPhysOffset + (Heap.pageCount n + 1) * 0x1000 ≤ a → h'.mem a = h.mem a

lemma New.congr {h'' : Heap} (hn : New h h' base n) (hout : h''.out = h'.out)
    (hmem : ∀ a, a < base + memPhysOffset + 0x1000 ∨ base + memPhysOffset + (Heap.pageCount n + 1) * 0x1000 ≤ a →
      h''.mem a = h'.mem a) :
    New h h'' base n := by
  refine ⟨hout.trans hn.out, ?_, ?_, fun a ha => (hmem a (by omega)).trans (hn.mem a ha)⟩
  · rw [← hn.pages, pages_ptr, pages_ptr]
    exact load_congr fun i hi => hmem _ (by dsimp only; omega)
  · refine Eq.trans ?_ hn.size
    rw [size_ptr, size_ptr]
    exact load_congr fun i hi => hmem _ (by dsimp only; omega)

lemma kmalloc_new (h : Heap) (base : ℕ) (hn : n < 2 ^ 64) :
    ∃ h', h.kmalloc (some base) n = (some (ptr (base, Heap.pageCount n + 1)), h') ∧ New h h' base n := by
  let mem := (h.grant base (Heap.pageCount n + 1)).mem
  have hpages : Heap.pageCount n < 256 ^ 8 := by
    rw [pageCount_eq]
    omega
  refine ⟨⟨store (store mem (base + memPhysOffset) 8 (Heap.pageCount n)) (base + memPhysOffset + 8) 8 n,
    (base, Heap.pageCount n + 1) :: h.out⟩, ?_, rfl, ?_, ?_, fun a ha => ?_⟩
  · simp only [Heap.kmalloc, Heap.setSize, Nat.add_sub_cancel]
    rfl
  · rw [pages_ptr]
    refine Eq.trans (load_congr fun i hi => ?_) (@load_store mem (base + memPhysOffset) 8 _ hpages)
    exact store_outside (by omega)
  · rw [size_ptr]
    exact load_store (by omega)
  · dsimp only
    rw [store_outside (by omega), store_outside (by omega)]
    exact write_outside (by rw [length_replicate]; exact ha)

lemma Inv.add (hs : Inv s) (hn : New s.heap h' base n)
    (hgrants : ∀ x ∈ s.heap.out, Apart (base, Heap.pageCount n + 1) x) :
    Inv ⟨h', ptr (base, Heap.pageCount n + 1) :: s.live⟩ ∧ ∀ x ∈ s.heap.out, Kept s.heap h' x := by
  have hkept : ∀ x ∈ s.heap.out, Kept s.heap h' x := fun x hx => kept_of_apart (hgrants x hx) hn.mem
  refine ⟨⟨fun p => ?_, fun x hx => ?_, fun x hx => ?_, fun x hx y hy hne => ?_⟩, hkept⟩
  · rw [hn.out, mem_cons, hs.live p]
    simp only [mem_cons, exists_eq_or_imp, eq_comm]
  · rw [hn.out] at hx
    rcases mem_cons.mp hx with rfl | hx
    · rw [hn.pages]
    · rw [(hkept x hx).pages (hs.one_le hx), hs.pages x hx]
  · rw [hn.out] at hx
    rcases mem_cons.mp hx with rfl | hx
    · rw [hn.pages, hn.size, pageCount_eq]
    · rw [(hkept x hx).pages (hs.one_le hx), (hkept x hx).size (hs.one_le hx), hs.header x hx]
  · rw [hn.out] at hx hy
    rcases mem_cons.mp hx with rfl | hx
    · rcases mem_cons.mp hy with rfl | hy
      · exact absurd rfl hne
      · exact hgrants y hy
    · rcases mem_cons.mp hy with rfl | hy
      · exact (hgrants x hx).symm
      · exact hs.apart x hx y hy hne

lemma Inv.not_mem_live (hs : Inv s) (hgrants : ∀ x ∈ s.heap.out, Apart (base, Heap.pageCount n + 1) x) :
    ptr (base, Heap.pageCount n + 1) ∉ s.live := by
  intro hmem
  obtain ⟨x, hx, heq⟩ := (hs.live _).mp hmem
  have hx1 := hs.one_le hx
  simp only [ptr] at heq
  rcases hgrants x hx with h | h
  · simp only at h
    omega
  · simp only at h
    omega

/-! ### A block goes -/

lemma Inv.kfree (hs : Inv s) (hx : x ∈ s.heap.out) :
    ∃ h', s.heap.kfree (ptr x) = some h' ∧ Frees s ⟨h', s.live.filter (· ≠ ptr x)⟩ (ptr x) ∧
      Inv ⟨h', s.live.filter (· ≠ ptr x)⟩ := by
  have hblock : (ptr x - 0x1000 - memPhysOffset, s.heap.pages (ptr x) + 1) = x := by
    rw [hs.pages x hx, ptr_sub, Nat.add_sub_cancel]
  have hfree : s.heap.kfree (ptr x) = some { s.heap with out := s.heap.out.filter (· ≠ x) } := by
    rw [Heap.kfree, Heap.pmmFree, hblock, if_pos hx]
  have hmem : ∀ y, y ∈ s.heap.out.filter (· ≠ x) ↔ y ∈ s.heap.out ∧ y ≠ x := fun y => by
    rw [mem_filter, decide_eq_true_eq]
  refine ⟨_, hfree, ⟨rfl, by rw [hblock], rfl⟩, ⟨fun p => ?_, fun y hy => hs.pages y ((hmem y).mp hy).1,
    fun y hy => hs.header y ((hmem y).mp hy).1,
    fun y hy z hz => hs.apart y ((hmem y).mp hy).1 z ((hmem z).mp hz).1⟩⟩
  rw [mem_filter, decide_eq_true_eq, hs.live p]
  constructor
  · rintro ⟨⟨y, hy, rfl⟩, hne⟩
    exact ⟨y, (hmem y).mpr ⟨hy, fun he => hne (congrArg ptr he)⟩, rfl⟩
  · rintro ⟨y, hy, rfl⟩
    obtain ⟨hy, hne⟩ := (hmem y).mp hy
    exact ⟨⟨y, hy, rfl⟩, fun he => hne (hs.ptr_inj hy hx he)⟩

/-! ### One call -/

def Performs (s : State) (call : Call) : Prop :=
  ∃ r s', exec s call = some (r, s') ∧ Inv s' ∧ Effect s r s' call ∧
    ∀ q ∈ s.live, some q ≠ call.target → q ∈ s'.live ∧ SameBlock s.heap s'.heap q

lemma after_none (s : State) (r : Option ℕ) (heap : Heap) : s.after none r heap = ⟨heap, r.toList ++ s.live⟩ := by
  rw [State.after, filter_eq_self.mpr fun p _ => by simp]

lemma after_some (s : State) (p : ℕ) (r : Option ℕ) (heap : Heap) :
    s.after (some p) r heap = ⟨heap, r.toList ++ s.live.filter (· ≠ p)⟩ := by
  simp only [State.after, ne_eq, some.injEq]

lemma Inv.same (hs : Inv s) (hx : x ∈ s.heap.out) (hk : Kept s.heap h' x) : SameBlock s.heap h' (ptr x) :=
  hk.same (hs.pages x hx)

lemma Inv.others (hs : Inv s) (hkept : ∀ x ∈ s.heap.out, Kept s.heap h' x) : ∀ q ∈ s.live, SameBlock s.heap h' q := by
  intro q hq
  obtain ⟨x, hx, rfl⟩ := (hs.live q).mp hq
  exact hs.same hx (hkept x hx)

lemma sameBlock_refl (h : Heap) (p : ℕ) : SameBlock h h p := ⟨rfl, rfl, rfl⟩

lemma Inv.allocates (hs : Inv s) (hn : New s.heap h' base n)
    (hgrants : ∀ x ∈ s.heap.out, Apart (base, Heap.pageCount n + 1) x) :
    Allocates s (some (ptr (base, Heap.pageCount n + 1)))
      ⟨h', ptr (base, Heap.pageCount n + 1) :: s.live⟩ n (some base) := by
  refine ⟨nofun, fun base' hbase => ?_⟩
  obtain rfl := some.inj hbase
  exact ⟨_, rfl, hs.not_mem_live hgrants, rfl, hn.size, by rw [hn.pages, hn.out]⟩

lemma allocates_none (s : State) (n : ℕ) : Allocates s none s n none := ⟨fun _ => ⟨rfl, rfl⟩, nofun⟩

lemma Inv.kmalloc (hs : Inv s) (hn : n < 2 ^ 64) (hgrants : Grants s.heap n answer) :
    ∃ r h', s.heap.kmalloc answer n = (r, h') ∧ Inv (s.after none r h') ∧ Allocates s r (s.after none r h') n answer ∧
      ∀ q ∈ s.live, q ∈ (s.after none r h').live ∧ SameBlock s.heap h' q := by
  cases answer with
  | none =>
    refine ⟨none, s.heap, rfl, ?_⟩
    rw [after_none]
    exact ⟨hs, allocates_none s n, fun q hq => ⟨hq, sameBlock_refl ..⟩⟩
  | some base =>
    obtain ⟨h', hmalloc, hnew⟩ := kmalloc_new s.heap base hn
    obtain ⟨hs', hkept⟩ := hs.add hnew (hgrants base rfl)
    refine ⟨_, h', hmalloc, ?_⟩
    rw [after_none]
    exact ⟨hs', hs.allocates hnew (hgrants base rfl), fun q hq => ⟨mem_cons_of_mem _ hq, hs.others hkept q hq⟩⟩

lemma Inv.performs_kmalloc (hs : Inv s) (hn : n < 2 ^ 64) (hgrants : Grants s.heap n answer) :
    Performs s (.kmalloc n answer) := by
  obtain ⟨r, h', hmalloc, hs', heffect, hothers⟩ := hs.kmalloc hn hgrants
  exact ⟨r, _, by rw [exec, hmalloc], hs', heffect, fun q hq _ => hothers q hq⟩

lemma kcalloc_check (hnum : num ≠ 0) : nsize = num * nsize % 2 ^ 64 / num ↔ num * nsize < 2 ^ 64 := by
  constructor
  · intro h
    by_contra hge
    have hlt : num * nsize % 2 ^ 64 < num * nsize :=
      Nat.lt_of_lt_of_le (Nat.mod_lt _ (by decide)) (Nat.le_of_not_lt hge)
    have hquot : num * nsize % 2 ^ 64 / num < nsize := Nat.div_lt_of_lt_mul hlt
    omega
  · intro h
    rw [Nat.mod_eq_of_lt h, Nat.mul_div_cancel_left _ (Nat.pos_of_ne_zero hnum)]

lemma kcalloc_fails (h : Heap) (answer : Option ℕ) (hfails : 2 ^ 64 ≤ num * nsize ∨ num * nsize = 0) :
    h.kcalloc answer num nsize = (none, h) := by
  rw [Heap.kcalloc]
  by_cases hzero : num = 0 ∨ nsize = 0
  · rw [if_pos hzero]
  · have hne : num * nsize ≠ 0 := Nat.mul_ne_zero (not_or.mp hzero).1 (not_or.mp hzero).2
    rw [if_neg hzero]
    dsimp only
    rw [if_pos fun hq => ?_]
    have hlt := (kcalloc_check (not_or.mp hzero).1).mp hq
    omega

lemma kcalloc_fits (h : Heap) (answer : Option ℕ) (hfits : num * nsize < 2 ^ 64) (hne : num * nsize ≠ 0) :
    h.kcalloc answer num nsize = match h.kmalloc answer (num * nsize) with
      | (none, h) => (none, h)
      | (some addr, h) => (some addr, { h with mem := fill h.mem addr 0 (num * nsize) }) := by
  have hzero : ¬ (num = 0 ∨ nsize = 0) := fun h => hne (Nat.mul_eq_zero.mpr h)
  rw [Heap.kcalloc, if_neg hzero]
  dsimp only
  rw [if_neg (not_not.mpr ((kcalloc_check (not_or.mp hzero).1).mpr hfits)), Nat.mod_eq_of_lt hfits]

lemma New.filled (hn : New h h' base n) :
    New h { h' with mem := fill h'.mem (ptr (base, Heap.pageCount n + 1)) 0 n } base n ∧
      read (fill h'.mem (ptr (base, Heap.pageCount n + 1)) 0 n)
        (ptr (base, Heap.pageCount n + 1)) n = List.replicate n 0 := by
  have hceil := pageCount_eq n
  have hlen : (List.replicate n (0 : BitVec 8)).length = n := length_replicate
  have hread := @read_write h'.mem (ptr (base, Heap.pageCount n + 1)) (List.replicate n 0)
  rw [hlen] at hread
  rw [fill_eq]
  refine ⟨hn.congr rfl fun a ha => write_outside ?_, hread⟩
  rw [hlen, ptr]
  dsimp only
  omega

lemma Inv.performs_kcalloc (hs : Inv s) (hgrants : Grants s.heap (num * nsize % 2 ^ 64) answer) :
    Performs s (.kcalloc num nsize answer) := by
  by_cases hfails : 2 ^ 64 ≤ num * nsize ∨ num * nsize = 0
  · refine ⟨none, s, ?_, hs, ⟨fun _ => ⟨rfl, rfl⟩, fun hlt hne => ?_⟩, fun q hq _ => ⟨hq, sameBlock_refl ..⟩⟩
    · rw [exec, kcalloc_fails s.heap answer hfails]
      dsimp only
      rw [after_none]
      rfl
    · omega
  · rw [not_or] at hfails
    have hfits : num * nsize < 2 ^ 64 := Nat.lt_of_not_le hfails.1
    have hcalloc := kcalloc_fits s.heap answer hfits hfails.2
    rw [Nat.mod_eq_of_lt hfits] at hgrants
    cases answer with
    | none =>
      refine ⟨none, s, ?_, hs, ⟨fun _ => ⟨rfl, rfl⟩, fun _ _ => ⟨allocates_none s _, nofun⟩⟩,
        fun q hq _ => ⟨hq, sameBlock_refl ..⟩⟩
      rw [exec, hcalloc]
      dsimp only [Heap.kmalloc]
      rw [after_none]
      rfl
    | some base =>
      obtain ⟨h', hmalloc, hnew⟩ := kmalloc_new s.heap base hfits
      obtain ⟨hnew', hzero⟩ := hnew.filled
      obtain ⟨hs', hkept⟩ := hs.add hnew' (hgrants base rfl)
      refine ⟨_, _, ?_, hs', ⟨fun h => by omega, fun _ _ => ⟨hs.allocates hnew' (hgrants base rfl), fun p hp => ?_⟩⟩,
        fun q hq _ => ⟨mem_cons_of_mem _ hq, hs.others hkept q hq⟩⟩
      · rw [exec, hcalloc, hmalloc]
        dsimp only
        rw [after_none]
        rfl
      · obtain rfl := some.inj hp
        exact hzero

lemma Inv.performs_kfree (hs : Inv s) {p : ℕ} (hp : p ∈ s.live) : Performs s (.kfree p) := by
  obtain ⟨x, hx, rfl⟩ := (hs.live p).mp hp
  obtain ⟨h', hfree, hfrees, hs'⟩ := hs.kfree hx
  refine ⟨none, _, ?_, hs', hfrees, fun q hq hne => ⟨?_, ?_⟩⟩
  · rw [exec, hfree, map_some, after_some]
    rfl
  · exact mem_filter.mpr ⟨hq, decide_eq_true fun he => hne (congrArg some he)⟩
  · have hmem := hfrees.mem
    dsimp only at hmem
    exact ⟨by rw [Heap.pages, Heap.pages, hmem], by rw [Heap.size, Heap.size, hmem], by rw [hmem]⟩

/-! ### Resizing -/

lemma ceil_eq_of_roundUp {old new : ℕ} (hold : old < 2 ^ 64) (hpos : new ≠ 0) (hnew : new ≤ 2 ^ 64 - 2 ^ 13)
    (h : roundUp old 0x1000 = roundUp new 0x1000) : (old + 0xFFF) / 0x1000 = (new + 0xFFF) / 0x1000 := by
  simp only [roundUp] at h
  omega

lemma size_lt (h : Heap) (p : ℕ) : h.size p < 2 ^ 64 := load_lt

lemma setSize_kept (h : Heap) (x : ℕ × ℕ) (hn : n < 2 ^ 64) :
    (h.setSize (ptr x) n).pages (ptr x) = h.pages (ptr x) ∧ (h.setSize (ptr x) n).size (ptr x) = n ∧
      ∀ a, a < x.1 + memPhysOffset ∨ x.1 + memPhysOffset + 0x1000 ≤ a → (h.setSize (ptr x) n).mem a = h.mem a := by
  have hmem : (h.setSize (ptr x) n).mem = store h.mem (x.1 + memPhysOffset + 8) 8 n := by
    rw [Heap.setSize, ptr_sub]
  refine ⟨?_, ?_, fun a ha => ?_⟩
  · rw [pages_ptr, pages_ptr, hmem]
    exact load_congr fun i hi => store_outside (by omega)
  · rw [size_ptr, hmem]
    exact load_store (by omega)
  · rw [hmem]
    exact store_outside (by omega)

section

variable (hs : Inv s) (hx : x ∈ s.heap.out)
include hs hx

lemma Inv.touched (hout : h'.out = s.heap.out)
    (hpages : h'.pages (ptr x) = s.heap.pages (ptr x)) (hheader : h'.pages (ptr x) = (h'.size (ptr x) + 0xFFF) / 0x1000)
    (hmem : ∀ a, a < x.1 + memPhysOffset ∨ x.1 + memPhysOffset + x.2 * 0x1000 ≤ a → h'.mem a = s.heap.mem a) :
    Inv ⟨h', s.live⟩ ∧ ∀ y ∈ s.heap.out, y ≠ x → SameBlock s.heap h' (ptr y) := by
  have hkept : ∀ y ∈ s.heap.out, y ≠ x → Kept s.heap h' y := fun y hy hne =>
    kept_of_apart (hs.apart x hx y hy (Ne.symm hne)) hmem
  refine ⟨⟨?_, ?_, ?_, ?_⟩, fun y hy hne => hs.same hy (hkept y hy hne)⟩
  · rw [hout]
    exact hs.live
  · rw [hout]
    intro y hy
    by_cases hyx : y = x
    · rw [hyx, hpages, hs.pages x hx]
    · rw [(hkept y hy hyx).pages (hs.one_le hy), hs.pages y hy]
  · rw [hout]
    intro y hy
    by_cases hyx : y = x
    · rw [hyx, hheader]
    · rw [(hkept y hy hyx).pages (hs.one_le hy), (hkept y hy hyx).size (hs.one_le hy), hs.header y hy]
  · rw [hout]
    exact hs.apart

lemma Inv.performs_resize (hpos : n ≠ 0) (hn : n ≤ 2 ^ 64 - 2 ^ 13)
    (hround : roundUp (s.heap.size (ptr x)) 0x1000 = roundUp n 0x1000) (answer : Option ℕ) :
    Performs s (.krealloc (some (ptr x)) n answer) := by
  have hceil := ceil_eq_of_roundUp (size_lt s.heap (ptr x)) hpos hn hround
  obtain ⟨hpages, hsize, hmem⟩ := setSize_kept s.heap x (by omega : n < 2 ^ 64)
  have hone := hs.one_le hx
  have hout : (s.heap.setSize (ptr x) n).out = s.heap.out := by rw [Heap.setSize]
  obtain ⟨hs', hothers⟩ := hs.touched hx hout hpages (by rw [hpages, hsize, ← hceil, hs.header x hx])
    fun a ha => hmem a (by omega)
  have hp : ptr x ∈ s.live := (hs.live _).mpr ⟨x, hx, rfl⟩
  have hlive : ∀ q, q ∈ ptr x :: s.live.filter (· ≠ ptr x) ↔ q ∈ s.live := by
    intro q
    rw [mem_cons, mem_filter, decide_eq_true_eq]
    by_cases hq : q = ptr x
    · simp only [hq, hp, true_or]
    · simp only [hq, false_or, and_true, ne_eq, not_false_eq_true]
  refine ⟨some (ptr x), ⟨s.heap.setSize (ptr x) n, ptr x :: s.live.filter (· ≠ ptr x)⟩, ?_,
    ⟨fun p => (hlive p).trans (hs'.live p), hs'.pages, hs'.header, hs'.apart⟩,
    ⟨fun h => absurd h hpos, fun _ => ⟨nofun, fun q hq => ?_⟩⟩, fun q hq hne => ⟨(hlive q).mpr hq, ?_⟩⟩
  · rw [exec, Heap.krealloc, if_neg hpos, if_pos hround, map_some, if_neg (by simp), after_some]
    rfl
  · obtain rfl := some.inj hq
    refine ⟨rfl, hsize, read_congr fun i _ => hmem _ (.inr ?_)⟩
    rw [ptr]
    omega
  · obtain ⟨y, hy, rfl⟩ := (hs.live q).mp hq
    exact hothers y hy fun he => hne (congrArg (fun z => some (ptr z)) he)

lemma Inv.copied {m : ℕ} (hnew : New s.heap h' base n)
    (hgrants : ∀ x ∈ s.heap.out, Apart (base, Heap.pageCount n + 1) x) (hm : m ≤ n) (hm' : m ≤ s.heap.size (ptr x)) :
    New s.heap { h' with mem := copy h'.mem (ptr (base, Heap.pageCount n + 1)) (ptr x) m } base n ∧
      read (copy h'.mem (ptr (base, Heap.pageCount n + 1)) (ptr x) m) (ptr (base, Heap.pageCount n + 1)) m =
        read s.heap.mem (ptr x) m := by
  have hceil := pageCount_eq n
  have hpages := hs.pages x hx
  have hheader := hs.header x hx
  have hxfit : m ≤ (x.2 - 1) * 0x1000 := by omega
  have hapart := hgrants x hx
  have hranges : ptr (base, Heap.pageCount n + 1) + m ≤ ptr x ∨ ptr x + m ≤ ptr (base, Heap.pageCount n + 1) := by
    simp only [ptr]
    rcases hapart with h | h
    · simp only at h
      omega
    · simp only at h
      omega
  have hlen : (read h'.mem (ptr x) m).length = m := length_read
  have hsource : read h'.mem (ptr x) m = read s.heap.mem (ptr x) m :=
    read_congr fun i hi => kept_of_apart hapart hnew.mem _ (by rw [ptr]; omega) (by rw [ptr]; omega)
  have hread := @read_write h'.mem (ptr (base, Heap.pageCount n + 1)) (read h'.mem (ptr x) m)
  rw [hlen] at hread
  rw [copy_eq m hranges]
  refine ⟨hnew.congr rfl fun a ha => write_outside ?_, by rw [hread, hsource]⟩
  rw [hlen, ptr]
  dsimp only
  omega

lemma Inv.performs_move (hpos : n ≠ 0) (hn : n < 2 ^ 64)
    (hround : roundUp (s.heap.size (ptr x)) 0x1000 ≠ roundUp n 0x1000) (hgrants : Grants s.heap n (some base)) :
    Performs s (.krealloc (some (ptr x)) n (some base)) := by
  obtain ⟨h', hmalloc, hnew⟩ := kmalloc_new s.heap base hn
  have hapart := hgrants base rfl
  obtain ⟨m, hmdef⟩ : ∃ m, m = min (s.heap.size (ptr x)) n := ⟨_, rfl⟩
  obtain ⟨hnew', hbytes⟩ := hs.copied hx hnew hapart (by omega : m ≤ n) (by omega)
  obtain ⟨hs1, hkept⟩ := hs.add hnew' hapart
  obtain ⟨h2, hfree, hfrees, hs2⟩ := hs1.kfree (hnew'.out ▸ mem_cons_of_mem _ hx)
  have hsame : h'.size (ptr x) = s.heap.size (ptr x) :=
    (kept_of_apart (hapart x hx) hnew.mem).size (hs.one_le hx)
  have hcount : (if h'.size (ptr x) > n then n else h'.size (ptr x)) = m := by
    rw [hsame, hmdef]
    split <;> omega
  have hpx : ptr (base, Heap.pageCount n + 1) ≠ ptr x := fun he =>
    hs.not_mem_live hapart (he ▸ (hs.live _).mpr ⟨x, hx, rfl⟩)
  have hfilter : (ptr (base, Heap.pageCount n + 1) :: s.live).filter (· ≠ ptr x) =
      ptr (base, Heap.pageCount n + 1) :: s.live.filter (· ≠ ptr x) := filter_cons_of_pos (by simpa using hpx)
  dsimp only at hfree hfrees hs2
  rw [hfilter] at hfrees hs2
  have hmem := hfrees.mem
  dsimp only at hmem
  refine ⟨some (ptr (base, Heap.pageCount n + 1)), _, ?_, hs2,
    ⟨fun h => absurd h hpos, fun _ => ⟨nofun, fun q hq => ?_⟩⟩,
    fun q hq hne => ⟨?_, ?_⟩⟩
  · rw [exec, Heap.krealloc, if_neg hpos, if_neg hround, hmalloc]
    dsimp only
    rw [hcount, hfree, map_some, map_some, if_neg (by simp), after_some]
    rfl
  · obtain rfl := some.inj hq
    refine ⟨rfl, ?_, ?_⟩
    · refine Eq.trans ?_ hnew'.size
      rw [Heap.size, Heap.size, hmem]
    · dsimp only
      rw [hmem, ← hmdef]
      exact hbytes
  · exact mem_cons_of_mem _ (mem_filter.mpr ⟨hq, decide_eq_true fun he => hne (congrArg some he)⟩)
  · have hq' := hs.others hkept q hq
    exact ⟨by rw [← hq'.pages, Heap.pages, Heap.pages, hmem], by rw [← hq'.size, Heap.size, Heap.size, hmem],
      by rw [← hq'.bytes, hmem]⟩

end

lemma Inv.performs_krealloc (hs : Inv s) {addr : Option ℕ} (haddr : ∀ p ∈ addr, p ∈ s.live)
    (hn : n ≤ 2 ^ 64 - 2 ^ 13) (hgrants : Grants s.heap n answer) : Performs s (.krealloc addr n answer) := by
  have hn64 : n < 2 ^ 64 := by omega
  cases addr with
  | none =>
    obtain ⟨r, h', hmalloc, hs', heffect, hothers⟩ := hs.kmalloc hn64 hgrants
    refine ⟨r, _, ?_, hs', heffect, fun q hq _ => hothers q hq⟩
    rw [exec, Heap.krealloc, hmalloc, map_some, ite_self]
  | some p =>
    obtain ⟨x, hx, rfl⟩ := (hs.live p).mp (haddr p rfl)
    by_cases hzero : n = 0
    · obtain ⟨h', hfree, hfrees, hs'⟩ := hs.kfree hx
      obtain ⟨r, s', hexec, hs', heffect, hothers⟩ := hs.performs_kfree (haddr (ptr x) rfl)
      rw [exec, hfree, map_some] at hexec
      cases hexec
      refine ⟨none, _, ?_, hs', ⟨fun _ => ⟨rfl, heffect⟩, fun h => absurd hzero h⟩, hothers⟩
      rw [exec, Heap.krealloc, if_pos hzero, hfree, map_some, map_some, if_neg fun h => h.1 hzero]
    · by_cases hround : roundUp (s.heap.size (ptr x)) 0x1000 = roundUp n 0x1000
      · exact hs.performs_resize hx hzero hn hround answer
      · cases answer with
        | none =>
          refine ⟨none, s, ?_, hs, ⟨fun h => absurd h hzero, fun _ => ⟨fun _ => ⟨rfl, rfl⟩, nofun⟩⟩,
            fun q hq _ => ⟨hq, sameBlock_refl ..⟩⟩
          rw [exec, Heap.krealloc, if_neg hzero, if_neg hround]
          dsimp only [Heap.kmalloc]
          rw [map_some, if_pos ⟨hzero, rfl⟩, after_none]
          rfl
        | some base => exact hs.performs_move hx hzero hn64 hround hgrants

lemma Inv.performs_write (hs : Inv s) {p i : ℕ} (hp : p ∈ s.live) (hi : i < s.heap.size p) (b : BitVec 8) :
    Performs s (.write p i b) := by
  obtain ⟨x, hx, rfl⟩ := (hs.live p).mp hp
  have hpages := hs.pages x hx
  have hheader := hs.header x hx
  let h' : Heap := { s.heap with mem := update s.heap.mem (ptr x + i) b }
  have hmem : ∀ a, a < x.1 + memPhysOffset + 0x1000 ∨ x.1 + memPhysOffset + x.2 * 0x1000 ≤ a →
      h'.mem a = s.heap.mem a := by
    intro a ha
    refine update_of_ne ?_ ..
    rw [ptr]
    omega
  have hpages' : h'.pages (ptr x) = s.heap.pages (ptr x) := by
    rw [pages_ptr, pages_ptr]
    exact load_congr fun j hj => hmem _ (by omega)
  have hsize' : h'.size (ptr x) = s.heap.size (ptr x) := by
    rw [size_ptr, size_ptr]
    exact load_congr fun j hj => hmem _ (by omega)
  have hout : h'.out = s.heap.out := rfl
  obtain ⟨hs', hothers⟩ := hs.touched hx hout hpages' (by rw [hpages', hsize', hheader]) fun a ha => hmem a (by omega)
  refine ⟨none, ⟨h', s.live⟩, rfl, hs', ⟨rfl, rfl⟩, fun q hq hne => ⟨hq, ?_⟩⟩
  obtain ⟨y, hy, rfl⟩ := (hs.live q).mp hq
  exact hothers y hy fun he => hne (congrArg (fun z => some (ptr z)) he)

lemma Inv.performs (hs : Inv s) {call : Call} (hlegal : Legal s call) : Performs s call := by
  cases call with
  | kmalloc n answer => exact hs.performs_kmalloc (Nat.lt_of_le_of_lt hlegal.1 (by decide)) hlegal.2
  | kcalloc num nsize answer => exact hs.performs_kcalloc hlegal.2.2
  | krealloc addr n answer => exact hs.performs_krealloc hlegal.1 hlegal.2.1 hlegal.2.2
  | kfree p => exact hs.performs_kfree hlegal
  | write p i b => exact hs.performs_write hlegal.1 hlegal.2 b

lemma inv_empty (mem : Mem) : Inv ⟨⟨mem, []⟩, []⟩ := ⟨fun p => by simp, nofun, nofun, nofun⟩

end

/-- **The kernel heap.** After every run of calls on live pointers the blocks are sound, and the
next call returns, does what it should and leaves the other blocks alone. -/
theorem heap_blocks_kept (mem : Mem) (calls : List Call) (hlegal : Along step Legal ⟨⟨mem, []⟩, []⟩ calls) :
    ∃ s, run step ⟨⟨mem, []⟩, []⟩ calls = some s ∧ Sound s ∧
      ∀ call, Legal s call → ∃ r s', exec s call = some (r, s') ∧ Sound s' ∧ Effect s r s' call ∧
        ∀ q ∈ s.live, some q ≠ call.target → q ∈ s'.live ∧ SameBlock s.heap s'.heap q := by
  obtain ⟨s, hrun, hs⟩ := run_total_along step (I := Inv) (fun s call hs hcall => by
    obtain ⟨r, s', hexec, hs', -⟩ := hs.performs hcall
    exact ⟨s', by rw [step, hexec, map_some], hs'⟩) calls _ (inv_empty mem) hlegal
  refine ⟨s, hrun, hs.sound, fun call hcall => ?_⟩
  obtain ⟨r, s', hexec, hs', heffect, hothers⟩ := hs.performs hcall
  exact ⟨r, s', hexec, hs'.sound, heffect, hothers⟩

theorem heap_blocks_kept_two :
    let calls : List Call := [.kmalloc 10 (some 0x1000), .write (0x1000 + memPhysOffset + 0x1000) 3 7,
      .kcalloc 3 4 (some 0x4000), .krealloc (some (0x1000 + memPhysOffset + 0x1000)) 5000 (some 0x8000),
      .kfree (0x4000 + memPhysOffset + 0x1000)]
    Along step Legal ⟨⟨fun _ => 0xFF, []⟩, []⟩ calls ∧ ∃ s, run step ⟨⟨fun _ => 0xFF, []⟩, []⟩ calls = some s ∧
      Sound s ∧ ∀ call, Legal s call → ∃ r s', exec s call = some (r, s') ∧ Sound s' ∧ Effect s r s' call ∧
        ∀ q ∈ s.live, some q ≠ call.target → q ∈ s'.live ∧ SameBlock s.heap s'.heap q :=
  have hlegal : Along step Legal ⟨⟨fun _ => 0xFF, []⟩, []⟩ [.kmalloc 10 (some 0x1000),
      .write (0x1000 + memPhysOffset + 0x1000) 3 7, .kcalloc 3 4 (some 0x4000),
      .krealloc (some (0x1000 + memPhysOffset + 0x1000)) 5000 (some 0x8000),
        .kfree (0x4000 + memPhysOffset + 0x1000)] := by
    decide +kernel
  ⟨hlegal, heap_blocks_kept _ _ hlegal⟩

/-- **No page is lost**: after every run of calls on live pointers, what the page allocator has handed out are the blocks of
the live pointers. -/
theorem heap_pages_accounted (mem : Mem) (calls : List Call) (hlegal : Along step Legal ⟨⟨mem, []⟩, []⟩ calls) :
    ∃ s, run step ⟨⟨mem, []⟩, []⟩ calls = some s ∧
      ∀ x, x ∈ s.heap.out ↔ ∃ p ∈ s.live, x = (p - 0x1000 - memPhysOffset, s.heap.pages p + 1) := by
  obtain ⟨s, hrun, hs⟩ := run_total_along step (I := Inv) (fun s call hs hcall => by
    obtain ⟨r, s', hexec, hs', -⟩ := hs.performs hcall
    exact ⟨s', by rw [step, hexec, map_some], hs'⟩) calls _ (inv_empty mem) hlegal
  refine ⟨s, hrun, fun x => ⟨fun hx => ⟨ptr x, (hs.live _).mpr ⟨x, hx, rfl⟩, ?_⟩, ?_⟩⟩
  · rw [ptr_sub, Nat.add_sub_cancel, hs.pages x hx]
  · rintro ⟨p, hp, rfl⟩
    exact hs.sound.given p hp

/-- Of two blocks the first one is freed. -/
theorem heap_pages_accounted_two : ∃ s, run step ⟨⟨fun _ => 0, []⟩, []⟩ [.kmalloc 10 (some 0x1000),
    .kmalloc 5000 (some 0x4000), .kfree (0x2000 + memPhysOffset)] = some s ∧ ∀ x, x ∈ s.heap.out ↔ x = (0x4000, 3) := by
  obtain ⟨s, hrun, hout⟩ := heap_pages_accounted (fun _ => 0) [.kmalloc 10 (some 0x1000),
    .kmalloc 5000 (some 0x4000), .kfree (0x2000 + memPhysOffset)] (by decide +kernel)
  have hlive : (run step ⟨⟨fun _ => 0, []⟩, []⟩ [.kmalloc 10 (some 0x1000), .kmalloc 5000 (some 0x4000),
      .kfree (0x2000 + memPhysOffset)]).map (fun s => (s.live, s.heap.pages (0x5000 + memPhysOffset))) =
      some ([0x5000 + memPhysOffset], 2) := by decide +kernel
  rw [hrun, map_some, some.injEq, Prod.mk.injEq] at hlive
  refine ⟨s, hrun, fun x => ?_⟩
  rw [hout, hlive.1]
  simp only [mem_singleton, exists_eq_left, hlive.2]
  rfl

/-- `kcalloc` of no elements returns `NULL`, though the page allocator has pages. -/
theorem kcalloc_zero_null : Legal ⟨⟨fun _ => 0, []⟩, []⟩ (.kcalloc 0 8 (some 0x1000)) ∧ 0 * 8 < 2 ^ 64 ∧
    (Heap.kcalloc ⟨fun _ => 0, []⟩ (some 0x1000) 0 8).1 = none :=
  ⟨by decide, by decide, rfl⟩

end WivOS.Kheap
