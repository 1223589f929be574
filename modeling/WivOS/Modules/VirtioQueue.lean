/-
# Descriptors of a virtqueue

The free list of the queue of `modules/virtio/virtio.c` alone, for chains of any length. Descriptors are allocated and
freed in any order: those that are not allocated are the first `freeCount` of the free list, which has no end of its own
(`free_list_sound`).
-/
import WivOS.Modules.Virtio

namespace WivOS.Virtio

open Function List Option Virtqueue

/-- Descriptors that are linked by `next`, with `VIRTQ_DESC_F_NEXT` on all but the last. -/
def IsChain (d : ℕ → Descriptor) : List ℕ → Prop
  | [] => True
  | [i] => (d i).chained = false
  | i :: j :: chain => d i = ⟨true, j⟩ ∧ IsChain d (j :: chain)

lemma IsChain.congr {d d' : ℕ → Descriptor} : ∀ {chain : List ℕ}, IsChain d chain → (∀ i ∈ chain, d' i = d i) →
    IsChain d' chain
  | [], _, _ => trivial
  | [i], h, heq => by
    show (d' i).chained = false
    rw [heq i mem_cons_self]
    exact h
  | i :: j :: chain, h, heq => ⟨(heq i mem_cons_self).trans h.1, h.2.congr fun k hk => heq k (mem_cons_of_mem i hk)⟩

lemma IsChain.walk_eq {d : ℕ → Descriptor} : ∀ {i : ℕ} {chain : List ℕ}, IsChain d (i :: chain) →
    walk d (i :: chain).length i = i :: chain
  | i, [], _ => rfl
  | i, j :: chain, h => by
    rw [length_cons, walk, h.1]
    exact congrArg (i :: ·) h.2.walk_eq

/-! ### The free list -/

structure Held where
  queue : Virtqueue
  allocated : List ℕ

inductive Op where
  | allocate (count : ℕ)
  | free (i : ℕ)

/-- Only a descriptor that is allocated may be freed. -/
def Held.step (s : Held) : Op → Option Held
  | .allocate count =>
    match s.queue.allocate count with
    | some (queue, head) => some ⟨queue, walk queue.descriptors count head ++ s.allocated⟩
    | none => some s
  | .free i => if i ∈ s.allocated then some ⟨s.queue.free i, s.allocated.erase i⟩ else none

/-- A descriptor is free or allocated, and not both. -/
def Held.Sound (size : ℕ) (s : Held) : Prop := (s.queue.freeDescriptors ++ s.allocated).Perm (List.range size)

variable {q : Virtqueue} {s s' : Held} {size : ℕ}

lemma Virtqueue.freeDescriptors_length (q : Virtqueue) : q.freeDescriptors.length = q.freeCount := length_walk _ _ _

/-- **The loop of an allocation** turns the first free descriptors round, in front of the chain that it has. -/
lemma allocateLoop_spec : ∀ (count : ℕ) (q : Virtqueue) (chain : List ℕ), count ≤ q.freeCount →
    (q.freeDescriptors ++ chain).Nodup → IsChain q.descriptors chain →
    ∃ q', q.allocateLoop count chain.head? = (q', (((q.freeDescriptors.take count).reverse ++ chain).head?).getD 0) ∧
      q'.freeDescriptors = q.freeDescriptors.drop count ∧
      IsChain q'.descriptors ((q.freeDescriptors.take count).reverse ++ chain)
  | 0, q, chain, _, _, hchain => ⟨q, rfl, rfl, hchain⟩
  | count + 1, q, chain, hcount, hnodup, hchain => by
    obtain ⟨n, hn⟩ := Nat.exists_eq_add_of_le' (Nat.one_le_of_lt hcount)
    have hfree : q.freeDescriptors = q.freeList :: walk q.descriptors n (q.descriptors q.freeList).next := by
      rw [freeDescriptors, hn]
      rfl
    rw [hfree, cons_append, nodup_cons, mem_append, not_or] at hnodup
    obtain ⟨⟨hrest, hnotin⟩, hnodup⟩ := hnodup
    -- the state after a round
    let descriptor : Descriptor := chain.head?.elim ⟨false, 0⟩ fun lastIndex => ⟨true, lastIndex⟩
    let q1 : Virtqueue := { q with
      freeList := (q.descriptors q.freeList).next
      freeCount := q.freeCount - 1
      descriptors := update q.descriptors q.freeList descriptor }
    have hfree1 : q1.freeDescriptors = walk q.descriptors n (q.descriptors q.freeList).next := by
      have hn1 : q1.freeCount = n := by
        show q.freeCount - 1 = n
        omega
      rw [freeDescriptors, hn1]
      refine walk_congr fun j hj => ?_
      have hne : j ≠ q.freeList := by
        rintro rfl
        exact hrest hj
      exact congrArg Descriptor.next (update_of_ne hne _ _)
    have hold : IsChain q1.descriptors chain := hchain.congr fun i hi => by
      have hne : i ≠ q.freeList := fun heq => hnotin (heq ▸ hi)
      exact update_of_ne hne _ _
    have hnew : IsChain q1.descriptors (q.freeList :: chain) := by
      cases chain with
      | nil =>
        show (update q.descriptors q.freeList ⟨false, 0⟩ q.freeList).chained = false
        rw [update_self]
      | cons j chain => exact ⟨update_self _ _ _, hold⟩
    obtain ⟨q', hloop, hdrop, hchain'⟩ := allocateLoop_spec count q1 (q.freeList :: chain)
      (by show count ≤ q.freeCount - 1; omega) (by
        rw [hfree1]
        rw [perm_middle.nodup_iff, nodup_cons, mem_append, not_or]
        exact ⟨⟨hrest, hnotin⟩, hnodup⟩) hnew
    have htake : (q.freeDescriptors.take (count + 1)).reverse ++ chain =
        (q1.freeDescriptors.take count).reverse ++ q.freeList :: chain := by
      rw [hfree, hfree1, take_succ_cons, reverse_cons, append_assoc]
      rfl
    refine ⟨q', ?_, ?_, ?_⟩
    · rw [htake, ← hloop]
      cases chain <;> rfl
    · rw [hdrop, hfree, hfree1, drop_succ_cons]
    · rw [htake]
      exact hchain'

/-- What an allocation of `count` descriptors gives. -/
structure Allocated (q q' : Virtqueue) (count head : ℕ) (chain : List ℕ) : Prop where
  first : chain.head? = some head
  length : chain.length = count
  nodup : chain.Nodup
  free : ∀ i ∈ chain, i ∈ q.freeDescriptors
  linked : IsChain q'.descriptors chain
  rest : (q'.freeDescriptors ++ chain).Perm q.freeDescriptors

lemma allocate_spec {count : ℕ} (hpos : 1 ≤ count) (hcount : count ≤ q.freeCount) (hnodup : q.freeDescriptors.Nodup) :
    ∃ q' head chain, q.allocate count = some (q', head) ∧ Allocated q q' count head chain := by
  obtain ⟨q', hloop, hdrop, hchain⟩ := allocateLoop_spec count q [] hcount (by rwa [append_nil]) trivial
  rw [append_nil] at hloop hchain
  have hlen : (q.freeDescriptors.take count).reverse.length = count := by
    rw [length_reverse, length_take, q.freeDescriptors_length, Nat.min_eq_left hcount]
  have hperm : (q.freeDescriptors.drop count ++ (q.freeDescriptors.take count).reverse).Perm q.freeDescriptors :=
    perm_append_comm.trans (((reverse_perm _).append_right _).trans (by rw [take_append_drop]))
  obtain ⟨head, chain, heq⟩ := exists_cons_of_length_pos (Nat.lt_of_lt_of_eq hpos hlen.symm)
  refine ⟨q', head, (q.freeDescriptors.take count).reverse, ?_, by rw [heq]; rfl, hlen, ?_, fun i hi => ?_, hchain, ?_⟩
  · rw [heq] at hloop
    exact (if_neg (Nat.not_lt.mpr hcount)).trans (congrArg some hloop)
  · exact nodup_reverse.mpr (hnodup.sublist (take_sublist _ _))
  · exact mem_of_mem_take (mem_reverse.mp hi)
  · rw [hdrop]
    exact hperm

lemma Held.Sound.nodup (h : s.Sound size) : (s.queue.freeDescriptors ++ s.allocated).Nodup :=
  h.nodup_iff.mpr nodup_range

lemma Held.Sound.count (h : s.Sound size) : s.queue.freeCount + s.allocated.length = size := by
  rw [← s.queue.freeDescriptors_length, ← length_append, h.length_eq, length_range]

lemma Held.Sound.step (h : s.Sound size) (hsize : size < 2 ^ 16) {op : Op} (hstep : s.step op = some s') :
    s'.Sound size := by
  cases op with
  | allocate count =>
    rcases Nat.lt_or_ge s.queue.freeCount count with hlt | hge
    · rw [Held.step, allocate, if_pos hlt] at hstep
      cases hstep
      exact h
    · rcases Nat.eq_zero_or_pos count with rfl | hpos
      · cases hstep
        exact h
      · obtain ⟨q', head, chain, hallocate, ha⟩ := allocate_spec hpos hge (List.Nodup.of_append_left h.nodup)
        rw [Held.step, hallocate] at hstep
        cases hstep
        have hwalk : walk q'.descriptors count head = chain := by
          obtain ⟨rest, rfl⟩ := head?_eq_some_iff.mp ha.first
          rw [← ha.length]
          exact ha.linked.walk_eq
        show (q'.freeDescriptors ++ (walk q'.descriptors count head ++ s.allocated)).Perm _
        rw [hwalk, ← append_assoc]
        exact (ha.rest.append_right _).trans h
  | free i =>
    rw [Held.step] at hstep
    split_ifs at hstep with hi
    cases hstep
    have hnotin : i ∉ s.queue.freeDescriptors := fun hmem => (nodup_append'.mp h.nodup).2.2 hmem hi
    have hcount := h.count
    have hpos := length_pos_of_mem hi
    show ((s.queue.free i).freeDescriptors ++ s.allocated.erase i).Perm _
    rw [freeDescriptors_free hnotin (by omega)]
    exact (perm_middle.symm.trans ((perm_cons_erase hi).symm.append_left _)).trans h

lemma Held.sound_setup (hsize : size < 2 ^ 16) : Held.Sound size ⟨setup size, []⟩ := by
  show ((setup size).freeDescriptors ++ []).Perm _
  rw [append_nil, setup, (setup_loop _ rfl size hsize).1]
  exact reverse_perm _

/-- **The free list is sound** after every sequence of allocations and frees: its descriptors are the ones that are not
allocated, and an allocation that finds enough of them makes them a chain. -/
theorem free_list_sound (size : ℕ) (hsize : size < 2 ^ 16) (ops : List Op) (s : Held)
    (hrun : Machine.run Held.step ⟨setup size, []⟩ ops = some s) :
    s.queue.freeDescriptors.Nodup ∧ s.allocated.Nodup ∧
      (∀ i, i ∈ s.queue.freeDescriptors ↔ i < size ∧ i ∉ s.allocated) ∧
      s.queue.freeCount + s.allocated.length = size ∧
      ∀ count, 1 ≤ count → (s.queue.allocate count = none ↔ s.queue.freeCount < count) ∧
        ∀ q' head, s.queue.allocate count = some (q', head) → ∃ chain, Allocated s.queue q' count head chain := by
  have h : s.Sound size := Machine.run_invariant Held.step (fun _ _ _ hs hstep => hs.step hsize hstep) ops _ _
    (Held.sound_setup hsize) hrun
  obtain ⟨hfree, hallocated, hdisjoint⟩ := nodup_append'.mp h.nodup
  refine ⟨hfree, hallocated, fun i => ?_, h.count, fun count hpos => ⟨?_, fun q' head hallocate => ?_⟩⟩
  · have hmem : i ∈ s.queue.freeDescriptors ++ s.allocated ↔ i < size := h.mem_iff.trans mem_range
    rw [mem_append] at hmem
    constructor
    · exact fun hi => ⟨hmem.mp (.inl hi), fun hi' => hdisjoint hi hi'⟩
    · rintro ⟨hlt, hnot⟩
      exact (hmem.mpr hlt).resolve_right hnot
  · rw [allocate]
    split_ifs with hlt <;> simp [hlt]
  · have hge : count ≤ s.queue.freeCount := by
      by_contra hlt
      rw [allocate, if_pos (Nat.lt_of_not_le hlt)] at hallocate
      cases hallocate
    obtain ⟨q1, head1, chain, heq, ha⟩ := allocate_spec hpos hge hfree
    cases heq.symm.trans hallocate
    exact ⟨chain, ha⟩

/-- After a descriptor of three is given back, two are free, and an allocation makes them a chain. -/
theorem free_list_four : ∃ s q' head chain, Machine.run Held.step ⟨setup 4, []⟩ [.allocate 3, .free 2] = some s ∧
    s.allocated = [1, 3] ∧ (∀ i, i ∈ s.queue.freeDescriptors ↔ i < 4 ∧ i ∉ [1, 3]) ∧
    s.queue.allocate 2 = some (q', head) ∧ Allocated s.queue q' 2 head chain := by
  obtain ⟨-, -, hfree, -, hallocate⟩ := free_list_sound 4 (by decide) [.allocate 3, .free 2] _ rfl
  obtain ⟨chain, hchain⟩ := (hallocate 2 (by decide)).2 _ _ rfl
  exact ⟨_, _, _, chain, rfl, rfl, hfree, rfl, hchain⟩

end WivOS.Virtio
