/-
# Commands on a virtqueue

`virtio_setup_queue`, `virtio_allocate_descriptors`, `virtio_submit_descriptor`, `virtio_free_descriptor` and
`virtio_irq_handler` of `modules/virtio/virtio.c`, for one queue, and threads that send commands on it as
`send_command_response` of `modules/virtiogpu/main.c` does. The device completes the chains in any order.

A thread waits for the lock of its second descriptor, which the handler unlocks. It also unlocks the first one, that
nobody locks again, and the next chain that has it as its second one is not waited for. So the queue is safe as long as
every allocation finds a descriptor whose lock is held (`Guarded`); one thread alone always does.
-/
import Mathlib.Algebra.Group.Nat.Defs
import WivOS.Lib.Machine
import WivOS.Lib.Pool
import WivOS.Lib.Ring

namespace WivOS.Virtio

open Function List Option Machine

structure Descriptor where
  chained : Bool
  next : ℕ
deriving DecidableEq

/-- `virtio_queue_virtqueue_t`. A queue has `2 ^ order` descriptors. -/
structure Virtqueue where
  descriptors : ℕ → Descriptor
  freeList : ℕ
  freeCount : ℕ
  /-- The locks that are held. -/
  locked : ℕ → Bool
  availableIndex : ℕ
  availableRings : ℕ → ℕ
  usedIndex : ℕ
  usedRings : ℕ → ℕ
  lastUsed : ℕ

def queueMask (order : ℕ) : ℕ := 2 ^ order - 1

namespace Virtqueue

def free (q : Virtqueue) (i : ℕ) : Virtqueue :=
  { q with
    descriptors := update q.descriptors i { q.descriptors i with next := q.freeList }
    freeList := i
    freeCount := (q.freeCount + 1) % 2 ^ 16 }

/-- A queue in memory that is zero, with the locks that `virtio_setup_queue` takes. -/
def blank (size : ℕ) : Virtqueue where
  descriptors := fun _ => ⟨false, 0⟩
  freeList := 0
  freeCount := 0
  locked := fun i => decide (i < size)
  availableIndex := 0
  availableRings := fun _ => 0
  usedIndex := 0
  usedRings := fun _ => 0
  lastUsed := 0

def setup (size : ℕ) : Virtqueue := (List.range size).foldl free (blank size)

def allocateLoop (q : Virtqueue) : ℕ → Option ℕ → Virtqueue × ℕ
  | 0, last => (q, last.getD 0)
  | count + 1, last =>
    let i := q.freeList
    let descriptor : Descriptor := match last with
      | some lastIndex => ⟨true, lastIndex⟩
      | none => ⟨false, 0⟩
    allocateLoop { q with
      freeList := (q.descriptors i).next
      freeCount := q.freeCount - 1
      descriptors := update q.descriptors i descriptor } count (some i)

def allocate (q : Virtqueue) (count : ℕ) : Option (Virtqueue × ℕ) :=
  if q.freeCount < count then none else some (q.allocateLoop count none)

def submitChain (order : ℕ) (q : Virtqueue) (descriptor : ℕ) : Virtqueue :=
  { q with
    availableRings := update q.availableRings (q.availableIndex &&& queueMask order) descriptor
    availableIndex := (q.availableIndex + 1) % 2 ^ 16 }

def release (q : Virtqueue) : ℕ → ℕ → Option Virtqueue
  | 0, _ => none
  | rounds + 1, j =>
    let next := if (q.descriptors j).chained then some (q.descriptors j).next else none
    if q.locked j then
      let q := { q with locked := update q.locked j false }
      match next with
      | none => some q
      | some k => (q.free j).release rounds k
    else
      let q := q.free j
      match next with
      | none => some q
      | some k => q.release rounds k

def irqLoop (order : ℕ) (q : Virtqueue) : ℕ → ℕ → Option Virtqueue
  | 0, _ => none
  | rounds + 1, i =>
    if i = q.usedIndex &&& queueMask order then some q
    else (q.release (2 ^ order) (q.usedRings i)).bind fun q =>
      irqLoop order { q with lastUsed := (q.lastUsed + 1) &&& queueMask order } rounds ((i + 1) &&& queueMask order)

def irqHandler (order : ℕ) (q : Virtqueue) : Option Virtqueue := q.irqLoop order (2 ^ order) q.lastUsed

def walk (descriptors : ℕ → Descriptor) : ℕ → ℕ → List ℕ
  | 0, _ => []
  | n + 1, i => i :: walk descriptors n (descriptors i).next

def freeDescriptors (q : Virtqueue) : List ℕ := walk q.descriptors q.freeCount q.freeList

end Virtqueue

/-! ### Threads and the device -/

inductive Phase where
  | idle
  | allocated (head tail : ℕ)
  | waiting (n head tail : ℕ)
  | returned (n tail : ℕ)
deriving DecidableEq

structure State where
  queue : Virtqueue
  threads : ℕ → Phase
  /-- The chains, in the order in which they were submitted. -/
  submitted : List (ℕ × ℕ)
  /-- The heads that the device has fetched. -/
  fetched : List ℕ
  /-- The chains that it has completed. -/
  completed : List ℕ
  /-- How many of them an interrupt has handled. -/
  handled : ℕ

inductive Step where
  | allocate (t : ℕ)
  | submit (t : ℕ)
  /-- The wait at the end of `virtio_submit_descriptor` is over. -/
  | wake (t : ℕ)
  | free (t : ℕ)
  | fetch
  | complete (n : ℕ)
  | interrupt

def step (order : ℕ) (s : State) : Step → Option State
  | .allocate t =>
    match s.threads t with
    -- without two descriptors the caller writes to a null pointer
    | .idle => (s.queue.allocate 2).map fun (queue, head) =>
        { s with queue, threads := update s.threads t (.allocated head (queue.descriptors head).next) }
    | _ => none
  | .submit t =>
    match s.threads t with
    | .allocated head tail => some { s with
        queue := s.queue.submitChain order head
        threads := update s.threads t (.waiting s.submitted.length head tail)
        submitted := s.submitted ++ [(head, tail)] }
    | _ => none
  | .wake t =>
    match s.threads t with
    | .waiting n _ tail =>
      if s.queue.locked tail then none
      else some { s with
        queue := { s.queue with locked := update s.queue.locked tail true }
        threads := update s.threads t (.returned n tail) }
    | _ => none
  | .free t =>
    match s.threads t with
    | .returned _ tail => some { s with queue := s.queue.free tail, threads := update s.threads t .idle }
    | _ => none
  | .fetch =>
    if s.queue.availableIndex = s.fetched.length % 2 ^ 16 then none
    else some { s with fetched := s.fetched ++ [s.queue.availableRings (s.fetched.length % 2 ^ order)] }
  | .complete n =>
    if n ∈ s.completed then none
    else s.fetched[n]?.map fun head => { s with
      queue := { s.queue with
        usedRings := update s.queue.usedRings (s.queue.usedIndex % 2 ^ order) head
        usedIndex := (s.queue.usedIndex + 1) % 2 ^ 16 }
      completed := s.completed ++ [n] }
  | .interrupt => (s.queue.irqHandler order).map fun queue => { s with queue, handled := s.completed.length }

def init (order : ℕ) : State := ⟨Virtqueue.setup (2 ^ order), fun _ => .idle, [], [], [], 0⟩

/-- A command has returned only if its chain is completed, and the descriptors of a chain that is
not are not free. -/
structure Safe (s : State) : Prop where
  returned : ∀ t n tail, s.threads t = .returned n tail → n ∈ s.completed
  outstanding : ∀ n head tail, s.submitted[n]? = some (head, tail) → n ∉ s.completed →
    head ∉ s.queue.freeDescriptors ∧ tail ∉ s.queue.freeDescriptors

/-- The descriptor that a thread will wait for has its lock held. -/
def Guarded (s : State) : Step → Prop
  | .allocate _ => s.queue.locked s.queue.freeList = true
  | _ => True

instance (s : State) : ∀ op, Decidable (Guarded s op)
  | .allocate _ => inferInstanceAs (Decidable (s.queue.locked s.queue.freeList = true))
  | .submit _ | .wake _ | .free _ | .fetch | .complete _ | .interrupt => .isTrue trivial

/-! ### The free list -/

namespace Virtqueue

variable {q : Virtqueue} {i : ℕ}

lemma walk_congr {d d' : ℕ → Descriptor} : ∀ {n i : ℕ}, (∀ j ∈ walk d n i, (d' j).next = (d j).next) →
    walk d' n i = walk d n i
  | 0, _, _ => rfl
  | n + 1, i, h => by
    have hi : (d' i).next = (d i).next := h i mem_cons_self
    have hrest : walk d' n (d i).next = walk d n (d i).next := walk_congr fun j hj => h j (mem_cons_of_mem i hj)
    rw [walk, walk, hi, hrest]

lemma length_walk (d : ℕ → Descriptor) : ∀ n i, (walk d n i).length = n
  | 0, _ => rfl
  | n + 1, i => by rw [walk, length_cons, length_walk d n]

lemma freeDescriptors_free (hi : i ∉ q.freeDescriptors) (hcount : q.freeCount + 1 < 2 ^ 16) :
    (q.free i).freeDescriptors = i :: q.freeDescriptors := by
  have hrest : walk (q.free i).descriptors q.freeCount q.freeList = q.freeDescriptors := by
    refine walk_congr fun j hj => ?_
    have hne : j ≠ i := fun heq => hi (heq ▸ hj)
    simp only [free, update_of_ne hne]
  rw [freeDescriptors]
  simp only [free, Nat.mod_eq_of_lt hcount, walk, update_self]
  exact congrArg (i :: ·) hrest

/-- **Two descriptors**: the one on top is the second of the chain. -/
lemma allocate_two (hcount : 2 ≤ q.freeCount) (hnodup : q.freeDescriptors.Nodup) : ∃ head rest q',
    q.freeDescriptors = q.freeList :: head :: rest ∧ q.allocate 2 = some (q', head) ∧ q'.freeDescriptors = rest ∧
    q' = { q with
      freeList := q'.freeList
      freeCount := q'.freeCount
      descriptors := update (update q.descriptors q.freeList ⟨false, 0⟩) head ⟨true, q.freeList⟩ } := by
  obtain ⟨n, hn⟩ := Nat.exists_eq_add_of_le' hcount
  have hlist : q.freeDescriptors = q.freeList :: (q.descriptors q.freeList).next ::
      walk q.descriptors n (q.descriptors (q.descriptors q.freeList).next).next := by
    rw [freeDescriptors, hn]
    rfl
  rw [hlist, nodup_cons, nodup_cons] at hnodup
  obtain ⟨htail, hhead, -⟩ := hnodup
  rw [mem_cons, not_or] at htail
  have hnext : update q.descriptors q.freeList ⟨false, 0⟩ (q.descriptors q.freeList).next =
      q.descriptors (q.descriptors q.freeList).next := update_of_ne (Ne.symm htail.1) _ _
  have hloop : q.allocateLoop 2 none = ({ q with
      freeList := (q.descriptors (q.descriptors q.freeList).next).next
      freeCount := q.freeCount - 1 - 1
      descriptors := update (update q.descriptors q.freeList ⟨false, 0⟩) (q.descriptors q.freeList).next
        ⟨true, q.freeList⟩ }, (q.descriptors q.freeList).next) := by
    simp only [allocateLoop, hnext, getD_some]
  have hallocate : q.allocate 2 = some (q.allocateLoop 2 none) := if_neg (by omega)
  refine ⟨_, _, _, hlist, hallocate.trans (congrArg some hloop), ?_, rfl⟩
  · simp only [freeDescriptors, hn]
    refine walk_congr fun j hj => ?_
    have hne : j ≠ (q.descriptors q.freeList).next := fun heq => hhead (heq ▸ hj)
    have hne' : j ≠ q.freeList := fun heq => htail.2 (heq ▸ hj)
    rw [update_of_ne hne, update_of_ne hne']

structure SameRings (q q' : Virtqueue) : Prop where
  availableRings : q'.availableRings = q.availableRings
  availableIndex : q'.availableIndex = q.availableIndex
  usedRings : q'.usedRings = q.usedRings
  usedIndex : q'.usedIndex = q.usedIndex
  lastUsed : q'.lastUsed = q.lastUsed

lemma setup_loop (q : Virtqueue) (hq : q.freeCount = 0) : ∀ n < 2 ^ 16,
    ((List.range n).foldl free q).freeDescriptors = (List.range n).reverse ∧
    ((List.range n).foldl free q).freeCount = n ∧
      ((List.range n).foldl free q).locked = q.locked ∧ SameRings q ((List.range n).foldl free q)
  | 0, _ => by
    refine ⟨?_, hq, rfl, rfl, rfl, rfl, rfl, rfl⟩
    simp only [range_zero, foldl_nil, freeDescriptors, hq]
    rfl
  | n + 1, hn => by
    obtain ⟨hlist, hcount, hlocked, hsame⟩ := setup_loop q hq n (Nat.lt_of_succ_lt hn)
    rw [range_succ, foldl_append, foldl_cons, foldl_nil]
    refine ⟨?_, ?_, hlocked, hsame.availableRings, hsame.availableIndex, hsame.usedRings, hsame.usedIndex,
      hsame.lastUsed⟩
    · rw [freeDescriptors_free (by simp [hlist]) (by omega), hlist, reverse_append]
      rfl
    · rw [free, hcount, Nat.mod_eq_of_lt hn]

end Virtqueue

/-! ### The invariant -/

def State.done (s : State) : List ℕ := s.completed.take s.handled

def Phase.held (done : List ℕ) : Phase → List ℕ
  | .idle => []
  | .allocated head tail => [head, tail]
  | .waiting n head tail => if n ∈ done then [tail] else [head, tail]
  | .returned _ tail => [tail]

def State.held (s : State) (t : ℕ) : List ℕ := (s.threads t).held s.done

/-- A chain of two descriptors, with the lock that its thread waits for. -/
structure Linked (q : Virtqueue) (head tail : ℕ) : Prop where
  first : q.descriptors head = ⟨true, tail⟩
  second : (q.descriptors tail).chained = false
  locked : q.locked tail = true

def Fits (s : State) : Phase → Prop
  | .idle => True
  | .allocated head tail => Linked s.queue head tail
  | .waiting n head tail => s.submitted[n]? = some (head, tail) ∧ (n ∉ s.done → Linked s.queue head tail)
  | .returned n tail => n ∈ s.done ∧ s.queue.locked tail = true

structure Rings (order : ℕ) (s : State) : Prop where
  available : Ring.Recent (2 ^ order) (fun x i => x.1 = i) s.queue.availableRings s.submitted
  availableIndex : s.queue.availableIndex = s.submitted.length % 2 ^ 16
  fetched : s.fetched = (s.submitted.map Prod.fst).take s.fetched.length
  used : Ring.Recent (2 ^ order) (fun n i => s.fetched[n]? = some i) s.queue.usedRings s.completed
  usedIndex : s.queue.usedIndex = s.completed.length % 2 ^ 16
  lastUsed : s.queue.lastUsed = s.handled % 2 ^ order
  handled : s.handled ≤ s.completed.length
  completed : s.completed.Nodup
  early : ∀ n ∈ s.completed, n < s.fetched.length

open Virtqueue (SameRings)

structure Inv (order : ℕ) (s : State) : Prop where
  apart : Pool.Apart (· < 2 ^ order) s.queue.freeDescriptors s.held
  fits : ∀ t, Fits s (s.threads t)
  waited : ∀ n < s.submitted.length, n ∉ s.done → ∃ t head tail, s.threads t = .waiting n head tail
  rings : Rings order s

variable {n head tail : ℕ} {queue : Virtqueue}

section

variable {order : ℕ} {s s' : State} {t : ℕ} {p : Phase}

lemma mem_completed (h : n ∈ s.done) : n ∈ s.completed := mem_of_mem_take h

lemma Rings.congr (h : Rings order s) (hsame : SameRings s.queue queue) (threads : ℕ → Phase) :
    Rings order { s with queue, threads } where
  available := by rw [hsame.availableRings]; exact h.available
  availableIndex := by rw [hsame.availableIndex]; exact h.availableIndex
  fetched := h.fetched
  used := by rw [hsame.usedRings]; exact h.used
  usedIndex := by rw [hsame.usedIndex]; exact h.usedIndex
  lastUsed := by rw [hsame.lastUsed]; exact h.lastUsed
  handled := h.handled
  completed := h.completed
  early := h.early

lemma Rings.length_le (h : Rings order s) : s.fetched.length ≤ s.submitted.length := by
  have hlength := congrArg List.length h.fetched
  rw [length_take, length_map] at hlength
  omega

lemma Rings.head_eq (h : Rings order s) {i : ℕ} (hi : s.fetched[n]? = some i)
    (hn : s.submitted[n]? = some (head, tail)) : i = head := by
  rw [h.fetched, getElem?_take] at hi
  split at hi
  · rw [getElem?_map, hn] at hi
    exact (some.inj hi).symm
  · cases hi

lemma Fits.frame (h : Fits s p) (hdone : s.done ⊆ s'.done)
    (hsubmitted : ∀ (n : ℕ) (x : ℕ × ℕ), s.submitted[n]? = some x → s'.submitted[n]? = some x)
    (hq : ∀ i ∈ p.held s.done, s'.queue.descriptors i = s.queue.descriptors i ∧ s'.queue.locked i = s.queue.locked i) :
    Fits s' p := by
  have hlinked : ∀ {head tail}, (∀ i ∈ [head, tail], s'.queue.descriptors i = s.queue.descriptors i ∧
      s'.queue.locked i = s.queue.locked i) → Linked s.queue head tail → Linked s'.queue head tail := by
    intro head tail hq hl
    obtain ⟨hdhead, -⟩ := hq head (by simp)
    obtain ⟨hdtail, hltail⟩ := hq tail (by simp)
    exact ⟨hdhead.trans hl.first, by rw [hdtail, hl.second], hltail.trans hl.locked⟩
  cases p with
  | idle => trivial
  | allocated head tail => exact hlinked hq h
  | waiting n head tail =>
    refine ⟨hsubmitted n _ h.1, fun hn => ?_⟩
    have hn' : n ∉ s.done := fun hmem => hn (hdone hmem)
    rw [Phase.held, if_neg hn'] at hq
    exact hlinked hq (h.2 hn')
  | returned n tail => exact ⟨hdone h.1, (hq tail (mem_singleton_self tail)).2.trans h.2⟩

lemma held_update (s : State) (threads : ℕ → Phase) (hthreads : threads = update s.threads t p) :
    (fun u => (threads u).held s.done) = update s.held t (p.held s.done) := by
  funext u
  rw [hthreads]
  by_cases hu : u = t
  · rw [hu, update_self, update_self]
  · rw [update_of_ne hu, update_of_ne hu]
    rfl

section

variable (hs : Inv order s)
include hs

lemma Inv.held_of_waiting (ht : s.threads t = .waiting n head tail) (hn : n ∉ s.done) :
    s.held t = [head, tail] ∧ Linked s.queue head tail ∧ s.submitted[n]? = some (head, tail) := by
  have hfits := hs.fits t
  rw [ht] at hfits
  refine ⟨?_, hfits.2 hn, hfits.1⟩
  rw [State.held, ht, Phase.held, if_neg hn]

/-- **The chains that are not handled** have two descriptors each. -/
lemma Inv.two_mul_le {chains : List ℕ} (hnodup : chains.Nodup)
    (hchains : ∀ n ∈ chains, n < s.submitted.length ∧ n ∉ s.done) : 2 * chains.length ≤ 2 ^ order := by
  have hthread : ∀ n ∈ chains, ∃ t head tail, s.threads t = .waiting n head tail := fun n hn =>
    hs.waited n (hchains n hn).1 (hchains n hn).2
  choose! thread head tail hwaiting using hthread
  have hinj : (chains.map thread).Nodup := by
    refine hnodup.map_on fun n hn m hm heq => ?_
    have hphase := hwaiting n hn
    rw [heq, hwaiting m hm] at hphase
    exact (Phase.waiting.inj hphase).1.symm
  rw [← length_map (f := thread)]
  refine hs.apart.mul_length_le hinj fun t ht => ?_
  obtain ⟨n, hn, rfl⟩ := mem_map.mp ht
  rw [(hs.held_of_waiting (hwaiting n hn) (hchains n hn).2).1]
  rfl

lemma Inv.freeCount_lt (horder : order ≤ 15) : s.queue.freeCount + 1 < 2 ^ 16 := by
  have hle := hs.apart.length_le 0
  rw [Virtqueue.freeDescriptors, Virtqueue.length_walk] at hle
  have := Nat.pow_le_pow_right (by decide : 0 < 2) horder
  omega

lemma Inv.safe : Safe s := by
  refine ⟨fun t n tail ht => ?_, fun n head tail hn hnot => ?_⟩
  · have hfits := hs.fits t
    rw [ht] at hfits
    exact mem_completed hfits.1
  · have hdone : n ∉ s.done := fun h => hnot (mem_completed h)
    obtain ⟨t, head', tail', ht⟩ := hs.waited n (List.getElem?_eq_some_iff.mp hn).1 hdone
    obtain ⟨hheld, -, hsubmitted⟩ := hs.held_of_waiting ht hdone
    obtain ⟨rfl, rfl⟩ := Prod.mk.inj (some.inj (hn.symm.trans hsubmitted))
    exact ⟨hs.apart.not_mem_pool (t := t) (by simp [hheld]), hs.apart.not_mem_pool (t := t) (by simp [hheld])⟩

/-! ### The steps -/

lemma Inv.update
    (hapart : Pool.Apart (· < 2 ^ order) queue.freeDescriptors (update s.held t (p.held s.done)))
    (hqueue : ∀ u ≠ t, ∀ i ∈ s.held u, queue.descriptors i = s.queue.descriptors i ∧ queue.locked i = s.queue.locked i)
    (hsame : SameRings s.queue queue) (hfits : Fits { s with queue, threads := update s.threads t p } p)
    (hdone : ∀ n head tail, s.threads t = .waiting n head tail → n ∈ s.done) :
    Inv order { s with queue, threads := update s.threads t p } := by
  refine ⟨?_, fun u => ?_, fun n hn hnot => ?_, hs.rings.congr hsame _⟩
  · rw [← held_update s _ rfl] at hapart
    exact hapart
  · by_cases hu : u = t
    · simp only [hu, update_self]
      exact hfits
    · simp only [update_of_ne hu]
      exact (hs.fits u).frame (fun _ h => h) (fun _ _ h => h) (hqueue u hu)
  · obtain ⟨u, head, tail, hu⟩ := hs.waited n hn hnot
    have hne : u ≠ t := by
      rintro rfl
      exact hnot (hdone n head tail hu)
    exact ⟨u, head, tail, by simp only [update_of_ne hne, hu]⟩

lemma Inv.allocate (hguarded : s.queue.locked s.queue.freeList = true)
    (h : step order s (.allocate t) = some s') : Inv order s' := by
  rw [step] at h
  split at h
  case h_2 => cases h
  rename_i hidle
  obtain ⟨r, hr, rfl⟩ := map_eq_some_iff.mp h
  have hcount : 2 ≤ s.queue.freeCount := by
    by_contra hlt
    rw [Virtqueue.allocate, if_pos (by omega)] at hr
    cases hr
  have hnodup := (nodup_append'.mp (hs.apart.nodup t)).1
  obtain ⟨head, rest, q', hlist, hallocate, hrest, hq'⟩ := Virtqueue.allocate_two hcount hnodup
  obtain rfl : (q', head) = r := some.inj (hallocate.symm.trans hr)
  have hdescriptors : q'.descriptors = Function.update (Function.update s.queue.descriptors s.queue.freeList ⟨false, 0⟩)
    head
      ⟨true, s.queue.freeList⟩ := by rw [hq']
  have hlocked : q'.locked = s.queue.locked := by rw [hq']
  have hhead : q'.descriptors head = ⟨true, s.queue.freeList⟩ := by rw [hdescriptors, update_self]
  have hne : s.queue.freeList ≠ head := by
    rw [hlist, nodup_cons, mem_cons, not_or] at hnodup
    exact hnodup.1.1
  have hheld : s.held t = [] := by rw [State.held, hidle, Phase.held]
  dsimp only
  rw [hhead]
  refine hs.update ?_ (fun u hu i hi => ?_) ?_ ⟨hhead, ?_, ?_⟩ (fun n a b hw => ?_)
  · refine hs.apart.exchange (t := t) ?_
    rw [hrest, hlist, hheld, append_nil, Phase.held]
    exact perm_append_comm.trans (List.Perm.swap _ _ _)
  · -- what another thread has is not on the free list
    have hfree := hs.apart.not_mem_pool hi
    rw [hlist, mem_cons, mem_cons, not_or, not_or] at hfree
    rw [hdescriptors, update_of_ne hfree.2.1, update_of_ne hfree.1, hlocked]
    exact ⟨rfl, rfl⟩
  · rw [hq']
    exact ⟨rfl, rfl, rfl, rfl, rfl⟩
  · show (q'.descriptors s.queue.freeList).chained = false
    rw [hdescriptors, update_of_ne hne, update_self]
  · show q'.locked s.queue.freeList = true
    rw [hlocked, hguarded]
  · rw [hidle] at hw
    cases hw

end

lemma and_queueMask (n : ℕ) : n &&& queueMask order = n % 2 ^ order := Nat.and_two_pow_sub_one_eq_mod n order

lemma mod_mod_order (horder : order ≤ 15) (n : ℕ) : n % 2 ^ 16 % 2 ^ order = n % 2 ^ order :=
  Nat.mod_mod_of_dvd n (Nat.pow_dvd_pow 2 (by omega))

section

variable (hs : Inv order s)
include hs

lemma Inv.submit (horder : order ≤ 15) (h : step order s (.submit t) = some s') : Inv order s' := by
  rw [step] at h
  split at h
  case h_2 => cases h
  rename_i head tail ht
  obtain rfl := some.inj h
  have hr := hs.rings
  have hnew : s.submitted.length ∉ s.done := by
    intro hmem
    have := hr.early _ (mem_completed hmem)
    have := hr.length_le
    omega
  have hheld : s.held t = [head, tail] := by rw [State.held, ht, Phase.held]
  have hlinked : Linked s.queue head tail := by
    have hfits := hs.fits t
    rwa [ht] at hfits
  refine ⟨?_, fun u => ?_, fun n hn hnot => ?_, ?_, ?_, ?_, hr.used, hr.usedIndex, hr.lastUsed, hr.handled,
    hr.completed,
    hr.early⟩
  · have hperm : (s.queue.freeDescriptors ++ [head, tail]).Perm (s.queue.freeDescriptors ++ s.held t) := by rw [hheld]
    have hapart := hs.apart.exchange hperm
    have hphase : (Phase.waiting s.submitted.length head tail).held s.done = [head, tail] := if_neg hnew
    rw [← hphase, ← held_update s _ rfl] at hapart
    exact hapart
  · have happend : ∀ (n : ℕ) (x : ℕ × ℕ), s.submitted[n]? = some x → (s.submitted ++ [(head, tail)])[n]? = some x := by
      intro n x hn
      rw [getElem?_append_left (List.getElem?_eq_some_iff.mp hn).1, hn]
    by_cases hu : u = t
    · simp only [hu, update_self]
      exact ⟨getElem?_concat_length, fun _ => ⟨hlinked.first, hlinked.second, hlinked.locked⟩⟩
    · simp only [update_of_ne hu]
      exact (hs.fits u).frame (fun _ h => h) happend fun _ _ => ⟨rfl, rfl⟩
  · rw [length_append, length_singleton] at hn
    by_cases hlast : n = s.submitted.length
    · exact ⟨t, head, tail, by simp only [hlast, update_self]⟩
    · obtain ⟨u, head', tail', hu⟩ := hs.waited n (by omega) hnot
      have hne : u ≠ t := by
        rintro rfl
        rw [ht] at hu
        cases hu
      exact ⟨u, head', tail', by simp only [update_of_ne hne, hu]⟩
  · simp only [Virtqueue.submitChain, and_queueMask, hr.availableIndex, mod_mod_order horder]
    exact hr.available.push rfl
  · simp only [Virtqueue.submitChain, hr.availableIndex, length_append, length_singleton, Nat.mod_add_mod]
  · rw [map_append, take_append_of_le_length (by rw [length_map]; exact hr.length_le)]
    exact hr.fetched

lemma Inv.wake (h : step order s (.wake t) = some s') : Inv order s' := by
  rw [step] at h
  split at h
  case h_2 => cases h
  rename_i n head tail ht
  split at h
  · cases h
  rename_i hlocked
  obtain rfl := some.inj h
  -- the lock of a chain that is not handled is held
  have hdone : n ∈ s.done := by
    by_contra hnot
    exact hlocked (hs.held_of_waiting ht hnot).2.1.locked
  have hheld : s.held t = [tail] := by rw [State.held, ht, Phase.held, if_pos hdone]
  refine hs.update ?_ (fun u hu i hi => ⟨rfl, ?_⟩) ⟨rfl, rfl, rfl, rfl, rfl⟩ ⟨hdone, ?_⟩ (fun m a b hw => ?_)
  · exact hs.apart.exchange (t := t) (by rw [hheld, Phase.held]; rfl)
  · exact update_of_ne (hs.apart.ne hu hi (by rw [hheld]; exact mem_singleton_self tail)) _ _
  · exact update_self _ _ _
  · rw [ht] at hw
    obtain ⟨rfl, -⟩ := Phase.waiting.inj hw
    exact hdone

lemma Inv.free (horder : order ≤ 15) (h : step order s (.free t) = some s') : Inv order s' := by
  rw [step] at h
  split at h
  case h_2 => cases h
  rename_i n tail ht
  obtain rfl := some.inj h
  have hheld : s.held t = [tail] := by rw [State.held, ht, Phase.held]
  have hmem : tail ∈ s.held t := by rw [hheld]; exact mem_singleton_self tail
  have hfree := Virtqueue.freeDescriptors_free (hs.apart.not_mem_pool hmem) (hs.freeCount_lt horder)
  refine hs.update ?_ (fun u hu i hi => ⟨?_, rfl⟩) ⟨rfl, rfl, rfl, rfl, rfl⟩ trivial (fun m a b hw => ?_)
  · refine hs.apart.exchange (t := t) ?_
    rw [hfree, hheld, Phase.held, append_nil]
    exact (perm_append_singleton _ _).symm
  · exact update_of_ne (hs.apart.ne hu hi hmem) _ _
  · rw [ht] at hw
    cases hw

lemma Inv.fetch (h : step order s .fetch = some s') : Inv order s' := by
  rw [step] at h
  split at h
  · cases h
  rename_i hindex
  obtain rfl := some.inj h
  have hr := hs.rings
  have hle := hr.length_le
  rw [hr.availableIndex] at hindex
  have hlt : s.fetched.length < s.submitted.length := by
    rcases Nat.lt_or_ge s.fetched.length s.submitted.length with hlt | hge
    · exact hlt
    · rw [Nat.le_antisymm hle hge] at hindex
      exact absurd rfl hindex
  -- the chains that are not fetched are not handled
  have hpending : s.submitted.length ≤ s.fetched.length + 2 ^ order := by
    have hnodup : (List.range' s.fetched.length (s.submitted.length - s.fetched.length)).Nodup := nodup_range'
    have htwo := hs.two_mul_le hnodup fun n hn => by
      rw [mem_range'_1] at hn
      refine ⟨by omega, fun hdone => ?_⟩
      have := hr.early n (mem_completed hdone)
      omega
    rw [length_range'] at htwo
    omega
  obtain ⟨x, hx⟩ : ∃ x, s.submitted[s.fetched.length]? = some x := ⟨_, getElem?_eq_getElem hlt⟩
  have hring := hr.available _ x hx hpending
  refine ⟨hs.apart, hs.fits, hs.waited, hr.available, hr.availableIndex, ?_, ?_, hr.usedIndex, hr.lastUsed, hr.handled,
    hr.completed, fun n hn => ?_⟩
  · rw [length_append, length_singleton, take_add_one, ← hr.fetched, getElem?_map, hx, ← hring]
    rfl
  · refine hr.used.imp fun n hn i hi => ?_
    rw [getElem?_append_left (hr.early n hn), hi]
  · rw [length_append]
    exact Nat.lt_add_right _ (hr.early n hn)

lemma Inv.complete (horder : order ≤ 15) (h : step order s (.complete n) = some s') :
    Inv order s' := by
  rw [step] at h
  split at h
  · cases h
  rename_i hnew
  obtain ⟨head, hhead, rfl⟩ := map_eq_some_iff.mp h
  have hr := hs.rings
  have hdone : (s.completed ++ [n]).take s.handled = s.done := take_append_of_le_length hr.handled
  refine ⟨?_, fun t => ?_, fun m hm hnot => ?_, hr.available, hr.availableIndex, hr.fetched, ?_, ?_, hr.lastUsed, ?_,
    ?_,
    fun m hm => ?_⟩
  · have hheld : (fun t => (s.threads t).held ((s.completed ++ [n]).take s.handled)) = s.held := by
      rw [hdone]
      rfl
    have hapart := hs.apart
    rw [← hheld] at hapart
    exact hapart
  · exact (hs.fits t).frame (fun m hm => by rw [← hdone] at hm; exact hm) (fun _ _ h => h) fun _ _ => ⟨rfl, rfl⟩
  · exact hs.waited m hm fun hmem => hnot (by rw [← hdone] at hmem; exact hmem)
  · simp only [hr.usedIndex, mod_mod_order horder]
    exact hr.used.push hhead
  · simp only [hr.usedIndex, length_append, length_singleton, Nat.mod_add_mod]
  · rw [length_append]
    exact Nat.le_add_right_of_le hr.handled
  · rw [nodup_append]
    refine ⟨hr.completed, nodup_singleton n, fun m hm k hk => ?_⟩
    rintro rfl
    exact hnew (mem_singleton.mp hk ▸ hm)
  · rcases mem_append.mp hm with hm | hm
    · exact hr.early m hm
    · rw [mem_singleton.mp hm]
      exact (List.getElem?_eq_some_iff.mp hhead).1

end

/-! ### The interrupt -/

/-- **A chain of two descriptors** is released: the first one is free, and both are unlocked. -/
lemma Linked.release {q : Virtqueue} (h : Linked q head tail) (hne : head ≠ tail) (rounds : ℕ) :
    q.release (rounds + 2) head = some ({ q with
      locked := update (update q.locked head false) tail false }.free head) := by
  -- the round for the second descriptor
  have hsecond : ∀ locked : ℕ → Bool, locked tail = true → ({ q with locked }.free head).release (rounds + 1) tail =
      some ({ q with locked := update locked tail false }.free head) := by
    intro locked hlocked
    have hchained : (({ q with locked }.free head).descriptors tail).chained = false := by
      simp only [Virtqueue.free, update_of_ne (Ne.symm hne), h.second]
    rw [Virtqueue.release]
    simp only [hchained, Bool.false_eq_true, if_false]
    exact if_pos hlocked
  rw [Virtqueue.release]
  simp only [h.first, if_true]
  split
  · exact hsecond _ (by rw [update_of_ne (Ne.symm hne), h.locked])
  · rename_i hunlocked
    have hsame : update q.locked head false = q.locked := by
      rw [update_eq_self_iff]
      exact (Bool.eq_false_iff.mpr hunlocked).symm
    rw [hsame]
    exact hsecond q.locked h.locked

section

variable (hs : Inv order s)
include hs

lemma Inv.waiting_unique {u head' tail' : ℕ} (ht : s.threads t = .waiting n head tail)
    (hu : s.threads u = .waiting n head' tail') (hn : n ∉ s.done) : u = t := by
  by_contra hne
  obtain ⟨hheld, -, hsubmitted⟩ := hs.held_of_waiting ht hn
  obtain ⟨hheld', -, hsubmitted'⟩ := hs.held_of_waiting hu hn
  obtain ⟨rfl, rfl⟩ := Prod.mk.inj (some.inj (hsubmitted.symm.trans hsubmitted'))
  exact hs.apart.ne hne (i := head) (j := head) (by simp [hheld']) (by simp [hheld]) rfl

lemma Inv.pending_lt : s.completed.length < s.handled + 2 ^ order := by
  have hr := hs.rings
  have hpos := Nat.two_pow_pos order
  have hsplit := hr.completed
  rw [← take_append_drop s.handled s.completed, nodup_append'] at hsplit
  have htwo := hs.two_mul_le hsplit.2.1 fun n hn => by
    have := hr.early n (mem_of_mem_drop hn)
    have := hr.length_le
    exact ⟨by omega, fun hdone => hsplit.2.2 hdone hn⟩
  rw [length_drop] at htwo
  omega

lemma Inv.next_used (hlt : s.handled < s.completed.length) :
    ∃ n t head tail, s.completed.take (s.handled + 1) = s.done ++ [n] ∧ n ∉ s.done ∧ n < s.submitted.length ∧
      s.threads t = .waiting n head tail ∧ s.queue.usedRings (s.handled % 2 ^ order) = head := by
  have hr := hs.rings
  obtain ⟨n, hn⟩ : ∃ n, s.completed[s.handled]? = some n := ⟨_, getElem?_eq_getElem hlt⟩
  have htake : s.completed.take (s.handled + 1) = s.done ++ [n] := by
    rw [take_add_one, hn]
    rfl
  have hdone : n ∉ s.done := by
    have hnodup := (take_sublist (s.handled + 1) s.completed).nodup hr.completed
    rw [htake, nodup_append] at hnodup
    exact fun hmem => hnodup.2.2 n hmem n (mem_singleton_self n) rfl
  have hsubmitted : n < s.submitted.length :=
    Nat.lt_of_lt_of_le (hr.early n (mem_of_getElem? hn)) hr.length_le
  obtain ⟨t, head, tail, ht⟩ := hs.waited n hsubmitted hdone
  exact ⟨n, t, head, tail, htake, hdone, hsubmitted, ht,
    hr.head_eq (hr.used _ n hn (Nat.le_of_lt hs.pending_lt)) (hs.held_of_waiting ht hdone).2.2⟩

lemma Inv.held_done (ht : s.threads t = .waiting n head tail) (hdone : n ∉ s.done) :
    (fun u => (s.threads u).held (s.done ++ [n])) = Function.update s.held t [tail] := by
  funext u
  by_cases hu : u = t
  · rw [hu, update_self, ht, Phase.held, if_pos (mem_append_right _ (mem_singleton_self n))]
  · rw [update_of_ne hu, State.held]
    cases hphase : s.threads u with
    | waiting m head' tail' =>
      have hm : m ≠ n := by
        rintro rfl
        exact hu (hs.waiting_unique ht hphase hdone)
      simp only [Phase.held, mem_append, mem_singleton, hm, or_false]
    | _ => rfl

lemma Inv.handle (horder : order ≤ 15) (hlt : s.handled < s.completed.length) :
    ∃ q, s.queue.release (2 ^ order) (s.queue.usedRings (s.handled % 2 ^ order)) = some q ∧ Inv order { s with
        queue := { q with lastUsed := (q.lastUsed + 1) &&& queueMask order }
        handled := s.handled + 1 } := by
  have hr := hs.rings
  obtain ⟨n, t, head, tail, htake, hdone, hsubmitted, ht, hhead⟩ := hs.next_used hlt
  obtain ⟨hheld, hlinked, hchain⟩ := hs.held_of_waiting ht hdone
  have hnodup := (nodup_append'.mp (hs.apart.nodup t)).2.1
  have hne : head ≠ tail := by
    rw [hheld] at hnodup
    simpa using hnodup
  have htwo : 2 ≤ 2 ^ order := by
    have := hs.two_mul_le (nodup_singleton n) fun m hm => by
      rw [mem_singleton.mp hm]
      exact ⟨hsubmitted, hdone⟩
    exact this
  obtain ⟨rounds, hrounds⟩ := Nat.exists_eq_add_of_le' htwo
  refine ⟨_, by rw [hhead, hrounds, hlinked.release hne], ?_, fun u => ?_, fun m hm hnot => ?_, ?_⟩
  · -- the first descriptor goes from the thread to the free list
    have hfree : head ∉ s.queue.freeDescriptors := hs.apart.not_mem_pool (t := t) (by simp [hheld])
    have hlist := Virtqueue.freeDescriptors_free hfree (hs.freeCount_lt horder)
    have hperm : ((head :: s.queue.freeDescriptors) ++ [tail]).Perm (s.queue.freeDescriptors ++ s.held t) := by
      rw [hheld]
      exact perm_middle.symm
    have hapart := hs.apart.exchange hperm
    rw [← hlist, ← hs.held_done ht hdone, ← htake] at hapart
    exact hapart
  · have hsub : s.done ⊆ s.completed.take (s.handled + 1) := by
      rw [htake]
      exact subset_append_left _ _
    by_cases hu : u = t
    · have hphase : s.threads u = .waiting n head tail := by rw [hu, ht]
      simp only [hphase]
      refine ⟨hchain, fun hnot => absurd ?_ hnot⟩
      show n ∈ s.completed.take (s.handled + 1)
      rw [htake]
      exact mem_append_right _ (mem_singleton_self n)
    · refine (hs.fits u).frame hsub (fun _ _ h => h) fun i hi => ?_
      have hih : i ≠ head := hs.apart.ne hu hi (by simp [hheld])
      have hit : i ≠ tail := hs.apart.ne hu hi (by simp [hheld])
      simp only [Virtqueue.free, update_of_ne hih, update_of_ne hit, and_self]
  · refine hs.waited m hm fun hmem => hnot ?_
    show m ∈ s.completed.take (s.handled + 1)
    rw [htake]
    exact mem_append_left _ hmem
  · refine ⟨hr.available, hr.availableIndex, hr.fetched, hr.used, hr.usedIndex, ?_, hlt, hr.completed, hr.early⟩
    simp only [Virtqueue.free, and_queueMask, hr.lastUsed, Nat.mod_add_mod]

end

lemma Inv.irqLoop (horder : order ≤ 15) : ∀ (rounds : ℕ) {s : State}, Inv order s →
    s.completed.length < s.handled + rounds → ∃ q, s.queue.irqLoop order rounds (s.handled % 2 ^ order) = some q ∧
      Inv order { s with queue := q, handled := s.completed.length }
  | 0, s, hs, hrounds => by
    have := hs.rings.handled
    omega
  | rounds + 1, s, hs, hrounds => by
    have hr := hs.rings
    have husedIndex : s.queue.usedIndex &&& queueMask order = s.completed.length % 2 ^ order := by
      rw [and_queueMask, hr.usedIndex, mod_mod_order horder]
    rcases Nat.lt_or_eq_of_le hr.handled with hlt | heq
    · obtain ⟨q, hrelease, hs'⟩ := hs.handle horder hlt
      obtain ⟨q', hloop, hs''⟩ := Inv.irqLoop horder rounds hs' (by dsimp only; omega)
      have hnext : (s.handled % 2 ^ order + 1) &&& queueMask order = (s.handled + 1) % 2 ^ order := by
        rw [and_queueMask, Nat.mod_add_mod]
      refine ⟨q', ?_, hs''⟩
      rw [Virtqueue.irqLoop, husedIndex, if_neg (Ring.mod_ne hlt hs.pending_lt), hrelease, bind_some, hnext]
      exact hloop
    · refine ⟨s.queue, ?_, ?_⟩
      · rw [Virtqueue.irqLoop, husedIndex, heq, if_pos rfl]
      · rw [← heq]
        exact hs

lemma Inv.interrupt (hs : Inv order s) (horder : order ≤ 15) (h : step order s .interrupt = some s') :
    Inv order s' := by
  obtain ⟨q, hloop, hs'⟩ := hs.irqLoop horder (2 ^ order) hs.pending_lt
  rw [step, Virtqueue.irqHandler, hs.rings.lastUsed, hloop] at h
  obtain rfl := some.inj h
  exact hs'

lemma Inv.step (hs : Inv order s) (horder : order ≤ 15) {op : Step} (hguarded : Guarded s op)
    (h : step order s op = some s') : Inv order s' := by
  cases op with
  | allocate t => exact hs.allocate hguarded h
  | submit t => exact hs.submit horder h
  | wake t => exact hs.wake h
  | free t => exact hs.free horder h
  | fetch => exact hs.fetch h
  | complete n => exact hs.complete horder h
  | interrupt => exact hs.interrupt horder h

lemma setup_spec (horder : order ≤ 15) :
    (Virtqueue.setup (2 ^ order)).freeDescriptors = (List.range (2 ^ order)).reverse ∧
    (Virtqueue.setup (2 ^ order)).locked = (fun i => decide (i < 2 ^ order)) ∧
    (Virtqueue.setup (2 ^ order)).availableIndex = 0 ∧ (Virtqueue.setup (2 ^ order)).usedIndex = 0 ∧
    (Virtqueue.setup (2 ^ order)).lastUsed = 0 := by
  have hlt : 2 ^ order < 2 ^ 16 := Nat.pow_lt_pow_right (by decide) (by omega)
  obtain ⟨hlist, -, hlocked, hsame⟩ := Virtqueue.setup_loop (Virtqueue.blank (2 ^ order)) rfl (2 ^ order) hlt
  exact ⟨hlist, hlocked, hsame.availableIndex, hsame.usedIndex, hsame.lastUsed⟩

lemma inv_init (horder : order ≤ 15) : Inv order (init order) := by
  obtain ⟨hlist, -, havailable, hused, hlast⟩ := setup_spec horder
  refine ⟨⟨fun t => ?_, fun t u _ i hi => ?_, fun t i hi => ?_⟩, fun t => trivial, fun n hn =>
    absurd hn (Nat.not_lt_zero n),
    nofun, havailable, rfl, nofun, hused, ?_, Nat.le_refl 0, nodup_nil, nofun⟩
  · show ((Virtqueue.setup (2 ^ order)).freeDescriptors ++ []).Nodup
    rw [hlist, append_nil, nodup_reverse]
    exact nodup_range
  · cases hi
  · have hmem : i ∈ (Virtqueue.setup (2 ^ order)).freeDescriptors ++ [] := hi
    rw [hlist, append_nil, mem_reverse, mem_range] at hmem
    exact hmem
  · show (Virtqueue.setup (2 ^ order)).lastUsed = 0 % 2 ^ order
    rw [hlast, Nat.zero_mod]

end

/-- **Commands on a virtqueue.** In every run in which each allocation finds a descriptor on top of
the free list whose lock is held, commands return when they are completed and not before, and
no descriptor that the device has is free. -/
theorem commands_safe (order : ℕ) (horder : order ≤ 15) (ops : List Step) (s : State)
    (hguarded : Along (step order) Guarded (init order) ops) (hrun : run (step order) (init order) ops = some s) :
    Safe s :=
  (run_invariant_along (step order) (fun _ _ _ hs hC h => hs.step horder hC h) ops _ s (inv_init horder) hguarded
    hrun).safe

/-! ### One thread -/

def Step.thread : Step → Option ℕ
  | .allocate t => some t
  | .submit t => some t
  | .wake t => some t
  | .free t => some t
  | _ => none

/-- Only `t` sends commands; between two of them the descriptor on top of the free list is locked. -/
structure Alone (order t : ℕ) (s : State) : Prop where
  inv : Inv order s
  others : ∀ u ≠ t, s.threads u = .idle
  top : s.threads t = .idle → s.queue.locked s.queue.freeList = true

section

variable {order t : ℕ} {s s' : State}

lemma Alone.busy (hs : Alone order t s) {p : Phase} (hp : p ≠ .idle) {submitted : List (ℕ × ℕ)}
    (hinv : Inv order { s with queue, threads := update s.threads t p, submitted }) :
    Alone order t { s with queue, threads := update s.threads t p, submitted } := by
  refine ⟨hinv, fun u hu => ?_, fun hidle => ?_⟩
  · simp only [update_of_ne hu]
    exact hs.others u hu
  · simp only [update_self] at hidle
    exact absurd hidle hp

lemma Alone.irqHandler (hs : Alone order t s) (horder : order ≤ 15) (hidle : s.threads t = .idle) :
    s.queue.irqHandler order = some s.queue := by
  have hr := hs.inv.rings
  have hall : ∀ u, s.threads u = .idle := by
    intro u
    by_cases hu : u = t
    · rw [hu, hidle]
    · exact hs.others u hu
  have heq : s.handled = s.completed.length := by
    by_contra hne
    have hlt : s.handled < s.completed.length := by
      have := hr.handled
      omega
    have hsplit := hr.completed
    rw [← take_append_drop s.handled s.completed, nodup_append'] at hsplit
    have hmem : s.completed[s.handled] ∈ s.completed.drop s.handled := by
      rw [drop_eq_getElem_cons hlt]
      exact mem_cons_self
    have hearly := hr.early _ (getElem_mem hlt)
    have hle := hr.length_le
    obtain ⟨u, head, tail, hu⟩ := hs.inv.waited _ (by omega) fun hdone => hsplit.2.2 hdone hmem
    rw [hall u] at hu
    cases hu
  obtain ⟨rounds, hrounds⟩ := Nat.exists_eq_add_of_le' (Nat.two_pow_pos order)
  rw [Virtqueue.irqHandler, hrounds, Virtqueue.irqLoop, and_queueMask, hr.usedIndex, mod_mod_order horder, hr.lastUsed,
    heq,
    if_pos rfl]

section

variable (hs : Alone order t s) {op : Step} (hthread : ∀ u ∈ op.thread, u = t) (h : step order s op = some s')
include hs hthread h

lemma Alone.guarded : Guarded s op := by
  cases op with
  | allocate u =>
    obtain rfl := hthread u rfl
    rw [Virtio.step] at h
    split at h
    case h_2 => cases h
    rename_i hidle
    exact hs.top hidle
  | _ => trivial

lemma Alone.step (horder : order ≤ 15) : Alone order t s' := by
  have hinv := hs.inv.step horder (hs.guarded hthread h) h
  cases op with
  | allocate u =>
    obtain rfl := hthread u rfl
    rw [Virtio.step] at h
    split at h
    case h_2 => cases h
    obtain ⟨r, -, rfl⟩ := map_eq_some_iff.mp h
    exact hs.busy (fun hp => by cases hp) hinv
  | submit u =>
    obtain rfl := hthread u rfl
    rw [Virtio.step] at h
    split at h
    case h_2 => cases h
    obtain rfl := some.inj h
    exact hs.busy (fun hp => by cases hp) hinv
  | wake u =>
    obtain rfl := hthread u rfl
    rw [Virtio.step] at h
    split at h
    case h_2 => cases h
    split at h
    · cases h
    obtain rfl := some.inj h
    exact hs.busy (fun hp => by cases hp) hinv
  | free u =>
    obtain rfl := hthread u rfl
    have hfits := hs.inv.fits u
    rw [Virtio.step] at h
    split at h
    case h_2 => cases h
    rename_i hreturned
    obtain rfl := some.inj h
    rw [hreturned] at hfits
    refine ⟨hinv, fun v hv => ?_, fun _ => hfits.2⟩
    simp only [update_of_ne hv]
    exact hs.others v hv
  | fetch =>
    rw [Virtio.step] at h
    split at h
    · cases h
    obtain rfl := some.inj h
    exact ⟨hinv, hs.others, hs.top⟩
  | complete n =>
    rw [Virtio.step] at h
    split at h
    · cases h
    obtain ⟨head, -, rfl⟩ := map_eq_some_iff.mp h
    exact ⟨hinv, hs.others, hs.top⟩
  | interrupt =>
    rw [Virtio.step] at h
    obtain ⟨q, hq, rfl⟩ := map_eq_some_iff.mp h
    refine ⟨hinv, hs.others, fun hidle => ?_⟩
    obtain rfl := some.inj ((hs.irqHandler horder hidle).symm.trans hq)
    exact hs.top hidle

end

lemma alone_init (horder : order ≤ 15) (t : ℕ) : Alone order t (init order) := by
  refine ⟨inv_init horder, fun _ _ => rfl, fun _ => ?_⟩
  obtain ⟨hlist, hlocked, -⟩ := setup_spec horder
  have hpos := Nat.two_pow_pos order
  show (Virtqueue.setup (2 ^ order)).locked (Virtqueue.setup (2 ^ order)).freeList = true
  have hmem : (Virtqueue.setup (2 ^ order)).freeList ∈ (Virtqueue.setup (2 ^ order)).freeDescriptors := by
    have hlength := congrArg List.length hlist
    rw [length_reverse, length_range, Virtqueue.freeDescriptors, Virtqueue.length_walk] at hlength
    obtain ⟨n, hn⟩ := Nat.exists_eq_add_of_le' hpos
    rw [Virtqueue.freeDescriptors, hlength, hn]
    exact mem_cons_self
  rw [hlist, mem_reverse, mem_range] at hmem
  rw [hlocked]
  exact decide_eq_true hmem

/-- **One thread** that sends commands finds a locked descriptor at every allocation, and is always safe. -/
theorem single_thread_safe (horder : order ≤ 15) (t : ℕ) (ops : List Step)
    (hthread : ∀ op ∈ ops, ∀ u ∈ op.thread, u = t) (hrun : run (step order) (init order) ops = some s) :
    Along (step order) Guarded (init order) ops ∧ Safe s := by
  have halong := along_of_run (step order) (I := Alone order t) (C := Guarded)
    (fun _ _ _ hs hop h => ⟨hs.guarded hop h, hs.step hop h horder⟩) ops _ s (alone_init horder t) hthread hrun
  exact ⟨halong, (run_invariant_along (step order) (fun _ _ _ hs hC h => hs.step horder hC h) ops _ s
    (inv_init horder) halong hrun).safe⟩

end

theorem single_thread_safe_twice :
    let ops : List Step := [.allocate 1, .submit 1, .fetch, .complete 0, .interrupt, .wake 1, .free 1, .allocate 1,
      .submit 1]
    ∃ s, run (step 2) (init 2) ops = some s ∧ s.completed = [0] ∧ s.submitted.length = 2 ∧
      Along (step 2) Guarded (init 2) ops ∧ Safe s := by
  intro ops
  obtain ⟨s, hrun, hcompleted, hsubmitted⟩ := @exists_run _ _ (step 2)
    (fun s => s.completed = [0] ∧ s.submitted.length = 2) _ (init 2) ops (by decide +kernel)
  exact ⟨s, hrun, hcompleted, hsubmitted, single_thread_safe (by decide) 1 ops (by decide) hrun⟩

/-- Two threads on a queue of four descriptors; the device completes the second command first. -/
theorem commands_safe_two :
    let ops : List Step := [.allocate 1, .submit 1, .allocate 2, .submit 2, .fetch, .fetch, .complete 1, .interrupt,
      .wake 2,
      .free 2, .complete 0, .interrupt, .wake 1, .free 1]
    ∃ s, run (step 2) (init 2) ops = some s ∧ s.completed = [1, 0] ∧ Safe s := by
  intro ops
  obtain ⟨s, hrun, hcompleted⟩ := @exists_run _ _ (step 2) (fun s => s.completed = [1, 0]) _ (init 2) ops
    (by decide +kernel)
  exact ⟨s, hrun, hcompleted, commands_safe 2 (by decide) ops s (by decide +kernel) hrun⟩

/-- A second thread takes the first descriptor of a completed chain as its second one. It goes on at
once, and frees it, though the device has not even fetched its chain. -/
theorem command_returns_early :
    let ops : List Step := [.allocate 1, .submit 1, .fetch, .complete 0, .interrupt, .allocate 2, .submit 2, .wake 2]
    (∃ s, run (step 2) (init 2) ops = some s ∧ s.threads 2 = .returned 1 2 ∧ 1 ∉ s.completed) ∧
      ∃ s, run (step 2) (init 2) (ops ++ [.free 2]) = some s ∧ s.submitted[1]? = some (1, 2) ∧ 1 ∉ s.completed ∧
        2 ∈ s.queue.freeDescriptors :=
  ⟨exists_run (step 2) (by decide +kernel), exists_run (step 2) (by decide +kernel)⟩

end WivOS.Virtio
