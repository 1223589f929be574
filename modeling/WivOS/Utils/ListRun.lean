/-
# Runs of the list operations

`list_push_front`, `list_pop`, `list_get_front`, `list_get_back`, `list_contains`, `list_get_indexed` and
`list_remove_indexed` of `kernel/utils/lists.c`, and what each removal returns. `NULL` is `none`; `list_remove` of no
node is a fault. The walk from `root` (`forward`) and the walk from `tail` (`backward`) always meet the same nodes, and
every operation does to the values what it should do to a sequence (`Op.spec`).
-/
import Mathlib.Data.List.Induction
import WivOS.Lib.Machine
import WivOS.Utils.Lists

namespace WivOS.Lists

open Function Linked List Option Machine

variable {α : Type*}

namespace ListT

def pushFront (l : ListT α) (value : α) : Option (ListT α) :=
  let heap := update l.heap l.fresh (some ⟨value, none, l.root⟩)
  match l.root with
  | none => some ⟨heap, l.fresh + 1, some l.fresh, some l.fresh, l.length + 1⟩
  | some r => (heap r).map fun first =>
      ⟨update heap r (some { first with previous := some l.fresh }), l.fresh + 1, some l.fresh, l.tail, l.length + 1⟩

def pop (l : ListT α) : Option (Option ℕ × ListT α) :=
  match l.tail with
  | none => some (none, l)
  | some t => (l.heap t).bind fun node =>
      match node.previous with
      | none => some (some t, { l with root := none, tail := none, length := l.length - 1 })
      | some p => (l.heap p).map fun last => (some t, { l with
          heap := update l.heap p (some { last with next := none })
          tail := some p
          length := l.length - 1 })

def valueAt (l : ListT α) : Option ℕ → Option (Option α)
  | none => some none
  | some i => (l.heap i).map fun node => some node.value

def getFront (l : ListT α) : Option (Option α) := l.valueAt l.root

def getBack (l : ListT α) : Option (Option α) := l.valueAt l.tail

def indexBody (index currentIndex i : ℕ) (_ : α) : Option (ℕ ⊕ ℕ) :=
  some (if currentIndex = index then .inl i else .inr (currentIndex + 1))

def getIndexed (l : ListT α) (index : ℕ) : Option (Option ℕ) :=
  (l.forEach (indexBody index) 0).map fun
    | .inl i => some i
    | .inr _ => none

def containsBody [DecidableEq α] (value : α) (index _ : ℕ) (v : α) : Option (ℕ ⊕ ℕ) :=
  some (if v = value then .inl index else .inr (index + 1))

def contains [DecidableEq α] (l : ListT α) (value : α) : Option ℕ :=
  (l.forEach (containsBody value) 0).map (Sum.elim id id)

end ListT

inductive Op (α : Type*) where
  | pushBack (value : α)
  | pushFront (value : α)
  | removeBack
  | removeFront
  | pop
  | remove (node : ℕ)
  | removeIndexed (index : ℕ)

inductive Returned (α : Type*) where
  | node (i : Option ℕ)
  | value (v : Option α)

def removeNode (l : ListT α) (i : ℕ) : Option (Returned α × ListT α) :=
  (l.heap i).bind fun node => (l.remove i).map fun l' => (.value node.value, l')

def exec (l : ListT α) : Op α → Option (Returned α × ListT α)
  | .pushBack value => (l.pushBack value).map fun l' => (.node l.fresh, l')
  | .pushFront value => (l.pushFront value).map fun l' => (.node l.fresh, l')
  | .removeBack => l.getBack.bind fun value => l.removeBack.map fun l' => (.value value, l')
  | .removeFront => l.getFront.bind fun value => l.removeFront.map fun l' => (.value value, l')
  | .pop => l.pop.map fun r => (.node r.1, r.2)
  | .remove i => removeNode l i
  | .removeIndexed index => (l.getIndexed index).bind fun node => node.bind fun i => removeNode l i

def step (l : ListT α) (op : Op α) : Option (ListT α) := (exec l op).map Prod.snd

/-- The value that was returned, or that of the node that was. -/
def Returned.read (l : ListT α) : Returned α → Option α
  | .node i => i.bind fun i => (l.heap i).map Node.value
  | .value v => v

/-! ### Walking a list -/

/-- The nodes from `start` on along a link; with more steps than there are nodes it would come to
one again. -/
def walk (link : Node α → Option ℕ) (heap : Heap α) : ℕ → Option ℕ → Option (List ℕ)
  | _, none => some []
  | 0, some _ => none
  | n + 1, some i => (heap i).bind fun node => (walk link heap n (link node)).map (i :: ·)

def forward (l : ListT α) : Option (List ℕ) := walk Node.next l.heap l.fresh l.root

def backward (l : ListT α) : Option (List ℕ) := walk Node.previous l.heap l.fresh l.tail

/-- A node that is in the list, and an index below the length. -/
def Legal (l : ListT α) : Op α → Prop
  | .remove i => ∃ nodes ∈ forward l, i ∈ nodes
  | .removeIndexed index => index < l.length
  | _ => True

instance (l : ListT α) : ∀ op, Decidable (Legal l op)
  | .remove i => inferInstanceAs (Decidable (∃ nodes ∈ forward l, i ∈ nodes))
  | .removeIndexed index => inferInstanceAs (Decidable (index < l.length))
  | .pushBack _ | .pushFront _ | .removeBack | .removeFront | .pop => inferInstanceAs (Decidable True)

structure Doubly (l : ListT α) (nodes : List ℕ) (values : List α) : Prop where
  forward : forward l = some nodes
  backward : backward l = some nodes.reverse
  length : l.length = nodes.length
  root : l.root = none ↔ nodes = []
  tail : l.tail = none ↔ nodes = []
  values : nodes.map (fun i => (l.heap i).map Node.value) = values.map some

/-- What an operation should return, and do to the values of the nodes. -/
def Op.spec (nodes : List ℕ) (values : List α) : Op α → Option α × List α
  | .pushBack value => (some value, values ++ [value])
  | .pushFront value => (some value, value :: values)
  | .removeBack | .pop => (values.getLast?, values.dropLast)
  | .removeFront => (values.head?, values.tail)
  | .remove i => (values[nodes.idxOf i]?, values.eraseIdx (nodes.idxOf i))
  | .removeIndexed index => (values[index]?, values.eraseIdx index)

variable {x : ℕ × α} {a b : List (ℕ × α)} {index : ℕ}

section

variable {l : ListT α} {xs : List (ℕ × α)}

lemma walk_next {heap : Heap α} : ∀ {xs : List (ℕ × α)} {prev start last : Option ℕ} {n : ℕ},
    Seg heap prev start xs last none → xs.length ≤ n → walk Node.next heap n start = some (xs.map Prod.fst)
  | [], _, _, _, n, h, _ => by
    rw [h.2]
    cases n <;> rfl
  | _ :: _, _, _, _, 0, _, hn => absurd hn (Nat.not_succ_le_zero _)
  | x :: xs, _, _, _, n + 1, ⟨rfl, next, hx, hxs⟩, hn => by
    rw [walk, hx, bind_some, walk_next hxs (Nat.le_of_succ_le_succ hn)]
    rfl

lemma walk_previous {heap : Heap α} {start : Option ℕ} (xs : List (ℕ × α)) : ∀ {last stop : Option ℕ} {n : ℕ},
    Seg heap none start xs last stop → xs.length ≤ n →
      walk Node.previous heap n last = some (xs.map Prod.fst).reverse := by
  induction xs using List.reverseRecOn with
  | nil =>
    intro last stop n h _
    rw [h.1]
    cases n <;> rfl
  | append_singleton xs x ih =>
    intro last stop n h hn
    obtain ⟨before, hxs, rfl, hx⟩ := seg_concat.mp h
    rw [length_append] at hn
    cases n with
    | zero => exact absurd hn (Nat.not_succ_le_zero _)
    | succ n =>
      rw [walk, hx, bind_some, ih hxs (Nat.le_of_succ_le_succ hn), map_append, reverse_append]
      rfl

lemma Represents.doubly (h : Represents l xs) : Doubly l (xs.map Prod.fst) (xs.map Prod.snd) where
  forward := walk_next h.seg h.room
  backward := walk_previous xs h.seg h.room
  length := by rw [h.length, length_map]
  root := by
    rw [map_eq_nil_iff]
    constructor
    · intro hroot
      by_contra hne
      obtain ⟨x, -, hx⟩ := h.seg.start_mem hne
      rw [hroot] at hx
      cases hx
    · rintro rfl
      exact h.seg.2
  tail := by
    rw [map_eq_nil_iff]
    constructor
    · intro htail
      by_contra hne
      obtain ⟨x, -, hx⟩ := h.seg.last_mem hne
      rw [htail] at hx
      cases hx
    · rintro rfl
      exact h.seg.1
  values := by
    rw [List.map_map, List.map_map]
    exact map_congr_left fun x hx => h.seg.value_of_mem hx

/-! ### The operations -/

lemma Represents.cons (h : Represents l xs) (value : α) {l' : ListT α}
    (hseg : Seg l'.heap none l'.root ((l.fresh, value) :: xs) l'.tail none) (hfresh : l'.fresh = l.fresh + 1)
    (hlength : l'.length = l.length + 1) : Represents l' ((l.fresh, value) :: xs) where
  seg := hseg
  nodup := nodup_cons.mpr ⟨h.fresh_not_mem, h.nodup⟩
  fresh := by
    intro x hx
    rw [hfresh]
    rcases mem_cons.mp hx with rfl | hx
    · exact Nat.lt_succ_self _
    · exact Nat.lt_succ_of_lt (h.fresh x hx)
  room := by
    rw [hfresh]
    exact Nat.succ_le_succ h.room
  length := by rw [hlength, h.length, length_cons]

lemma Represents.pushFront (h : Represents l xs) (value : α) :
    ∃ l', l.pushFront value = some l' ∧ Represents l' ((l.fresh, value) :: xs) := by
  have hnew := h.fresh_not_mem
  cases xs with
  | nil =>
    obtain ⟨htail, hroot⟩ := h.seg
    have hpush : l.pushFront value = some ⟨update l.heap l.fresh (some ⟨value, none, none⟩), l.fresh + 1,
        some l.fresh, some l.fresh, l.length + 1⟩ := by
      simp only [ListT.pushFront, hroot]
    exact ⟨_, hpush, h.cons value (seg_singleton.mpr ⟨rfl, rfl, update_self ..⟩) rfl rfl⟩
  | cons x xs =>
    obtain ⟨hroot, next, hx, hxs⟩ := h.seg
    have hne : x.1 ≠ l.fresh := Nat.ne_of_lt (h.fresh x mem_cons_self)
    have hx' : update l.heap l.fresh (some ⟨value, none, some x.1⟩) x.1 = some ⟨x.2, none, next⟩ := by
      rw [update_of_ne hne, hx]
    have hpush : l.pushFront value = some ⟨update (update l.heap l.fresh (some ⟨value, none, some x.1⟩)) x.1
        (some ⟨x.2, some l.fresh, next⟩), l.fresh + 1, some l.fresh, l.tail, l.length + 1⟩ := by
      simp only [ListT.pushFront, hroot, hx', map_some]
    have hnodup := h.nodup
    rw [map_cons, nodup_cons] at hnodup
    rw [map_cons, mem_cons, not_or] at hnew
    refine ⟨_, hpush, h.cons value ⟨rfl, some x.1, ?_, rfl, next, ?_, ?_⟩ rfl rfl⟩
    · exact (update_of_ne (Ne.symm hne) ..).trans (update_self ..)
    · exact update_self ..
    · exact (hxs.update hnew.2 _).update hnodup.1 _

lemma Represents.pop (h : Represents l (a ++ [x])) :
    ∃ l', l.pop = some (some x.1, l') ∧ Represents l' a ∧ (l'.heap x.1).map Node.value = some x.2 := by
  have hvalue := h.seg.value_of_mem (mem_append_right a mem_cons_self)
  have hxa := h.last_not_mem
  obtain rfl | ⟨a, y, rfl⟩ := a.eq_nil_or_concat'
  · obtain ⟨-, htail, hx⟩ := seg_singleton.mp h.seg
    have hpop : l.pop = some (some x.1, { l with root := none, tail := none, length := l.length - 1 }) := by
      simp only [ListT.pop, htail, hx, bind_some]
    exact ⟨_, hpop, h.withoutLast ⟨rfl, rfl⟩ rfl rfl, hvalue⟩
  · obtain ⟨before, htail, hx, hy, hseg⟩ := h.seg_unlinked
    have hpop : l.pop = some (some x.1, { l with
        heap := update l.heap y.1 (some ⟨y.2, before, none⟩)
        tail := some y.1
        length := l.length - 1 }) := by
      simp only [ListT.pop, htail, hx, bind_some, hy, map_some]
    have hne : x.1 ≠ y.1 := fun he => hxa (by simp [he])
    refine ⟨_, hpop, h.withoutLast hseg rfl rfl, ?_⟩
    dsimp only
    rw [update_of_ne hne, hvalue]

lemma Represents.getBack (h : Represents l (a ++ [x])) : l.getBack = some (some x.2) := by
  obtain ⟨before, -, htail, hx⟩ := seg_concat.mp h.seg
  rw [ListT.getBack, htail, ListT.valueAt, hx, map_some]

lemma Represents.getFront (h : Represents l (x :: b)) : l.getFront = some (some x.2) := by
  obtain ⟨hroot, next, hx, -⟩ := h.seg
  rw [ListT.getFront, hroot, ListT.valueAt, hx, map_some]

lemma loop_indexBody : ∀ (a : List (ℕ × α)) (currentIndex : ℕ),
    loop (ListT.indexBody (currentIndex + a.length)) (a ++ x :: b) currentIndex = some (.inl x.1)
  | [], currentIndex => by
    simp [loop, ListT.indexBody]
  | y :: a, currentIndex => by
    have hne : currentIndex ≠ currentIndex + (y :: a).length := by simp
    have hadd : currentIndex + (y :: a).length = currentIndex + 1 + a.length := by
      rw [length_cons]
      omega
    rw [cons_append, loop, ListT.indexBody, if_neg hne, bind_some, hadd]
    exact loop_indexBody a (currentIndex + 1)

lemma Represents.getIndexed (h : Represents l (a ++ x :: b)) : l.getIndexed a.length = some (some x.1) := by
  have hloop := @loop_indexBody α x b a 0
  rw [Nat.zero_add] at hloop
  rw [ListT.getIndexed, h.forEach, hloop, map_some]

lemma loop_indexBody_end : ∀ (xs : List (ℕ × α)) (currentIndex : ℕ), currentIndex + xs.length ≤ index →
    loop (ListT.indexBody index) xs currentIndex = some (.inr (currentIndex + xs.length))
  | [], _, _ => rfl
  | x :: xs, currentIndex, h => by
    rw [length_cons] at h ⊢
    have hne : currentIndex ≠ index := by omega
    rw [loop, ListT.indexBody, if_neg hne, bind_some]
    dsimp only
    rw [loop_indexBody_end xs (currentIndex + 1) (by omega)]
    congr 2
    omega

lemma Represents.getIndexed_end (h : Represents l xs) (hi : xs.length ≤ index) : l.getIndexed index = some none := by
  rw [ListT.getIndexed, h.forEach, loop_indexBody_end xs 0 (by omega), map_some]

lemma loop_containsBody [DecidableEq α] [BEq α] [LawfulBEq α] {value : α} : ∀ (xs : List (ℕ × α)) (index : ℕ),
    (loop (ListT.containsBody value) xs index).map (Sum.elim id id) = some (index + (xs.map Prod.snd).idxOf value)
  | [], _ => rfl
  | x :: xs, index => by
    rw [loop, ListT.containsBody, bind_some, map_cons]
    by_cases hx : x.2 = value
    · rw [if_pos hx, hx, idxOf_cons_self]
      rfl
    · rw [if_neg hx, idxOf_cons_ne _ hx]
      dsimp only
      rw [loop_containsBody xs (index + 1)]
      congr 1
      omega

/-- **`list_contains`** returns the place of the value, and the length of the list if it is not there. -/
lemma Represents.contains [DecidableEq α] [BEq α] [LawfulBEq α] (h : Represents l xs) (value : α) :
    l.contains value = some ((xs.map Prod.snd).idxOf value) := by
  rw [ListT.contains, h.forEach]
  exact (loop_containsBody xs 0).trans (by rw [Nat.zero_add])

lemma Represents.removeNode (h : Represents l (a ++ x :: b)) :
    ∃ l', removeNode l x.1 = some (.value (some x.2), l') ∧ Represents l' (a ++ b) := by
  obtain ⟨l', hremove, h', -⟩ := h.remove
  have hvalue := h.seg.value_of_mem (mem_append_right a mem_cons_self)
  obtain ⟨node, hnode, hx⟩ := map_eq_some_iff.mp hvalue
  refine ⟨l', ?_, h'⟩
  rw [Lists.removeNode, hnode, bind_some, hremove, map_some, hx]

lemma values_at : ((a ++ x :: b).map Prod.snd)[a.length]? = some x.2 ∧
      ((a ++ x :: b).map Prod.snd).eraseIdx a.length = (a ++ b).map Prod.snd := by
  have hlen : (a.map Prod.snd).length = a.length := length_map ..
  rw [map_append, map_cons, ← hlen]
  constructor
  · rw [getElem?_append_right (Nat.le_refl _), Nat.sub_self, getElem?_cons_zero]
  · rw [eraseIdx_append_of_length_le (Nat.le_refl _), Nat.sub_self, eraseIdx_cons_zero, map_append]

def Obeys (result : Option (Returned α × ListT α)) (spec : Option α × List α) : Prop :=
  ∃ r l' ys, result = some (r, l') ∧ Represents l' ys ∧ r.read l' = spec.1 ∧ ys.map Prod.snd = spec.2

section

variable (h : Represents l xs)
include h

lemma Represents.obeys_pushBack (value : α) :
    Obeys (exec l (.pushBack value)) (some value, xs.map Prod.snd ++ [value]) := by
  obtain ⟨l', hpush, h', -⟩ := h.pushBack value
  refine ⟨.node l.fresh, l', _, ?_, h', ?_, ?_⟩
  · rw [exec, hpush, map_some]
  · exact h'.seg.value_of_mem (mem_append_right xs mem_cons_self)
  · rw [map_append, map_singleton]

lemma Represents.obeys_pushFront (value : α) :
    Obeys (exec l (.pushFront value)) (some value, value :: xs.map Prod.snd) := by
  obtain ⟨l', hpush, h'⟩ := h.pushFront value
  refine ⟨.node l.fresh, l', _, ?_, h', ?_, ?_⟩
  · rw [exec, hpush, map_some]
  · exact h'.seg.value_of_mem mem_cons_self
  · rw [map_cons]

lemma Represents.obeys_removeBack :
    Obeys (exec l .removeBack) ((xs.map Prod.snd).getLast?, (xs.map Prod.snd).dropLast) := by
  obtain rfl | ⟨a, x, rfl⟩ := xs.eq_nil_or_concat'
  · refine ⟨.value none, l, [], ?_, h, rfl, rfl⟩
    simp only [exec, ListT.getBack, ListT.removeBack, h.seg.1, ListT.valueAt, bind_some, map_some]
  · obtain ⟨l', hremove, h', -⟩ := h.removeBack
    refine ⟨.value (some x.2), l', a, ?_, h', ?_, ?_⟩
    · rw [exec, h.getBack, bind_some, hremove, map_some]
    · rw [map_append, map_singleton, getLast?_concat]
      rfl
    · rw [map_append, map_singleton, dropLast_concat]

lemma Represents.obeys_pop :
    Obeys (exec l .pop) ((xs.map Prod.snd).getLast?, (xs.map Prod.snd).dropLast) := by
  obtain rfl | ⟨a, x, rfl⟩ := xs.eq_nil_or_concat'
  · refine ⟨.node none, l, [], ?_, h, rfl, rfl⟩
    simp only [exec, ListT.pop, h.seg.1, map_some]
  · obtain ⟨l', hpop, h', hvalue⟩ := h.pop
    refine ⟨.node (some x.1), l', a, ?_, h', ?_, ?_⟩
    · rw [exec, hpop, map_some]
    · rw [map_append, map_singleton, getLast?_concat]
      exact hvalue
    · rw [map_append, map_singleton, dropLast_concat]

lemma Represents.obeys_removeFront :
    Obeys (exec l .removeFront) ((xs.map Prod.snd).head?, (xs.map Prod.snd).tail) := by
  cases xs with
  | nil =>
    refine ⟨.value none, l, [], ?_, h, rfl, rfl⟩
    simp only [exec, ListT.getFront, ListT.removeFront, h.seg.2, ListT.valueAt, bind_some, map_some]
  | cons x b =>
    obtain ⟨l', hremove, h', -⟩ := h.removeFront
    refine ⟨.value (some x.2), l', b, ?_, h', rfl, rfl⟩
    rw [exec, h.getFront, bind_some, hremove, map_some]

end

lemma Represents.obeys_removeNode (h : Represents l (a ++ x :: b)) : Obeys (Lists.removeNode l x.1)
      (((a ++ x :: b).map Prod.snd)[a.length]?, ((a ++ x :: b).map Prod.snd).eraseIdx a.length) := by
  obtain ⟨l', hremove, h'⟩ := h.removeNode
  rw [values_at.1, values_at.2]
  exact ⟨_, l', _, hremove, h', rfl, rfl⟩

section

variable (h : Represents l xs)
include h

lemma Represents.obeys_remove {i : ℕ} (hi : i ∈ xs.map Prod.fst) :
    Obeys (exec l (.remove i)) ((Op.remove i).spec (xs.map Prod.fst) (xs.map Prod.snd)) := by
  obtain ⟨x, hx, rfl⟩ := mem_map.mp hi
  obtain ⟨a, b, rfl⟩ := append_of_mem hx
  have hnodup := h.nodup
  rw [map_append, nodup_append] at hnodup
  have hxa : x.1 ∉ a.map Prod.fst := fun hmem => hnodup.2.2 x.1 hmem x.1 (by simp) rfl
  have hidx : ((a ++ x :: b).map Prod.fst).idxOf x.1 = a.length := by
    rw [map_append, idxOf_append_of_notMem hxa, map_cons, idxOf_cons_self, length_map, Nat.add_zero]
  rw [Op.spec, hidx]
  exact h.obeys_removeNode

lemma Represents.obeys_removeIndexed (hi : index < xs.length) :
    Obeys (exec l (.removeIndexed index)) ((xs.map Prod.snd)[index]?, (xs.map Prod.snd).eraseIdx index) := by
  obtain ⟨a, x, b, rfl, rfl⟩ : ∃ a x b, xs = a ++ x :: b ∧ a.length = index :=
    ⟨xs.take index, xs[index], xs.drop (index + 1), by simp, length_take_of_le (Nat.le_of_lt hi)⟩
  rw [exec, h.getIndexed]
  exact h.obeys_removeNode

lemma Represents.exec (op : Op α) (hop : Legal l op) :
    Obeys (exec l op) (op.spec (xs.map Prod.fst) (xs.map Prod.snd)) := by
  cases op with
  | pushBack value => exact h.obeys_pushBack value
  | pushFront value => exact h.obeys_pushFront value
  | removeBack => exact h.obeys_removeBack
  | removeFront => exact h.obeys_removeFront
  | pop => exact h.obeys_pop
  | remove i =>
    obtain ⟨nodes, hnodes, hi⟩ := hop
    rw [h.doubly.forward] at hnodes
    exact h.obeys_remove (some.inj hnodes ▸ hi)
  | removeIndexed index => exact h.obeys_removeIndexed (h.length ▸ hop)

lemma Represents.step {op : Op α} (hop : Legal l op) :
    ∃ l', Lists.step l op = some l' ∧ ∃ ys, Represents l' ys := by
  obtain ⟨r, l', ys, hexec, h', -⟩ := h.exec op hop
  exact ⟨l', by rw [Lists.step, hexec, map_some], ys, h'⟩

end

/-- **Lists.** After every run of operations that name nodes and indices of the list, the list can
be walked in both directions, and the next operation returns and does what it should. -/
theorem list_is_sequence (ops : List (Op α)) (hlegal : Along step Legal ListT.create ops) :
    ∃ l nodes values, run step ListT.create ops = some l ∧ Doubly l nodes values ∧
      ∀ op, Legal l op → ∃ r l' nodes', Lists.exec l op = some (r, l') ∧
        r.read l' = (op.spec nodes values).1 ∧ Doubly l' nodes' (op.spec nodes values).2 := by
  obtain ⟨l, hrun, xs, h⟩ := run_total_along step (I := fun l => ∃ xs, Represents l xs)
    (fun _ _ ⟨_, h⟩ hop => h.step hop) ops ListT.create ⟨[], represents_create⟩ hlegal
  refine ⟨l, _, _, hrun, h.doubly, fun op hop => ?_⟩
  obtain ⟨r, l', ys, hexec, h', hread, hvalues⟩ := h.exec op hop
  exact ⟨r, l', _, hexec, hread, hvalues ▸ h'.doubly⟩

theorem list_is_sequence_three : Along step Legal ListT.create
      [.pushBack 10, .pushFront 20, .pushBack 30, .remove 0, .removeIndexed 1, .pop, .removeFront] ∧
    ∃ l nodes values, run step (ListT.create : ListT ℕ)
        [.pushBack 10, .pushFront 20, .pushBack 30, .remove 0, .removeIndexed 1, .pop, .removeFront] = some l ∧
      Doubly l nodes values ∧ ∀ op, Legal l op → ∃ r l' nodes', Lists.exec l op = some (r, l') ∧
        r.read l' = (op.spec nodes values).1 ∧ Doubly l' nodes' (op.spec nodes values).2 :=
  have hlegal : Along step Legal ListT.create
      [.pushBack 10, .pushFront 20, .pushBack 30, .remove 0, .removeIndexed 1, .pop, .removeFront] := by decide +kernel
  ⟨hlegal, list_is_sequence _ hlegal⟩

end
end WivOS.Lists
