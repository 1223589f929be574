/-
# Inserting before a node

`list_push_before` of `kernel/utils/lists.c` among the other operations. The new node links on to the node it should be
in front of, and that one links back to it, but no node links on to the new one: from `root` the list is walked as
before. The length counts the new node all the same.
-/
import WivOS.Utils.ListRun

namespace WivOS.Lists

open Function Linked List Option Machine

variable {α : Type*} {link : Node α → Option ℕ} {values : List α} {r : Returned α} {i : ℕ}

inductive Call (α : Type*) where
  | plain (op : Op α)
  | pushBefore (node : ℕ) (value : α)

def Call.step (l : ListT α) : Call α → Option (ListT α)
  | .plain op => Lists.step l op
  | .pushBefore node value => l.pushBefore node value

def Reads (l : ListT α) (nodes : List ℕ) (values : List α) : Prop :=
  forward l = some nodes ∧ nodes.map (fun i => (l.heap i).map Node.value) = values.map some

/-- The value comes into the sequence in front of that of the node, in a list that is as it
should be. -/
def InsertsBefore (l : ListT α) (x : ℕ) (v : α) : Prop :=
  ∃ l' nodes values nodes', Reads l nodes values ∧ l.pushBefore x v = some l' ∧
    Doubly l' nodes' (values.insertIdx (nodes.idxOf x) v)

/-! ### Where the nodes of a list lie -/

variable {l l' : ListT α}

variable {value : α} {x : ℕ} {nodes : List ℕ}

open ListT

section

variable (h : Below l.heap l.fresh)
include h

lemma below_pushBack (hl : l.pushBack value = some l') : Below l'.heap l'.fresh := by
  unfold pushBack at hl
  have halloc := h.alloc (some ⟨value, l.tail, none⟩)
  cases ht : l.tail with
  | none =>
    rw [ht] at hl halloc
    cases hl
    exact halloc
  | some t =>
    rw [ht] at hl halloc
    obtain ⟨last, hlast, rfl⟩ := map_eq_some_iff.mp hl
    exact halloc.update (halloc.lt hlast) _

lemma below_pushFront (hl : l.pushFront value = some l') : Below l'.heap l'.fresh := by
  unfold pushFront at hl
  have halloc := h.alloc (some ⟨value, none, l.root⟩)
  cases hr : l.root with
  | none =>
    rw [hr] at hl halloc
    cases hl
    exact halloc
  | some r =>
    rw [hr] at hl halloc
    obtain ⟨first, hfirst, rfl⟩ := map_eq_some_iff.mp hl
    exact halloc.update (halloc.lt hfirst) _

lemma below_pushBefore (hl : l.pushBefore x value = some l') : Below l'.heap l'.fresh := by
  obtain ⟨last, hlast, rfl⟩ := map_eq_some_iff.mp hl
  exact (h.alloc _).update (Nat.lt_succ_of_lt (h.lt hlast)) _

lemma below_removeFront (hl : l.removeFront = some l') : Below l'.heap l'.fresh := by
  unfold removeFront at hl
  split at hl
  · cases hl
    exact h
  · obtain ⟨node, hnode, hl⟩ := bind_eq_some_iff.mp hl
    split at hl
    · cases hl
      exact h.update (h.lt hnode) _
    · obtain ⟨second, hsecond, rfl⟩ := map_eq_some_iff.mp hl
      exact (h.update (h.lt hsecond) _).update (h.lt hnode) _

lemma below_removeBack (hl : l.removeBack = some l') : Below l'.heap l'.fresh := by
  unfold removeBack at hl
  split at hl
  · cases hl
    exact h
  · obtain ⟨node, hnode, hl⟩ := bind_eq_some_iff.mp hl
    split at hl
    · cases hl
      exact h.update (h.lt hnode) _
    · obtain ⟨last, hlast, rfl⟩ := map_eq_some_iff.mp hl
      exact (h.update (h.lt hlast) _).update (h.lt hnode) _

lemma below_pop {r : Option ℕ} (hl : l.pop = some (r, l')) : Below l'.heap l'.fresh := by
  unfold pop at hl
  split at hl
  · cases hl
    exact h
  · obtain ⟨node, hnode, hl⟩ := bind_eq_some_iff.mp hl
    split at hl
    · cases hl
      exact h
    · obtain ⟨last, hlast, he⟩ := map_eq_some_iff.mp hl
      cases he
      exact h.update (h.lt hlast) _

lemma below_remove (hl : l.remove i = some l') : Below l'.heap l'.fresh := by
  unfold remove at hl
  split at hl
  · exact below_removeFront h hl
  split at hl
  · exact below_removeBack h hl
  obtain ⟨node, hnode, hl⟩ := bind_eq_some_iff.mp hl
  obtain ⟨p, -, hl⟩ := bind_eq_some_iff.mp hl
  obtain ⟨q, -, hl⟩ := bind_eq_some_iff.mp hl
  obtain ⟨before, hbefore, hl⟩ := bind_eq_some_iff.mp hl
  obtain ⟨behind, hbehind, rfl⟩ := map_eq_some_iff.mp hl
  have hp := h.update (h.lt hbefore) (some { before with next := some q })
  exact (hp.update (hp.lt hbehind) _).update (h.lt hnode) _

lemma below_removeNode (hl : removeNode l i = some (r, l')) :
    Below l'.heap l'.fresh := by
  obtain ⟨node, -, hl⟩ := bind_eq_some_iff.mp hl
  obtain ⟨l1, hremove, he⟩ := map_eq_some_iff.mp hl
  cases he
  exact below_remove h hremove

lemma below_exec {op : Op α} (hl : exec l op = some (r, l')) :
    Below l'.heap l'.fresh := by
  cases op with
  | pushBack value =>
    obtain ⟨l1, hpush, he⟩ := map_eq_some_iff.mp hl
    cases he
    exact below_pushBack h hpush
  | pushFront value =>
    obtain ⟨l1, hpush, he⟩ := map_eq_some_iff.mp hl
    cases he
    exact below_pushFront h hpush
  | removeBack =>
    obtain ⟨value, -, hl⟩ := bind_eq_some_iff.mp hl
    obtain ⟨l1, hremove, he⟩ := map_eq_some_iff.mp hl
    cases he
    exact below_removeBack h hremove
  | removeFront =>
    obtain ⟨value, -, hl⟩ := bind_eq_some_iff.mp hl
    obtain ⟨l1, hremove, he⟩ := map_eq_some_iff.mp hl
    cases he
    exact below_removeFront h hremove
  | pop =>
    obtain ⟨⟨node, l1⟩, hpop, he⟩ := map_eq_some_iff.mp hl
    cases he
    exact below_pop h hpop
  | remove i => exact below_removeNode h hl
  | removeIndexed index =>
    obtain ⟨node, -, hl⟩ := bind_eq_some_iff.mp hl
    obtain ⟨i, -, hl⟩ := bind_eq_some_iff.mp hl
    exact below_removeNode h hl

lemma below_step {call : Call α} (hl : call.step l = some l') : Below l'.heap l'.fresh := by
  cases call with
  | plain op =>
    obtain ⟨⟨r, l1⟩, hexec, rfl⟩ := map_eq_some_iff.mp hl
    exact below_exec h hexec
  | pushBefore node value => exact below_pushBefore h hl

end

lemma below_of_run {calls : List (Call α)} (hrun : run Call.step create calls = some l) :
    Below l.heap l.fresh :=
  run_invariant Call.step (I := fun l => Below l.heap l.fresh) (fun _ _ _ h hl => below_step h hl) calls
    create l (fun _ _ => rfl) hrun

/-! ### The walk from the first node -/

lemma walk_congr {heap heap' : Heap α} : ∀ {n m : ℕ} {start : Option ℕ} {nodes : List ℕ},
    walk link heap n start = some nodes → n ≤ m →
    (∀ i ∈ nodes, ∀ node, heap i = some node → ∃ node', heap' i = some node' ∧ link node' = link node) →
    walk link heap' m start = some nodes
  | n, m, none, nodes, h, _, _ => by
    have hnil : walk link heap n none = some [] := by cases n <;> rfl
    rw [← h, hnil]
    cases m <;> rfl
  | 0, _, some _, _, h, _, _ => by cases h
  | n + 1, 0, some _, _, _, hm, _ => absurd hm (Nat.not_succ_le_zero n)
  | n + 1, m + 1, some i, nodes, h, hm, hsame => by
    obtain ⟨node, hnode, h⟩ := bind_eq_some_iff.mp h
    obtain ⟨rest, hrest, rfl⟩ := map_eq_some_iff.mp h
    obtain ⟨node', hnode', hlink⟩ := hsame i mem_cons_self node hnode
    have hwalk := walk_congr hrest (Nat.le_of_succ_le_succ hm) fun j hj => hsame j (mem_cons_of_mem i hj)
    rw [walk, hnode', bind_some, hlink, hwalk, map_some]

lemma node_of_walk {heap : Heap α} : ∀ {n : ℕ} {start : Option ℕ} {nodes : List ℕ},
    walk link heap n start = some nodes → x ∈ nodes → ∃ node, heap x = some node
  | n, none, nodes, h, hx => by
    have hnil : walk link heap n none = some [] := by cases n <;> rfl
    rw [hnil] at h
    cases h
    cases hx
  | 0, some _, _, h, _ => by cases h
  | n + 1, some i, nodes, h, hx => by
    obtain ⟨node, hnode, h⟩ := bind_eq_some_iff.mp h
    obtain ⟨rest, hrest, rfl⟩ := map_eq_some_iff.mp h
    rcases mem_cons.mp hx with rfl | hx
    · exact ⟨node, hnode⟩
    · exact node_of_walk hrest hx

/-- **The walk is as before**: nothing links to the new node. -/
lemma walk_kept (h : Below l.heap l.fresh) (hwalk : forward l = some nodes) (hx : x ∈ nodes) (v : α) :
    ∃ l', l.pushBefore x v = some l' ∧ forward l' = some nodes ∧ l'.length = l.length + 1 := by
  obtain ⟨last, hlast⟩ := node_of_walk hwalk hx
  refine ⟨_, congrArg (Option.map _) hlast, walk_congr hwalk (Nat.le_succ _) fun i _ node hnode => ?_, rfl⟩
  by_cases hix : i = x
  · rw [hix, hlast] at hnode
    cases hnode
    rw [hix]
    exact ⟨{ last with previous := some l.fresh }, update_self .., rfl⟩
  · refine ⟨node, (update_of_ne hix ..).trans ((update_of_ne ?_ ..).trans hnode), rfl⟩
    exact Nat.ne_of_lt (h.lt hnode)

lemma Reads.length_eq (h : Reads l nodes values) : nodes.length = values.length := by
  have hlen := congrArg List.length h.2
  rw [length_map, length_map] at hlen
  exact hlen

lemma Doubly.reads (h : Doubly l nodes values) : Reads l nodes values :=
  ⟨h.forward, h.values⟩

/-- **`list_push_before`** never inserts. In every list that was built by the operations, and at every
node of it, the list is walked from `root` as before; a list that was doubly linked is so no longer, and the value
does not come into the sequence. -/
theorem pushBefore_never_inserts (calls : List (Call α)) (hrun : run Call.step create calls = some l)
    {nodes : List ℕ} (hwalk : forward l = some nodes) {x : ℕ} (hx : x ∈ nodes) (v : α) :
    (∃ l', l.pushBefore x v = some l' ∧ forward l' = some nodes ∧ l'.length = l.length + 1 ∧
      ∀ nodes' values values', Doubly l nodes values → ¬ Doubly l' nodes' values') ∧ ¬ InsertsBefore l x v := by
  obtain ⟨l', hpush, hwalk', hlength⟩ := walk_kept (below_of_run hrun) hwalk hx v
  have hsame : ∀ {nodes' values'}, Doubly l' nodes' values' → nodes' = nodes := fun hdoubly =>
    some.inj (hdoubly.forward.symm.trans hwalk')
  refine ⟨⟨l', hpush, hwalk', hlength, fun nodes' values values' hdoubly hdoubly' => ?_⟩, ?_⟩
  · have hlen := hdoubly'.length
    rw [hsame hdoubly', hlength, hdoubly.length] at hlen
    omega
  · rintro ⟨l1, nodes1, values, nodes', hreads, hpush1, hdoubly⟩
    obtain rfl : nodes1 = nodes := some.inj (hreads.1.symm.trans hwalk)
    obtain rfl : l1 = l' := some.inj (hpush1.symm.trans hpush)
    obtain rfl := hsame hdoubly
    have hidx : nodes'.idxOf x ≤ values.length := by
      rw [← hreads.length_eq]
      exact idxOf_le_length
    have hlen := hdoubly.reads.length_eq
    rw [length_insertIdx, if_pos hidx, hreads.length_eq] at hlen
    omega

theorem pushBefore_never_inserts_two : ∃ l, run Call.step (create : ListT ℕ)
      [.plain (.pushBack 10), .plain (.pushBack 30)] = some l ∧ forward l = some [0, 1] ∧
    (∃ l', l.pushBefore 1 20 = some l' ∧ forward l' = some [0, 1] ∧ l'.length = l.length + 1 ∧
      ∀ nodes' values values', Doubly l [0, 1] values → ¬ Doubly l' nodes' values') ∧ ¬ InsertsBefore l 1 20 := by
  obtain ⟨l, hrun, hwalk⟩ := exists_run Call.step (by decide +kernel :
    (run Call.step (create : ListT ℕ) [.plain (.pushBack 10), .plain (.pushBack 30)]).any fun l =>
      decide (forward l = some [0, 1]))
  exact ⟨l, hrun, hwalk, pushBefore_never_inserts _ hrun hwalk (by decide) 20⟩

/-- A list of one node, and a value that should come in front of it: the walk from `root` meets the
old node alone, that from `tail` the new one alone, and the length is two. -/
theorem pushBefore_lost : ∃ l', run Call.step (create : ListT ℕ) [.plain (.pushBack 10), .pushBefore 0 20] = some l' ∧
    forward l' = some [0] ∧ backward l' = some [1] ∧ l'.length = 2 :=
  exists_run (P := fun l' => forward l' = some [0] ∧ backward l' = some [1] ∧ l'.length = 2) Call.step
    (by decide +kernel)

end WivOS.Lists
