/-
# Trees

`gentree_create`, `gentree_insert`, `gentree_get_parent` and `gentree_remove` of `kernel/utils/lists.c`. A pointer is
`none` for `NULL`, and an access to no node is a fault. `list_contains` counts the nodes in front of the pointer that it
looks for, and all of them if it is not there; the search for the parent takes every such number but `-1` for a place,
so that it stops at the root whatever it looks for.
-/
import Mathlib.Algebra.Group.Nat.Defs
import WivOS.Utils.ListInsert

namespace WivOS.Gentrees

open Function List Option WivOS.Lists Machine

variable {α : Type*}

abbrev Ptr := Option ℕ

structure TreeNode (α : Type*) where
  value : α
  children : ListT Ptr

structure Gentree (α : Type*) where
  nodes : ℕ → Option (TreeNode α)
  fresh : ℕ
  root : Ptr

namespace Gentree

def create : Gentree α := ⟨fun _ => none, 0, none⟩

def insert (t : Gentree α) (subroot : Ptr) (value : α) : Option (ℕ × Gentree α) :=
  if t.fresh < 2 ^ 52 then
    let nodes := update t.nodes t.fresh (some ⟨value, ListT.create⟩)
    match t.root with
    | none => some (t.fresh, ⟨nodes, t.fresh + 1, some t.fresh⟩)
    | some _ => subroot.bind fun s => (t.nodes s).bind fun node =>
        (node.children.pushFront (some t.fresh)).map fun children =>
        (t.fresh, ⟨update nodes s (some { node with children }), t.fresh + 1, t.root⟩)
  else none

/-- `gentree_get_parent_recursive`: the parent and the place of the node in its list, or `NULL`. The
number of calls inside each other is bounded. -/
def getParentRecursive (t : Gentree α) (node : Ptr) : ℕ → ℕ → Option (Option (ℕ × ℕ))
  | 0, _ => none
  | n + 1, subroot => (t.nodes subroot).bind fun s => (s.children.contains node).bind fun currentIndex =>
      if currentIndex % 2 ^ 64 ≠ 2 ^ 64 - 1 then some (some (subroot, currentIndex % 2 ^ 64))
      else (s.children.forEach (fun () _ child => (child.bind (t.getParentRecursive node n)).map fun
        | some r => .inl r
        | none => .inr ()) ()).map fun
          | .inl r => some r
          | .inr () => none

def getParent (t : Gentree α) (node : Ptr) : Option (Option (ℕ × ℕ)) :=
  if node = t.root then some none else t.root.bind (t.getParentRecursive node (t.fresh + 1))

/-- `gentree_remove`: the node that the list held is freed. -/
def remove (t : Gentree α) (node : Ptr) : Option (Gentree α) :=
  (t.getParent node).bind fun
    | none => some t
    | some (parent, index) => (t.nodes parent).bind fun p => (exec p.children (.removeIndexed index)).bind fun r =>
        (r.1.read r.2).join.map fun nodeToFree =>
          let nodes := update t.nodes parent (some { p with children := r.2 })
          { t with nodes := update nodes nodeToFree none }

def step (t : Gentree α) (call : Ptr × α) : Option (Gentree α) := (t.insert call.1 call.2).map Prod.snd

/-! ### What should be found -/

def Children (t : Gentree α) (p : ℕ) (children : List Ptr) : Prop :=
  ∃ node nodes, t.nodes p = some node ∧ Reads node.children nodes children

def ParentOf (t : Gentree α) (node : Ptr) (p i : ℕ) : Prop :=
  ∃ children, t.Children p children ∧ children[i]? = some node

/-- The nodes that are reached from the root. -/
inductive InTree (t : Gentree α) : Ptr → Prop where
  | root {r : ℕ} : t.root = some r → InTree t (some r)
  | child {p i : ℕ} {node : Ptr} : InTree t (some p) → t.ParentOf node p i → InTree t node

def UnderRoot (t : Gentree α) (node : Ptr) : Prop := ∃ r i, t.root = some r ∧ t.ParentOf node r i

/-- `gentree_get_parent` returns what it should. -/
structure RightParent (t : Gentree α) (node : Ptr) : Prop where
  none : node = t.root ∨ ¬ t.InTree node → t.getParent node = some none
  parent : ∀ p i, node ≠ t.root → t.InTree (some p) → t.ParentOf node p i → t.getParent node = some (some (p, i))

/-- `gentree_remove` takes the node out of the list of its parent, and keeps all other lists. -/
def RightRemove (t : Gentree α) (node : Ptr) : Prop :=
  ∃ p i children t', t.Children p children ∧ children[i]? = some node ∧ t.remove node = some t' ∧ t'.root = t.root ∧
    t'.Children p (children.eraseIdx i) ∧
    ∀ q, q ≠ p → some q ≠ node → ∀ others, t'.Children q others ↔ t.Children q others

end Gentree

open Gentree

/-! ### Trees that were built by insertions -/

structure Grown (t : Gentree α) : Prop where
  below : ∀ i, t.fresh ≤ i → t.nodes i = none
  count : t.fresh ≤ 2 ^ 52
  rooted : ∀ r, t.root = some r → ∃ node, t.nodes r = some node
  lists : ∀ p node, t.nodes p = some node → ∃ xs, Represents node.children xs ∧ node.children.fresh ≤ t.fresh
  made : ∀ node p i, t.ParentOf node p i → ∃ c < t.fresh, node = some c
  unique : ∀ node p i q j, t.ParentOf node p i → t.ParentOf node q j → p = q ∧ i = j

variable {p i c r : ℕ} {children : List Ptr} {xs : List (ℕ × Ptr)}

section

variable {t t' : Gentree α} {node : Ptr} {g : TreeNode α} {β : Type*} {value : α} {root : Ptr} {s k : ℕ}

lemma reads_unique {l : ListT β} {nodes nodes' : List ℕ} {values values' : List β} (h : Reads l nodes values)
    (h' : Reads l nodes' values') : values = values' := by
  obtain rfl : nodes = nodes' := some.inj (h.1.symm.trans h'.1)
  exact map_injective_iff.mpr (fun _ _ => some.inj) (h.2.symm.trans h'.2)

lemma children_unique {children' : List Ptr} (h : t.Children p children) (h' : t.Children p children') :
    children = children' := by
  obtain ⟨node, nodes, hnode, hreads⟩ := h
  obtain ⟨node', nodes', hnode', hreads'⟩ := h'
  obtain rfl : node = node' := some.inj (hnode.symm.trans hnode')
  exact reads_unique hreads hreads'

lemma children_of_represents {node : TreeNode α} (hnode : t.nodes p = some node) (h : Represents node.children xs) :
    t.Children p (xs.map Prod.snd) :=
  ⟨node, _, hnode, h.doubly.reads⟩

lemma grown_create : Grown (create : Gentree α) where
  below _ _ := rfl
  count := Nat.zero_le _
  rooted _ h := by cases h
  lists _ _ h := by cases h
  made := by
    rintro _ _ _ ⟨_, ⟨_, _, h, _⟩, _⟩
    cases h
  unique := by
    rintro _ _ _ _ _ ⟨_, ⟨_, _, h, _⟩, _⟩
    cases h

lemma parentOf_alloc {fresh : ℕ}
    (hp : ParentOf ⟨update t.nodes t.fresh (some ⟨value, ListT.create⟩), fresh, root⟩ node p i) :
    t.ParentOf node p i := by
  obtain ⟨children, ⟨g, nodes, hg, hreads⟩, hi⟩ := hp
  dsimp only at hg
  by_cases hpf : p = t.fresh
  · rw [hpf, update_self] at hg
    cases hg
    have hnil := reads_unique hreads (represents_create : Represents (ListT.create : ListT Ptr) []).doubly.reads
    rw [hnil] at hi
    cases hi
  · rw [update_of_ne hpf] at hg
    exact ⟨children, ⟨g, nodes, hg, hreads⟩, hi⟩

lemma Grown.alloc (h : Grown t) (hfresh : t.fresh < 2 ^ 52) (value : α)
    (hroot : root = t.root ∨ root = some t.fresh) :
    Grown ⟨update t.nodes t.fresh (some ⟨value, ListT.create⟩), t.fresh + 1, root⟩ where
  below i hi := by
    dsimp only at hi ⊢
    rw [update_of_ne (Nat.ne_of_gt hi), h.below i (Nat.le_of_succ_le hi)]
  count := hfresh
  rooted r hr := by
    dsimp only at hr ⊢
    by_cases hrf : r = t.fresh
    · exact ⟨_, by rw [hrf, update_self]⟩
    · rw [update_of_ne hrf]
      rcases hroot with rfl | rfl
      · exact h.rooted r hr
      · exact absurd (some.inj hr).symm hrf
  lists p g hg := by
    dsimp only at hg ⊢
    by_cases hpf : p = t.fresh
    · rw [hpf, update_self] at hg
      cases hg
      exact ⟨[], represents_create, Nat.zero_le _⟩
    · rw [update_of_ne hpf] at hg
      obtain ⟨xs, hxs, hle⟩ := h.lists p g hg
      exact ⟨xs, hxs, Nat.le_succ_of_le hle⟩
  made node p i hp := by
    obtain ⟨c, hc, rfl⟩ := h.made node p i (parentOf_alloc hp)
    exact ⟨c, Nat.lt_succ_of_lt hc, rfl⟩
  unique node p i q j hp hq := h.unique node p i q j (parentOf_alloc hp) (parentOf_alloc hq)

lemma parentOf_adopt {children : ListT Ptr} (hg : t.nodes s = some g)
    (hxs : Represents g.children xs) (hchildren : Represents children ((k, some c) :: xs))
    (hp : ParentOf { t with nodes := update t.nodes s (some { g with children }) } node p i) :
    p = s ∧ i = 0 ∧ node = some c ∨ (∃ j, i = j + 1 ∧ p = s ∧ t.ParentOf node s j) ∨ p ≠ s ∧ t.ParentOf node p i := by
  obtain ⟨values, ⟨g', nodes, hg', hreads⟩, hi⟩ := hp
  dsimp only at hg'
  by_cases hps : p = s
  · rw [hps, update_self] at hg'
    cases hg'
    have hvalues := reads_unique hreads hchildren.doubly.reads
    rw [hvalues, map_cons] at hi
    cases i with
    | zero =>
      rw [getElem?_cons_zero] at hi
      exact .inl ⟨hps, rfl, (some.inj hi).symm⟩
    | succ j =>
      rw [getElem?_cons_succ] at hi
      exact .inr (.inl ⟨j, rfl, hps, _, children_of_represents hg hxs, hi⟩)
  · rw [update_of_ne hps] at hg'
    exact .inr (.inr ⟨hps, values, ⟨g', nodes, hg', hreads⟩, hi⟩)

lemma Grown.adopt (h : Grown t) {children : ListT Ptr} (hg : t.nodes s = some g)
    (hxs : Represents g.children xs) (hchildren : Represents children ((k, some c) :: xs))
    (hle : children.fresh ≤ t.fresh) (hc : c < t.fresh) (hnew : ∀ p i, ¬ t.ParentOf (some c) p i) :
    Grown { t with nodes := update t.nodes s (some { g with children }) } where
  below i hi := by
    have hsi : i ≠ s := by
      rintro rfl
      rw [h.below i hi] at hg
      cases hg
    dsimp only
    rw [update_of_ne hsi, h.below i hi]
  count := h.count
  rooted r hr := by
    dsimp only
    by_cases hrs : r = s
    · exact ⟨_, by rw [hrs, update_self]⟩
    · rw [update_of_ne hrs]
      exact h.rooted r hr
  lists p g' hg' := by
    dsimp only at hg' ⊢
    by_cases hps : p = s
    · rw [hps, update_self] at hg'
      cases hg'
      exact ⟨_, hchildren, hle⟩
    · rw [update_of_ne hps] at hg'
      exact h.lists p g' hg'
  made node p i hp := by
    rcases parentOf_adopt hg hxs hchildren hp with ⟨-, -, rfl⟩ | ⟨j, -, -, hj⟩ | ⟨-, hp⟩
    · exact ⟨c, hc, rfl⟩
    · exact h.made node s j hj
    · exact h.made node p i hp
  unique node p i q j hp hq := by
    -- the new child has no other parent; every other one keeps its own, at a place one behind in the list of `s`
    rcases parentOf_adopt hg hxs hchildren hp with ⟨hps, hi, hnode⟩ | ⟨i', hi, hps, hp'⟩ | ⟨hps, hp'⟩ <;>
      rcases parentOf_adopt hg hxs hchildren hq with ⟨hqs, hj, hnode'⟩ | ⟨j', hj, hqs, hq'⟩ | ⟨hqs, hq'⟩
    · exact ⟨hps.trans hqs.symm, hi.trans hj.symm⟩
    · exact absurd (hnode ▸ hq') (hnew _ _)
    · exact absurd (hnode ▸ hq') (hnew _ _)
    · exact absurd (hnode' ▸ hp') (hnew _ _)
    · rw [hi, hj, (h.unique node _ _ _ _ hp' hq').2]
      exact ⟨hps.trans hqs.symm, rfl⟩
    · exact absurd (h.unique node _ _ _ _ hp' hq').1.symm hqs
    · exact absurd (hnode' ▸ hp') (hnew _ _)
    · exact absurd (h.unique node _ _ _ _ hp' hq').1 hps
    · exact h.unique node p i q j hp' hq'

lemma pushFront_fresh {l l' : ListT β} {value : β} (hl : l.pushFront value = some l') :
    l'.fresh = l.fresh + 1 := by
  unfold ListT.pushFront at hl
  split at hl
  · cases hl
    rfl
  · obtain ⟨first, -, rfl⟩ := map_eq_some_iff.mp hl
    rfl

lemma Grown.insert (h : Grown t) {subroot : Ptr} (ht : t.insert subroot value = some (c, t')) :
    Grown t' := by
  unfold Gentree.insert at ht
  split at ht
  case isFalse => cases ht
  case isTrue hfresh =>
    cases hroot : t.root with
    | none =>
      simp only [hroot] at ht
      cases ht
      exact h.alloc hfresh value (.inr rfl)
    | some r =>
      simp only [hroot] at ht
      obtain ⟨s, -, ht⟩ := bind_eq_some_iff.mp ht
      obtain ⟨g, hg, ht⟩ := bind_eq_some_iff.mp ht
      obtain ⟨children, hchildren, ht⟩ := map_eq_some_iff.mp ht
      cases ht
      obtain ⟨xs, hxs, hle⟩ := h.lists s g hg
      obtain ⟨children', hpush, hrep⟩ := hxs.pushFront (some t.fresh)
      obtain rfl : children' = children := some.inj (hpush.symm.trans hchildren)
      have hsf : s ≠ t.fresh := by
        rintro rfl
        rw [h.below _ (Nat.le_refl _)] at hg
        cases hg
      have hg' : update t.nodes t.fresh (some ⟨value, ListT.create⟩) s = some g := by
        rw [update_of_ne hsf, hg]
      have hroom : children'.fresh ≤ t.fresh + 1 := by
        rw [pushFront_fresh hpush]
        exact Nat.succ_le_succ hle
      refine (h.alloc hfresh value (.inl hroot.symm)).adopt hg' hxs hrep hroom (Nat.lt_succ_self _) fun p i hp => ?_
      obtain ⟨c, hc, he⟩ := h.made _ p i (parentOf_alloc hp)
      exact absurd (some.inj he) (Nat.ne_of_gt hc)

lemma grown_of_run {calls : List (Ptr × α)} (hrun : run Gentree.step create calls = some t) : Grown t := by
  refine run_invariant Gentree.step (fun t call t' h ht => ?_) calls create t grown_create hrun
  obtain ⟨⟨c, t1⟩, hinsert, rfl⟩ := map_eq_some_iff.mp ht
  exact h.insert hinsert

/-! ### Searching and removing -/

lemma Grown.root_children (h : Grown t) (hr : t.root = some r) :
    ∃ g xs, t.nodes r = some g ∧ Represents g.children xs ∧ xs.length ≤ 2 ^ 52 := by
  obtain ⟨g, hg⟩ := h.rooted r hr
  obtain ⟨xs, hxs, hle⟩ := h.lists r g hg
  exact ⟨g, xs, hg, hxs, Nat.le_trans hxs.room (Nat.le_trans hle h.count)⟩

/-- **The search stops at the root**, with the place at which its list has the node, or with the length of the
list. -/
lemma Grown.getParent (h : Grown t) (hr : t.root = some r) (hnode : node ≠ t.root)
    (hchildren : t.Children r children) : t.getParent node = some (some (r, children.idxOf node)) := by
  obtain ⟨g, xs, hg, hxs, hlen⟩ := h.root_children hr
  obtain rfl := children_unique hchildren (children_of_represents hg hxs)
  have hidx : (xs.map Prod.snd).idxOf node ≤ 2 ^ 52 := by
    refine Nat.le_trans idxOf_le_length ?_
    rwa [length_map]
  have hmod : (xs.map Prod.snd).idxOf node % 2 ^ 64 = (xs.map Prod.snd).idxOf node := Nat.mod_eq_of_lt (by omega)
  have hne : (xs.map Prod.snd).idxOf node ≠ 2 ^ 64 - 1 := by omega
  rw [Gentree.getParent, if_neg hnode, hr, bind_some, getParentRecursive, hg, bind_some, hxs.contains node,
    bind_some, hmod, if_pos hne]

lemma getParent_root : t.getParent t.root = some none := if_pos rfl

lemma parentOf_iff (hchildren : t.Children p children) : t.ParentOf node p i ↔ children[i]? = some node := by
  constructor
  · rintro ⟨children', hchildren', hi⟩
    rwa [children_unique hchildren hchildren']
  · exact fun hi => ⟨children, hchildren, hi⟩

lemma Grown.children_root (h : Grown t) (hr : t.root = some r) : ∃ children, t.Children r children := by
  obtain ⟨g, xs, hg, hxs, -⟩ := h.root_children hr
  exact ⟨_, children_of_represents hg hxs⟩

lemma Grown.idxOf_eq (h : Grown t) (hchildren : t.Children p children) (hp : t.ParentOf node p i) :
    children.idxOf node = i := by
  have hmem : node ∈ children := mem_of_getElem? ((parentOf_iff hchildren).mp hp)
  have hidx : t.ParentOf node p (children.idxOf node) := (parentOf_iff hchildren).mpr (getElem?_idxOf hmem)
  exact (h.unique node _ _ _ _ hidx hp).2

lemma not_inTree (hr : t.root = none) : ¬ t.InTree node := by
  intro hin
  induction hin with
  | root hroot =>
    rw [hr] at hroot
    cases hroot
  | child _ _ ih => exact ih

/-- **The parent** is right for the root and for its children only. -/
lemma Grown.rightParent_iff (h : Grown t) (node : Ptr) : RightParent t node ↔ node = t.root ∨ t.UnderRoot node := by
  constructor
  · intro hright
    by_contra hnot
    obtain ⟨hne, hunder⟩ := not_or.mp hnot
    cases hr : t.root with
    | none =>
      have hnone := hright.none (.inr (not_inTree hr))
      rw [Gentree.getParent, if_neg hne, hr] at hnone
      cases hnone
    | some r =>
      obtain ⟨children, hchildren⟩ := h.children_root hr
      have hfound := h.getParent hr hne hchildren
      by_cases hin : t.InTree node
      · cases hin with
        | root hroot => exact hne hroot.symm
        | @child p i _ hp hparent =>
          -- a node further down gets the root, which is not its parent
          have hright' := hright.parent p i hne hp hparent
          rw [hfound] at hright'
          cases hright'
          exact hunder ⟨r, _, hr, hparent⟩
      · have hnone := hright.none (.inr hin)
        rw [hfound] at hnone
        cases hnone
  · rintro (rfl | ⟨r, i, hr, hp⟩)
    · exact ⟨fun _ => getParent_root, fun _ _ hne => absurd rfl hne⟩
    · obtain ⟨children, hchildren⟩ := h.children_root hr
      constructor
      · rintro (rfl | hout)
        · exact getParent_root
        · exact absurd (.child (.root hr) hp) hout
      · intro q j hne _ hq
        obtain ⟨rfl, rfl⟩ := h.unique node _ _ _ _ hp hq
        rw [h.getParent hr hne hchildren, h.idxOf_eq hchildren hp]

lemma Grown.remove_child (h : Grown t) (hr : t.root = some r) (hne : node ≠ t.root) (hp : t.ParentOf node r i) :
    RightRemove t node := by
  obtain ⟨g, xs, hg, hxs, -⟩ := h.root_children hr
  have hchildren := children_of_represents hg hxs
  have hi := (parentOf_iff hchildren).mp hp
  obtain ⟨c, -, rfl⟩ := h.made node r i hp
  have hlt : i < xs.length := by
    rw [← length_map Prod.snd]
    exact (List.getElem?_eq_some_iff.mp hi).1
  obtain ⟨returned, l', ys, hexec, hys, hread, hvalues⟩ := hxs.obeys_removeIndexed hlt
  have hcr : r ≠ c := fun he => hne (he ▸ hr.symm)
  have hremove : t.remove (some c) = some { t with
      nodes := update (update t.nodes r (some { g with children := l' })) c none } := by
    rw [Gentree.remove, h.getParent hr hne hchildren, h.idxOf_eq hchildren hp, bind_some]
    dsimp only
    rw [hg, bind_some, hexec, bind_some]
    dsimp only
    rw [hread, hi, join_some, map_some]
  refine ⟨r, i, _, _, hchildren, hi, hremove, rfl, ?_, fun q hqr hqc others => ?_⟩
  · refine ⟨{ g with children := l' }, _, ?_, hvalues ▸ hys.doubly.reads⟩
    exact (update_of_ne hcr ..).trans (update_self ..)
  · have hq : update (update t.nodes r (some { g with children := l' })) c none q = t.nodes q := by
      rw [update_of_ne (fun he => hqc (congrArg some he)), update_of_ne hqr]
    simp only [Gentree.Children, hq]

lemma Grown.remove_other (h : Grown t) (hr : t.root = some r) (hne : node ≠ t.root) (hunder : ¬ t.UnderRoot node) :
    t.remove node = none := by
  obtain ⟨g, xs, hg, hxs, -⟩ := h.root_children hr
  have hchildren := children_of_represents hg hxs
  have hmem : node ∉ xs.map Prod.snd := by
    intro hmem
    exact hunder ⟨r, _, hr, (parentOf_iff hchildren).mpr (getElem?_idxOf hmem)⟩
  have hidx : (xs.map Prod.snd).idxOf node = xs.length := by
    rw [idxOf_of_notMem hmem, length_map]
  rw [Gentree.remove, h.getParent hr hne hchildren, hidx, bind_some]
  dsimp only
  rw [hg, bind_some, exec, hxs.getIndexed_end (Nat.le_refl _)]
  rfl

lemma Grown.rightRemove_iff (h : Grown t) (hin : t.InTree node) (hne : node ≠ t.root) :
    RightRemove t node ↔ t.UnderRoot node := by
  obtain ⟨r, hr⟩ : ∃ r, t.root = some r := by
    cases hr : t.root with
    | none => exact absurd hin (not_inTree hr)
    | some r => exact ⟨r, rfl⟩
  constructor
  · rintro ⟨p, i, children, t', -, -, hremove, -⟩
    by_contra hunder
    rw [h.remove_other hr hne hunder] at hremove
    cases hremove
  · rintro ⟨r', i, hr', hp⟩
    exact h.remove_child hr' hne hp

/-- **Trees.** In every tree that was built by insertions, and for every pointer: the parent is found as it
should be exactly for the root and for its children, and of the other nodes exactly the children of the root are
removed as they should be. -/
theorem right_iff_under_root (calls : List (Ptr × α)) (hrun : run Gentree.step create calls = some t) (node : Ptr) :
    (RightParent t node ↔ node = t.root ∨ t.UnderRoot node) ∧
      (t.InTree node → node ≠ t.root → (RightRemove t node ↔ t.UnderRoot node)) :=
  have h := grown_of_run hrun
  ⟨h.rightParent_iff node, h.rightRemove_iff⟩

/-- The first of two children of the root has the right parent, and is removed as it should be. -/
theorem right_iff_under_root_three : ∃ t, run Gentree.step (create : Gentree Unit)
      [(none, ()), (some 0, ()), (some 0, ())] = some t ∧ RightParent t (some 1) ∧ RightRemove t (some 1) := by
  obtain ⟨t, hrun, hroot, hread⟩ := @exists_run _ _ Gentree.step (fun t : Gentree Unit => t.root = some 0 ∧
    ((t.nodes 0).bind fun node => (forward node.children).map fun nodes =>
      (nodes, nodes.map fun i => (node.children.heap i).map Linked.Node.value)) =
      some ([1, 0], [some (some 2), some (some 1)])) _ create [(none, ()), (some 0, ()), (some 0, ())]
        (by decide +kernel)
  obtain ⟨node, hnode, hread⟩ := bind_eq_some_iff.mp hread
  obtain ⟨nodes, hforward, hvalues⟩ := map_eq_some_iff.mp hread
  obtain ⟨rfl, hvalues⟩ := Prod.mk.inj hvalues
  have hparent : t.ParentOf (some 1) 0 1 := ⟨[some 2, some 1], ⟨node, [1, 0], hnode, hforward, hvalues⟩, rfl⟩
  obtain ⟨hright, hremove⟩ := right_iff_under_root _ hrun (some 1)
  have hne : some 1 ≠ t.root := by
    rw [hroot]
    decide
  exact ⟨t, hrun, hright.mpr (.inr ⟨0, 1, hroot, hparent⟩),
    (hremove (.child (.root hroot) hparent) hne).mpr ⟨0, 1, hroot, hparent⟩⟩

/-- A root, its child and a child of that: the last one gets the root as its parent, at place 1 of a list of one, and
cannot be removed; so does a pointer that is not in the tree. -/
theorem grandchild_misplaced : ∃ t, run Gentree.step (create : Gentree Unit)
      [(none, ()), (some 0, ()), (some 1, ())] = some t ∧
    t.getParent (some 2) = some (some (0, 1)) ∧ t.getParent (some 9) = some (some (0, 1)) ∧
      (t.remove (some 2)).isNone :=
  exists_run (P := fun t => t.getParent (some 2) = some (some (0, 1)) ∧ t.getParent (some 9) = some (some (0, 1)) ∧
    (t.remove (some 2)).isNone) Gentree.step (by decide +kernel)

end
end WivOS.Gentrees
