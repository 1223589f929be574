/-
# The VFS tree and opening a path

`kernel/fs/vfs.c`: the tree of mount points, the search in it, and `kopen`. A `vfs_node_t` is known by its place in the
order of allocations, and the heap (`Lifetime.Heap`) records the operations on it. What the file systems answer is a
parameter of `kopen` (`Drivers`); a path that names a mount point is answered with the mounted node itself.
-/
import Mathlib.Data.BitVec
import WivOS.Lib.Lifetime

namespace WivOS.Vfs

open List Option

open Lifetime (Heap)

abbrev Path := List Char

abbrev Node := ℕ

def oCreat : BitVec 32 := 0x0010

/-! ### The tree of mount points -/

/-- A `vfs_entry_t` in the tree; an entry without a node only leads to others. -/
inductive MountTree where
  | entry (name : Path) (node : Option Node) (children : List MountTree)

namespace MountTree

def name : MountTree → Path
  | entry name _ _ => name

def node : MountTree → Option Node
  | entry _ node _ => node

def children : MountTree → List MountTree
  | entry _ _ children => children

mutual
def nodes : MountTree → List Node
  | entry _ node children => node.toList ++ forestNodes children
def forestNodes : List MountTree → List Node
  | [] => []
  | t :: ts => t.nodes ++ forestNodes ts
end

variable {n new : Node} {tree : MountTree}

lemma mem_forestNodes : ∀ {ts : List MountTree}, n ∈ forestNodes ts ↔ ∃ t ∈ ts, n ∈ t.nodes
  | [] => by simp [forestNodes]
  | t :: ts => by
    rw [forestNodes, mem_append, mem_forestNodes]
    simp

lemma mem_nodes : ∀ {t : MountTree}, n ∈ t.nodes ↔ t.node = some n ∨ ∃ c ∈ t.children, n ∈ c.nodes
  | entry nm nd cs => by
    rw [nodes, mem_append, mem_toList, mem_forestNodes]
    rfl

end MountTree

/-- `vfs_get_mountpoint_recursive` on the tokens that `strsep` cuts from the path,
the first of them at the offset `off`: the node found, and where the path is left
(`none`: `NULL`). -/
def vfsGetMountpointRecursive : List Path → ℕ → MountTree → Option Node × Option ℕ
  | [], _, subroot => (subroot.node, none)
  | currentToken :: rest, off, subroot =>
    if currentToken = [] then (subroot.node, if rest = [] then none else some (off + 1))
    else match subroot.children.find? (·.name = currentToken) with
      | some child => vfsGetMountpointRecursive rest (off + currentToken.length + 1) child
      | none => (subroot.node, some off)

def vfsGetMountpoint (tree : MountTree) (name : Path) : Option Node × Option ℕ :=
  let path := if 1 < name.length ∧ name.getLast? = some '/' then name.dropLast else name
  if path.head? ≠ some '/' then (none, some 0)
  else if path.length = 1 then (tree.node, none)
  else vfsGetMountpointRecursive (path.tail.splitOn '/') 1 tree

open MountTree

lemma vfsGetMountpointRecursive_mem : ∀ (toks : List Path) (off : ℕ) (t : MountTree),
    (vfsGetMountpointRecursive toks off t).1 = some n → n ∈ t.nodes
  | [], _, t, h => mem_nodes.mpr (.inl h)
  | tok :: rest, off, t, h => by
    rw [vfsGetMountpointRecursive] at h
    by_cases htok : tok = []
    · rw [if_pos htok] at h
      exact mem_nodes.mpr (.inl h)
    · rw [if_neg htok] at h
      split at h
      · rename_i child hfind
        have hmem := vfsGetMountpointRecursive_mem rest _ child h
        exact mem_nodes.mpr (.inr ⟨child, mem_of_find?_eq_some hfind, hmem⟩)
      · exact mem_nodes.mpr (.inl h)

lemma vfsGetMountpoint_mem {name : Path} (h : (vfsGetMountpoint tree name).1 = some n) : n ∈ tree.nodes := by
  simp only [vfsGetMountpoint] at h
  generalize (if 1 < name.length ∧ name.getLast? = some '/' then name.dropLast else name) = path at h
  split_ifs at h
  · exact mem_nodes.mpr (.inl h)
  · exact vfsGetMountpointRecursive_mem _ _ _ h

/-! ### Opening -/

/-- What the file systems answer during one `kopen`. `finddir` is given the tokens
still to come: `none` if the first is not found, else whether the file system
went through the rest by itself. `create` says whether a node could be made. -/
structure Drivers where
  finddir : List Path → Option Bool
  create : Bool

/-- The loop of `kopen` over the tokens of the path behind the mount point. A
file system that makes no node leaves `startPoint` as the result. -/
def kopenWalk (drv : Drivers) (creat : Bool) : List Path → Node → Heap → Option Node × Heap
  | [], startPoint, h => (some startPoint, h)
  | currentToken :: rest, startPoint, h =>
    let h := h.use startPoint
    match drv.finddir (currentToken :: rest) with
    | some handled =>
      let a := h.alloc
      if handled then (some a.1, a.2) else kopenWalk drv creat rest a.1 a.2
    | none =>
      if creat then
        let h := h.use startPoint
        if drv.create then (some h.alloc.1, h.alloc.2) else (some startPoint, h)
      else (none, h)

/-- `kopen`. The `strstr` on the saved copy of the name finds `filename` at the
offset where it was left, so the tokens are those of the name from there on. -/
def kopen (drv : Drivers) (tree : MountTree) (name : Path) (flags : BitVec 32) (h : Heap) : Option Node × Heap :=
  match vfsGetMountpoint tree name with
  | (none, _) => (none, h)
  | (some startPoint, filename) =>
    let tokens := filename.elim [] fun off => (name.drop off).splitOn '/'
    match kopenWalk drv (flags &&& oCreat ≠ 0) tokens startPoint h with
    | (none, h) => (none, h)
    | (some nextNode, h) => (some nextNode, h.use nextNode)

lemma kopenWalk_spec (drv : Drivers) (creat : Bool) : ∀ (toks : List Path) (start : Node) (h : Heap),
    h.Good → h.Live start → Heap.Kept h (kopenWalk drv creat toks start h).2 ∧
      ∀ n, (kopenWalk drv creat toks start h).1 = some n → (kopenWalk drv creat toks start h).2.Live n
  | [], start, h, _, hl => ⟨.refl h, fun n hn => some.inj hn ▸ hl⟩
  | tok :: rest, start, h, hg, hl => by
    have hk := Heap.Kept.use hl
    rw [kopenWalk]
    cases drv.finddir (tok :: rest) with
    | some handled =>
      have hnew := (hk.good hg).live_alloc
      have hka := hk.trans (.alloc (h.use start))
      cases handled with
      | true => exact ⟨hka, fun n hn => some.inj hn ▸ hnew⟩
      | false =>
        obtain ⟨hkr, hr⟩ := kopenWalk_spec drv creat rest _ _ (hka.good hg) hnew
        exact ⟨hka.trans hkr, hr⟩
    | none =>
      -- `vfs_create` is tried on the directory that `vfs_finddir` was
      have hk' := hk.trans (.use (hk.live start hl))
      cases creat with
      | false => exact ⟨hk, nofun⟩
      | true =>
        cases hc : drv.create with
        | true =>
          simp only [if_true]
          exact ⟨hk'.trans (.alloc _), fun n hn => some.inj hn ▸ (hk'.good hg).live_alloc⟩
        | false =>
          simp only [if_true]
          exact ⟨hk', fun n hn => some.inj hn ▸ hk'.live start hl⟩

lemma kopen_spec {drv : Drivers} {name : Path} {flags : BitVec 32} {h h' : Heap} {r : Option Node} (hg : h.Good)
    (hm : ∀ n ∈ tree.nodes, h.Live n) (e : kopen drv tree name flags h = (r, h')) :
    Heap.Kept h h' ∧ ∀ n, r = some n → h'.Live n := by
  rw [kopen] at e
  split at e
  · cases e
    exact ⟨.refl h, nofun⟩
  · rename_i start filename hmp
    have hstart := hm start (vfsGetMountpoint_mem (by rw [hmp]))
    have hw := kopenWalk_spec drv (flags &&& oCreat ≠ 0)
      (filename.elim [] fun off => (name.drop off).splitOn '/') start h hg hstart
    simp only at e
    split at e
    · rename_i h1 heq
      rw [heq] at hw
      cases e
      exact ⟨hw.1, nofun⟩
    · rename_i n h1 heq
      rw [heq] at hw
      cases e
      have hl := hw.2 n rfl
      have hk := Heap.Kept.use hl
      exact ⟨hw.1.trans hk, fun m hm => some.inj hm ▸ hk.live n hl⟩

/-! ### Mounting -/

def modifyFirst {α : Type*} (p : α → Bool) (f : α → α) : List α → List α
  | [] => []
  | a :: l => if p a then f a :: l else a :: modifyFirst p f l

lemma mem_modifyFirst {α : Type*} {p : α → Bool} {f : α → α} {b : α} : ∀ {l : List α},
    b ∈ modifyFirst p f l → b ∈ l ∨ ∃ a ∈ l, b = f a
  | [], h => absurd h not_mem_nil
  | a :: l, h => by
    rw [modifyFirst] at h
    split_ifs at h
    · rcases mem_cons.mp h with rfl | h
      · exact .inr ⟨a, mem_cons_self, rfl⟩
      · exact .inl (mem_cons_of_mem a h)
    · rcases mem_cons.mp h with rfl | h
      · exact .inl mem_cons_self
      · rcases mem_modifyFirst h with h | ⟨c, hc, rfl⟩
        · exact .inl (mem_cons_of_mem a h)
        · exact .inr ⟨c, mem_cons_of_mem a hc, rfl⟩

def MountTree.setNode (new : Node) : MountTree → MountTree
  | entry name node children => entry name (node.or (some new)) children

/-- `vfs_mount_recursive` on the tokens of the path. A missing entry is put in front
of its siblings (`gentree_insert`). -/
def vfsMountRecursive (new : Node) : List Path → MountTree → MountTree
  | [], subroot => subroot.setNode new
  | currentToken :: rest, subroot =>
    if currentToken = [] then subroot.setNode new
    else if subroot.children.any (·.name = currentToken) then
      .entry subroot.name subroot.node
        (modifyFirst (·.name = currentToken) (vfsMountRecursive new rest) subroot.children)
    else
      .entry subroot.name subroot.node
        (vfsMountRecursive new rest (.entry currentToken none []) :: subroot.children)

def vfsMount (path : Path) (new : Node) (tree : MountTree) : MountTree :=
  if path = ['/'] then tree.setNode new
  else vfsMountRecursive new (path.tail.splitOn '/') tree

lemma mem_setNode : ∀ {t : MountTree}, n ∈ (t.setNode new).nodes → n = new ∨ n ∈ t.nodes
  | .entry name node children, h => by
    rcases mem_nodes.mp h with h | h
    · cases node with
      | none => exact .inl (some.inj h).symm
      | some m => exact .inr (mem_nodes.mpr (.inl h))
    · exact .inr (mem_nodes.mpr (.inr h))

lemma mem_vfsMountRecursive : ∀ (toks : List Path) (t : MountTree),
    n ∈ (vfsMountRecursive new toks t).nodes → n = new ∨ n ∈ t.nodes
  | [], t, h => mem_setNode h
  | tok :: rest, t, h => by
    rw [vfsMountRecursive] at h
    split_ifs at h
    · exact mem_setNode h
    · rcases mem_nodes.mp h with h | ⟨c, hc, hn⟩
      · exact .inr (mem_nodes.mpr (.inl h))
      · rcases mem_modifyFirst hc with hc | ⟨d, hd, rfl⟩
        · exact .inr (mem_nodes.mpr (.inr ⟨c, hc, hn⟩))
        · exact (mem_vfsMountRecursive rest d hn).imp_right fun hn =>
            mem_nodes.mpr (.inr ⟨d, hd, hn⟩)
    · rcases mem_nodes.mp h with h | ⟨c, hc, hn⟩
      · exact .inr (mem_nodes.mpr (.inl h))
      · rcases mem_cons.mp hc with rfl | hc
        · exact (mem_vfsMountRecursive rest _ hn).imp_right fun hn => by
            simp [nodes, forestNodes] at hn
        · exact .inr (mem_nodes.mpr (.inr ⟨c, hc, hn⟩))

lemma mem_vfsMount {path : Path} (h : n ∈ (vfsMount path new tree).nodes) : n = new ∨ n ∈ tree.nodes := by
  rw [vfsMount] at h
  split_ifs at h
  · exact mem_setNode h
  · exact mem_vfsMountRecursive _ _ h

end WivOS.Vfs
