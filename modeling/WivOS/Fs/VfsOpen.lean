/-
# What an opened path denotes

`kopen` follows the components of a path behind the mount point. With `O_CREAT` the loop is left at the first component
that is missing, and a `vfs_create` that fails leaves the directory as the result. So the node is that of the path
exactly if the component to be created is the last and can be created (`opens_whole_path`, `opens_other_node`).
-/
import WivOS.Fs.Vfs

namespace WivOS.Vfs

open Option

open Lifetime (Heap)

/-! ### The node of a path -/

/-- `n` is the node of the path `toks` from `start` on: each component is consumed by a
successful `finddir`, or the last one, and no other, is created. -/
inductive Denotes (drv : Drivers) (creat : Bool) : List Path → Node → Heap → Node → Prop
  | here {start : Node} {h : Heap} : Denotes drv creat [] start h start
  | rest {tok : Path} {toks : List Path} {start : Node} {h : Heap} :
      drv.finddir (tok :: toks) = some true → Denotes drv creat (tok :: toks) start h (h.use start).alloc.1
  | into {tok : Path} {toks : List Path} {start n : Node} {h : Heap} :
      drv.finddir (tok :: toks) = some false →
      Denotes drv creat toks (h.use start).alloc.1 (h.use start).alloc.2 n → Denotes drv creat (tok :: toks) start h n
  | created {tok : Path} {start : Node} {h : Heap} :
      drv.finddir [tok] = none → creat = true → drv.create = true →
      Denotes drv creat [tok] start h ((h.use start).use start).alloc.1

def componentsFrom (name : Path) (filename : Option ℕ) : List Path :=
  filename.elim [] fun off => (name.drop off).splitOn '/'

/-- A node that is returned is that of the whole path; if the path has none, `NULL` is
returned. -/
def OpensWhole (drv : Drivers) (tree : MountTree) (name : Path) (flags : BitVec 32) (h : Heap) : Prop :=
  (∀ n, (kopen drv tree name flags h).1 = some n →
    ∃ start filename, vfsGetMountpoint tree name = (some start, filename) ∧
    Denotes drv (flags &&& oCreat ≠ 0) (componentsFrom name filename) start h n) ∧
  ∀ start filename, vfsGetMountpoint tree name = (some start, filename) →
    (∀ n, ¬ Denotes drv (flags &&& oCreat ≠ 0) (componentsFrom name filename) start h n) →
    (kopen drv tree name flags h).1 = none

/-- What is missing is the last component, and it can be created; or nothing is to be created. -/
def Completes (drv : Drivers) (creat : Bool) : List Path → Prop
  | [] => True
  | tok :: toks => match drv.finddir (tok :: toks) with
    | some true => True
    | some false => Completes drv creat toks
    | none => creat = true → toks = [] ∧ drv.create = true

/-! ### The loop -/

/-- **The loop of `kopen`** returns nodes of the whole path only, exactly if the path can be
completed. -/
lemma kopenWalk_denotes (drv : Drivers) (creat : Bool) : ∀ (toks : List Path) (start : Node) (h : Heap),
    (∀ n, (kopenWalk drv creat toks start h).1 = some n → Denotes drv creat toks start h n) ↔ Completes drv creat toks
  | [], start, h => by
    refine iff_of_true (fun n hn => ?_) trivial
    cases hn
    exact .here
  | tok :: toks, start, h => by
    rw [kopenWalk, Completes]
    cases hfind : drv.finddir (tok :: toks) with
    | some handled =>
      cases handled with
      | true =>
        refine iff_of_true (fun n hn => ?_) trivial
        cases hn
        exact .rest hfind
      | false =>
        rw [← kopenWalk_denotes drv creat toks (h.use start).alloc.1 (h.use start).alloc.2]
        refine forall_congr' fun n => imp_congr_right fun _ => ⟨fun hd => ?_, .into hfind⟩
        cases hd with
        | rest hrest =>
          rw [hfind] at hrest
          cases hrest
        | into _ hd => exact hd
        | created hnone =>
          rw [hfind] at hnone
          cases hnone
    | none =>
      -- only a created last component has a node
      have hdenotes : ∀ n, Denotes drv creat (tok :: toks) start h n → toks = [] ∧ drv.create = true := by
        intro n hd
        cases hd with
        | rest hrest =>
          rw [hfind] at hrest
          cases hrest
        | into hinto =>
          rw [hfind] at hinto
          cases hinto
        | created _ _ hcreate => exact ⟨rfl, hcreate⟩
      cases creat with
      | false => exact iff_of_true (fun n hn => by cases hn) (fun hf => by cases hf)
      | true =>
        simp only [if_true]
        constructor
        · intro hall _
          split at hall
          · exact hdenotes _ (hall _ rfl)
          · exact hdenotes _ (hall _ rfl)
        · intro hlast n hn
          obtain ⟨rfl, hcreate⟩ := hlast trivial
          rw [if_pos hcreate] at hn
          cases hn
          exact .created hfind rfl hcreate

lemma kopen_fst (drv : Drivers) (tree : MountTree) (name : Path) (flags : BitVec 32) (h : Heap) :
    (kopen drv tree name flags h).1 = (vfsGetMountpoint tree name).1.bind fun start =>
      (kopenWalk drv (flags &&& oCreat ≠ 0) (componentsFrom name (vfsGetMountpoint tree name).2) start h).1 := by
  rw [kopen]
  split
  · rename_i heq
    rw [heq]
    rfl
  · rename_i start filename heq
    rw [heq]
    simp only [bind_some]
    split
    · rename_i hwalk
      exact (congrArg Prod.fst hwalk).symm
    · rename_i hwalk
      exact (congrArg Prod.fst hwalk).symm

/-- **What `kopen` returns** is the node of the whole path, or `NULL` if there is none, exactly if
with `O_CREAT` a component that is missing is the last one and can be created. -/
theorem opens_whole_path (drv : Drivers) (tree : MountTree) (name : Path) (flags : BitVec 32) (h : Heap) :
    OpensWhole drv tree name flags h ↔ ∀ start filename, vfsGetMountpoint tree name = (some start, filename) →
      Completes drv (flags &&& oCreat ≠ 0) (componentsFrom name filename) := by
  unfold OpensWhole
  rw [kopen_fst]
  cases hmount : vfsGetMountpoint tree name with
  | mk node filename =>
    cases node with
    | none =>
      refine iff_of_true ⟨fun n hn => ?_, fun _ _ he => ?_⟩ fun _ _ he => ?_
      · cases hn
      · cases he
      · cases he
    | some start =>
      simp only [bind_some]
      constructor
      · rintro ⟨hwhole, -⟩ start' filename' he
        cases he
        refine (kopenWalk_denotes _ _ _ start h).mp fun n hn => ?_
        obtain ⟨start', filename', he, hd⟩ := hwhole n hn
        cases he
        exact hd
      · intro hcompletes
        have hwalk := (kopenWalk_denotes _ _ _ start h).mpr (hcompletes start filename rfl)
        refine ⟨fun n hn => ⟨start, filename, rfl, hwalk n hn⟩, fun start' filename' he hnot => ?_⟩
        cases he
        by_contra hne
        obtain ⟨n, hn⟩ := ne_none_iff_exists'.mp hne
        exact hnot n (hwalk n hn)

/-- **A node of another path.** The root has no `a`. Opening `/a` with `O_CREAT` where nothing can be
created returns the root itself; opening `/a/b` where it can creates a file `a` and returns that. -/
theorem opens_other_node :
    ((kopen ⟨fun _ => none, false⟩ (.entry [] (some 0) []) ['/', 'a'] oCreat ⟨1, []⟩).1 = some 0 ∧
      ∀ n, ¬ Denotes ⟨fun _ => none, false⟩ true (componentsFrom ['/', 'a'] (some 1)) 0 ⟨1, []⟩ n) ∧
    ((kopen ⟨fun _ => none, true⟩ (.entry [] (some 0) []) ['/', 'a', '/', 'b'] oCreat ⟨1, []⟩).1 = some 1 ∧
      ∀ n, ¬ Denotes ⟨fun _ => none, true⟩ true (componentsFrom ['/', 'a', '/', 'b'] (some 1)) 0 ⟨1, []⟩ n) := by
  have hone : componentsFrom ['/', 'a'] (some 1) = [['a']] := by decide
  have htwo : componentsFrom ['/', 'a', '/', 'b'] (some 1) = [['a'], ['b']] := by decide
  rw [hone, htwo]
  refine ⟨⟨by decide, fun n hd => ?_⟩, by decide, fun n hd => ?_⟩
  · cases hd with
    | rest hrest => cases hrest
    | into hinto => cases hinto
    | created _ _ hcreate => cases hcreate
  · cases hd with
    | rest hrest => cases hrest
    | into hinto => cases hinto

end WivOS.Vfs
