/-
# What a path resolves to

The tree of mount points of `kernel/fs/vfs.c` after a sequence of mounts, and the search in it. It ends at the last
entry along the path, whether something is mounted there or not, so it finds the longest mounted prefix unless another
mount branches off behind it (`resolves_at_longest`, `mount_hides_root`).
-/
import WivOS.Fs.Vfs

namespace WivOS.Vfs

open List
open Option hiding or_assoc

/-! ### Paths and mounts -/

def absPath (p : List Path) : Path := '/' :: ['/'].intercalate p

def Components (p : List Path) : Prop := ∀ c ∈ p, c ≠ [] ∧ '/' ∉ c

def emptyTree : MountTree := .entry "root".toList none []

def mountAll (mounts : List (List Path × Node)) : MountTree :=
  mounts.foldl (fun tree m => vfsMount (absPath m.1) m.2 tree) emptyTree

def mountedAt (mounts : List (List Path × Node)) (p : List Path) : Option Node :=
  (mounts.find? (·.1 = p)).map Prod.snd

def openFrom (drv : Drivers) (flags : BitVec 32) (startPoint : Node) (tokens : List Path) (h : Lifetime.Heap) :
    Option Node × Lifetime.Heap :=
  match kopenWalk drv (flags &&& oCreat ≠ 0) tokens startPoint h with
  | (none, h) => (none, h)
  | (some nextNode, h) => (some nextNode, h.use nextNode)

/-- `vfs_get_mountpoint` returns the node mounted at the longest mounted prefix of the
path, and `kopen` goes on from there with the components behind the prefix; or no prefix
is mounted and the path is not found. -/
def Resolves (mounts : List (List Path × Node)) (p : List Path) : Prop :=
  ((∀ k ≤ p.length, mountedAt mounts (p.take k) = none) ∧ (vfsGetMountpoint (mountAll mounts) (absPath p)).1 = none) ∨
  ∃ k n, k ≤ p.length ∧ mountedAt mounts (p.take k) = some n ∧
    (∀ j, k < j → j ≤ p.length → mountedAt mounts (p.take j) = none) ∧
    (vfsGetMountpoint (mountAll mounts) (absPath p)).1 = some n ∧
    ∀ drv flags h, kopen drv (mountAll mounts) (absPath p) flags h = openFrom drv flags n (p.drop k) h

/-- No mounted path goes with the path further than its longest mounted prefix, or no
prefix of the path is mounted. -/
def Unbranched (mounts : List (List Path × Node)) (p : List Path) : Prop :=
  (∀ k ≤ p.length, mountedAt mounts (p.take k) = none) ∨
  ∃ k ≤ p.length, mountedAt mounts (p.take k) ≠ none ∧ ∀ j, k < j → j ≤ p.length → ∀ m ∈ mounts, ¬ p.take j <+: m.1

/-! ### The tree as a map from paths -/

def MountTree.descend : List Path → MountTree → Option MountTree
  | [], t => some t
  | c :: p, t => (t.children.find? (·.name = c)).bind (descend p)

def MountTree.nodeAt (t : MountTree) (p : List Path) : Option Node := (t.descend p).bind node

lemma name_setNode (new : Node) : ∀ t : MountTree, (t.setNode new).name = t.name
  | .entry _ _ _ => rfl

lemma name_vfsMountRecursive (new : Node) : ∀ (toks : List Path) (t : MountTree),
    (vfsMountRecursive new toks t).name = t.name
  | [], t => name_setNode new t
  | tok :: toks, t => by
    rw [vfsMountRecursive]
    split
    · exact name_setNode new t
    · split <;> rfl

lemma find_modifyFirst {α β : Type*} [DecidableEq β] (f : α → β) (g : α → α) (hf : ∀ a, f (g a) = f a) (b c : β) :
    ∀ l : List α, (modifyFirst (f · = b) g l).find? (f · = c) =
      if c = b then (l.find? (f · = b)).map g else l.find? (f · = c)
  | [] => by simp [modifyFirst]
  | a :: l => by
    have ih := find_modifyFirst f g hf b c l
    by_cases hab : f a = b <;> by_cases hcb : c = b <;> by_cases hac : f a = c <;> simp_all [modifyFirst]

lemma find_vfsMountRecursive (new : Node) {tok : Path} (htok : tok ≠ []) (toks : List Path) (t : MountTree) (c : Path) :
    (vfsMountRecursive new (tok :: toks) t).children.find? (·.name = c) =
      if c = tok then some (vfsMountRecursive new toks ((t.children.find? (·.name = tok)).getD (.entry tok none [])))
      else t.children.find? (·.name = c) := by
  rw [vfsMountRecursive, if_neg htok]
  split
  · rename_i hany
    rw [MountTree.children, find_modifyFirst MountTree.name _ (name_vfsMountRecursive new toks)]
    split
    · obtain ⟨d, hd⟩ : ∃ d, t.children.find? (·.name = tok) = some d := by
        rw [← isSome_iff_exists, find?_isSome]
        simpa using hany
      rw [hd]
      rfl
    · rfl
  · rename_i hany
    have hnone : t.children.find? (·.name = tok) = none := by
      rw [find?_eq_none]
      simpa using hany
    rw [MountTree.children, find?_cons, name_vfsMountRecursive, MountTree.name, hnone]
    by_cases hc : c = tok
    · simp [hc]
    · simp [hc, Ne.symm hc]

lemma descend_vfsMountRecursive (new : Node) {tok : Path} (htok : tok ≠ []) (toks : List Path) (t : MountTree)
    (c : Path) (p : List Path) : (vfsMountRecursive new (tok :: toks) t).descend (c :: p) = if c = tok then
        (vfsMountRecursive new toks ((t.children.find? (·.name = tok)).getD (.entry tok none []))).descend p
      else t.descend (c :: p) := by
  rw [MountTree.descend, find_vfsMountRecursive new htok]
  split <;> rfl

lemma descend_entry (name : Path) (node : Option Node) (c : Path) (p : List Path) :
    (MountTree.entry name node []).descend (c :: p) = none := rfl

lemma nodeAt_vfsMountRecursive (new : Node) : ∀ (toks : List Path), Components toks → ∀ (t : MountTree) (p : List Path),
    (vfsMountRecursive new toks t).nodeAt p = if toks = p then (t.nodeAt p).or (some new) else t.nodeAt p
  | [], _, .entry name node children, [] => rfl
  | [], _, .entry name node children, c :: p => rfl
  | tok :: toks, hcomp, t, [] => by
    rw [if_neg nofun, vfsMountRecursive, if_neg (hcomp tok mem_cons_self).1]
    split <;> rfl
  | tok :: toks, hcomp, t, c :: p => by
    have hrest : Components toks := fun d hd => hcomp d (mem_cons_of_mem tok hd)
    rw [MountTree.nodeAt, descend_vfsMountRecursive new (hcomp tok mem_cons_self).1]
    by_cases hc : c = tok
    · subst hc
      -- the child that was there, or a new one that holds nothing
      have hchild : t.nodeAt (c :: p) = ((t.children.find? (·.name = c)).getD (.entry c none [])).nodeAt p := by
        rw [MountTree.nodeAt, MountTree.descend]
        cases t.children.find? (·.name = c) with
        | some d => rfl
        | none => cases p <;> rfl
      have ih := nodeAt_vfsMountRecursive new toks hrest ((t.children.find? (·.name = c)).getD (.entry c none [])) p
      rw [if_pos rfl, ← MountTree.nodeAt, ih, hchild]
      simp only [List.cons.injEq, true_and]
    · rw [if_neg hc, if_neg (fun he => hc (List.cons.inj he).1.symm)]
      rfl

lemma descend_isSome_vfsMountRecursive (new : Node) : ∀ (toks : List Path), Components toks →
    ∀ (t : MountTree) (p : List Path), ((vfsMountRecursive new toks t).descend p).isSome = true ↔
      (t.descend p).isSome = true ∨ p <+: toks
  | _, _, t, [] => by simp [MountTree.descend]
  | [], _, .entry name node children, c :: p => by
    simp [vfsMountRecursive, MountTree.setNode, MountTree.descend, MountTree.children]
  | tok :: toks, hcomp, t, c :: p => by
    have hrest : Components toks := fun d hd => hcomp d (mem_cons_of_mem tok hd)
    rw [descend_vfsMountRecursive new (hcomp tok mem_cons_self).1, cons_prefix_cons]
    by_cases hc : c = tok
    · subst hc
      rw [if_pos rfl, descend_isSome_vfsMountRecursive new toks hrest, MountTree.descend]
      cases t.children.find? (·.name = c) with
      | some d => simp
      | none =>
        cases p with
        | nil => simp [MountTree.descend]
        | cons d p => simp [descend_entry]
    · rw [if_neg hc]
      simp [hc]

/-! ### Paths as strings -/

variable {p : List Path} {mounts : List (List Path × Node)}

lemma splitOn_intercalate_components (hcomp : Components p) (hne : p ≠ []) : (['/'].intercalate p).splitOn '/' = p :=
  splitOn_intercalate '/' (fun c hc => (hcomp c hc).2) hne

lemma vfsMount_absPath (hcomp : Components p) (new : Node) (t : MountTree) :
    vfsMount (absPath p) new t = vfsMountRecursive new p t := by
  cases p with
  | nil => rfl
  | cons c p =>
    have hne : absPath (c :: p) ≠ ['/'] := by
      intro h
      have hsplit := splitOn_intercalate_components hcomp (cons_ne_nil c p)
      rw [(List.cons.inj h).2] at hsplit
      cases hsplit
      exact (hcomp [] mem_cons_self).1 rfl
    rw [vfsMount, if_neg hne, absPath, tail_cons, splitOn_intercalate_components hcomp (cons_ne_nil c p)]

lemma intercalate_ne_nil {c : Path} (hc : c ≠ []) : ['/'].intercalate (c :: p) ≠ [] := by
  cases p with
  | nil => simpa using hc
  | cons d p => simp

lemma getLast_intercalate : ∀ (p : List Path), Components p → (['/'].intercalate p).getLast? ≠ some '/'
  | [], _ => by simp
  | [c], hcomp => by
    intro h
    rw [intercalate_singleton] at h
    exact (hcomp c mem_cons_self).2 (mem_of_getLast? h)
  | c :: d :: p, hcomp => by
    have hrest : Components (d :: p) := fun e he => hcomp e (mem_cons_of_mem c he)
    have hne := intercalate_ne_nil (p := p) (hcomp d (mem_cons_of_mem c mem_cons_self)).1
    rw [intercalate_cons_cons, getLast?_append_of_ne_nil _ hne]
    exact getLast_intercalate (d :: p) hrest

lemma vfsGetMountpoint_absPath (hcomp : Components p) (tree : MountTree) :
    vfsGetMountpoint tree (absPath p) = vfsGetMountpointRecursive p 1 tree := by
  cases p with
  | nil => rfl
  | cons c p =>
    have hne := intercalate_ne_nil (p := p) (hcomp c mem_cons_self).1
    have hlast : (absPath (c :: p)).getLast? ≠ some '/' := by
      rw [absPath, getLast?_cons_of_ne_nil hne]
      exact getLast_intercalate (c :: p) hcomp
    have hlen : (absPath (c :: p)).length ≠ 1 := by
      rw [absPath, length_cons]
      have hpos := length_pos_iff.mpr hne
      omega
    have hhead : (absPath (c :: p)).head? = some '/' := rfl
    simp only [vfsGetMountpoint, hlast, and_false, if_false]
    rw [if_neg (not_not.mpr hhead), if_neg hlen, absPath, tail_cons,
      splitOn_intercalate_components hcomp (cons_ne_nil c p)]

/-! ### The search -/

lemma vfsGetMountpointRecursive_descend (name : Path) :
    ∀ (toks : List Path), Components toks → ∀ (off : ℕ) (t : MountTree),
    (toks ≠ [] → name.drop off = ['/'].intercalate toks) →
    ∃ k sub, k ≤ toks.length ∧ t.descend (toks.take k) = some sub ∧
      (k < toks.length → t.descend (toks.take (k + 1)) = none) ∧ (vfsGetMountpointRecursive toks off t).1 = sub.node ∧
      (vfsGetMountpointRecursive toks off t).2.elim [] (fun off => (name.drop off).splitOn '/') = toks.drop k
  | [], _, off, t, _ => ⟨0, t, Nat.le_refl _, rfl, nofun, rfl, rfl⟩
  | tok :: toks, hcomp, off, t, hname => by
    have htok := (hcomp tok mem_cons_self).1
    have hrest : Components toks := fun d hd => hcomp d (mem_cons_of_mem tok hd)
    have hdrop := hname (cons_ne_nil tok toks)
    rw [vfsGetMountpointRecursive, if_neg htok]
    cases hfind : t.children.find? (·.name = tok) with
    | none =>
      refine ⟨0, t, Nat.zero_le _, rfl, fun _ => ?_, rfl, ?_⟩
      · rw [take_succ_cons, MountTree.descend, hfind]
        rfl
      · rw [elim_some, hdrop, splitOn_intercalate_components hcomp (cons_ne_nil tok toks)]
        rfl
    | some child =>
      have hnext : toks ≠ [] → name.drop (off + tok.length + 1) = ['/'].intercalate toks := by
        intro hne
        obtain ⟨d, rest, rfl⟩ := exists_cons_of_ne_nil hne
        rw [intercalate_cons_cons] at hdrop
        rw [Nat.add_assoc, ← drop_drop, hdrop, append_assoc, ← drop_drop, drop_left]
        rfl
      obtain ⟨k, sub, hk, hsub, hlast, hnode, hpath⟩ :=
        vfsGetMountpointRecursive_descend name toks hrest (off + tok.length + 1) child hnext
      refine ⟨k + 1, sub, Nat.succ_le_succ hk, ?_, fun hlt => ?_, hnode, hpath⟩
      · rw [take_succ_cons, MountTree.descend, hfind]
        exact hsub
      · rw [take_succ_cons, MountTree.descend, hfind]
        exact hlast (Nat.lt_of_succ_lt_succ hlt)

/-! ### A sequence of mounts -/

lemma nodeAt_foldl (p : List Path) : ∀ (mounts : List (List Path × Node)), (∀ m ∈ mounts, Components m.1) →
    ∀ t : MountTree,
    (mounts.foldl (fun tree m => vfsMount (absPath m.1) m.2 tree) t).nodeAt p = (t.nodeAt p).or (mountedAt mounts p)
  | [], _, t => by simp [mountedAt]
  | (q, new) :: mounts, hcomp, t => by
    have hq := hcomp (q, new) mem_cons_self
    rw [foldl_cons, nodeAt_foldl p mounts fun m hm => hcomp m (mem_cons_of_mem _ hm), vfsMount_absPath hq,
      nodeAt_vfsMountRecursive new q hq, mountedAt, mountedAt, find?_cons]
    by_cases hqp : q = p
    · simp [hqp]
    · simp [hqp]

lemma descend_foldl (p : List Path) : ∀ (mounts : List (List Path × Node)), (∀ m ∈ mounts, Components m.1) →
    ∀ t : MountTree, ((mounts.foldl (fun tree m => vfsMount (absPath m.1) m.2 tree) t).descend p).isSome = true ↔
      (t.descend p).isSome = true ∨ ∃ m ∈ mounts, p <+: m.1
  | [], _, t => by simp
  | (q, new) :: mounts, hcomp, t => by
    have hq := hcomp (q, new) mem_cons_self
    rw [foldl_cons, descend_foldl p mounts fun m hm => hcomp m (mem_cons_of_mem _ hm), vfsMount_absPath hq,
      descend_isSome_vfsMountRecursive new q hq, or_assoc]
    simp only [mem_cons, exists_eq_or_imp]

lemma nodeAt_mountAll (hcomp : ∀ m ∈ mounts, Components m.1) (p : List Path) :
    (mountAll mounts).nodeAt p = mountedAt mounts p := by
  have hempty : emptyTree.nodeAt p = none := by cases p <;> rfl
  rw [mountAll, nodeAt_foldl p mounts hcomp, hempty, none_or]

lemma descend_mountAll (hcomp : ∀ m ∈ mounts, Components m.1) (p : List Path) :
    ((mountAll mounts).descend p).isSome = true ↔ p = [] ∨ ∃ m ∈ mounts, p <+: m.1 := by
  have hempty : (emptyTree.descend p).isSome = true ↔ p = [] := by
    cases p <;> simp [MountTree.descend, emptyTree, MountTree.children]
  rw [mountAll, descend_foldl p mounts hcomp, hempty]

lemma mountedAt_mem (h : mountedAt mounts p ≠ none) : ∃ m ∈ mounts, p <+: m.1 := by
  obtain ⟨n, hn⟩ := ne_none_iff_exists'.mp h
  obtain ⟨m, hm, -⟩ := map_eq_some_iff.mp hn
  have hmp : m.1 = p := by simpa using find?_some hm
  exact ⟨m, mem_of_find?_eq_some hm, hmp ▸ prefix_refl _⟩

/-- What `vfs_get_mountpoint` and `kopen` do, in terms of the mounts: they end at the last
prefix of the path that leads to a mount point. -/
lemma getMountpoint_descend (hmounts : ∀ m ∈ mounts, Components m.1) (hp : Components p) :
    ∃ k, k ≤ p.length ∧ ((mountAll mounts).descend (p.take k)).isSome = true ∧
      (∀ j, k < j → j ≤ p.length → ∀ m ∈ mounts, ¬ p.take j <+: m.1) ∧
      (vfsGetMountpoint (mountAll mounts) (absPath p)).1 = mountedAt mounts (p.take k) ∧
      ∀ drv flags h n, mountedAt mounts (p.take k) = some n →
        kopen drv (mountAll mounts) (absPath p) flags h = openFrom drv flags n (p.drop k) h := by
  obtain ⟨k, sub, hk, hsub, hlast, hnode, htokens⟩ :=
    vfsGetMountpointRecursive_descend (absPath p) p hp 1 (mountAll mounts) (fun _ => rfl)
  rw [← vfsGetMountpoint_absPath hp] at hnode htokens
  have hmounted : (vfsGetMountpoint (mountAll mounts) (absPath p)).1 = mountedAt mounts (p.take k) := by
    rw [hnode, ← nodeAt_mountAll hmounts, MountTree.nodeAt, hsub]
    rfl
  refine ⟨k, hk, ?_, fun j hj hjp m hm hpre => ?_, hmounted, fun drv flags h n hn => ?_⟩
  · rw [hsub]
    rfl
  · have hnone := hlast (Nat.lt_of_lt_of_le hj hjp)
    have hsome : ((mountAll mounts).descend (p.take (k + 1))).isSome = true :=
      (descend_mountAll hmounts _).mpr (.inr ⟨m, hm, (take_prefix_take_left hj).trans hpre⟩)
    rw [hnone] at hsome
    cases hsome
  · rw [hn] at hmounted
    rw [kopen]
    generalize vfsGetMountpoint (mountAll mounts) (absPath p) = r at hmounted htokens
    obtain ⟨start, filename⟩ := r
    cases hmounted
    dsimp only at htokens ⊢
    rw [htokens]
    rfl

/-- **Resolution**: `vfs_get_mountpoint` and `kopen` find the longest mounted prefix of a
path exactly if no mounted path goes with the path further than that prefix (or nothing
on the path is mounted). -/
theorem resolves_at_longest (mounts : List (List Path × Node)) (p : List Path) (hmounts : ∀ m ∈ mounts, Components m.1)
    (hp : Components p) : Resolves mounts p ↔ Unbranched mounts p := by
  obtain ⟨k, hk, hsome, hbeyond, hnode, hopen⟩ := getMountpoint_descend hmounts hp
  constructor
  · rintro (⟨hnone, -⟩ | ⟨-, n, -, -, -, hn, -⟩)
    · exact Or.inl hnone
    · refine Or.inr ⟨k, hk, ?_, hbeyond⟩
      rw [← hnode, hn]
      exact some_ne_none n
  · rintro (hnone | ⟨k', hk', hmounted, hbeyond'⟩)
    · exact Or.inl ⟨hnone, hnode.trans (hnone k hk)⟩
    · -- the last entry on the path is the longest mounted prefix
      have hkk : k = k' := by
        rcases Nat.lt_trichotomy k k' with hlt | heq | hgt
        · obtain ⟨m, hm, hpre⟩ := mountedAt_mem hmounted
          exact absurd hpre (hbeyond k' hlt hk' m hm)
        · exact heq
        · rcases (descend_mountAll hmounts _).mp hsome with hnil | ⟨m, hm, hpre⟩
          · have hlen : (p.take k).length = k := length_take_of_le hk
            rw [hnil, length_nil] at hlen
            omega
          · exact absurd hpre (hbeyond' k hgt hk m hm)
      subst hkk
      obtain ⟨n, hn⟩ := ne_none_iff_exists'.mp hmounted
      refine Or.inr ⟨k, n, hk, hn, fun j hj hjp => ?_, hnode.trans hn, fun drv flags h => hopen drv flags h n hn⟩
      by_contra hne
      obtain ⟨m, hm, hpre⟩ := mountedAt_mem hne
      exact hbeyond j hj hjp m hm hpre

theorem resolves_at_longest_dev : Resolves [([], 7), ([['d', 'e', 'v']], 8)] [['d', 'e', 'v'], ['t', 't', 'y']] := by
  refine (resolves_at_longest _ _ ?_ ?_).mpr (Or.inr ⟨1, by decide, by decide, fun j hj hjp => ?_⟩)
  · simp [Components]
  · simp [Components]
  · have hj2 : j = 2 := by
      simp only [length_cons, length_nil] at hjp
      omega
    subst hj2
    decide

/-- **A mount that hides the root**: `/` is mounted, and then `/a/b`. The paths `/a` and
`/a/c`, which are outside of `/a/b`, were found in the root before and are not found any
more. -/
theorem mount_hides_root : (vfsGetMountpoint (mountAll [([], 7)]) (absPath [['a'], ['c']])).1 = some 7 ∧
    (vfsGetMountpoint (mountAll [([], 7), ([['a'], ['b']], 8)]) (absPath [['a'], ['c']])).1 = none ∧
    (vfsGetMountpoint (mountAll [([], 7), ([['a'], ['b']], 8)]) (absPath [['a']])).1 = none ∧
    mountedAt [([], 7), ([['a'], ['b']], 8)] ([['a'], ['c']].take 0) = some 7 := by
  decide

end WivOS.Vfs
