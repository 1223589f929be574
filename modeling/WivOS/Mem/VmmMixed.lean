/-
# Page tables with large pages

`Mixed mem root T` says that `T` are the tables of `root` and form a tree, where a large page ends the walk. The
translation of a page then depends on two entries (`dirEntry`, `leafWord`), and each thing the calls do changes one of
them: asking for a table (`Mixed.getOrAlloc`), storing an entry of a page table (`Mixed.storeLeaf`), and clearing a
large page (`Mixed.clearLarge`).
-/
import WivOS.Mem.VmmLookup

namespace WivOS.Vmm

open Function List Option Radix

/-! ### The tree -/

def tableBelow (e : Word) : Option Word := if e &&& vmmLarge = 0 then nextTable e else none

@[simp] lemma tableBelow_zero : tableBelow 0#64 = none := rfl

variable {e : Word}

lemma tableBelow_small (h : e &&& vmmLarge = 0) : tableBelow e = nextTable e := if_pos h

lemma tableBelow_large (h : e &&& vmmLarge ≠ 0) : tableBelow e = none := if_neg h

lemma small_of_tableBelow {pt : Word} (h : tableBelow e = some pt) : e &&& vmmLarge = 0 := by
  by_contra hlarge
  rw [tableBelow_large hlarge] at h
  cases h

/-- `T` are the tables of `root`: they form a tree, and a large page is an entry of a page
directory that maps. -/
structure Mixed (mem : Word → Fin 512 → Word) (root : Word) (T : List Word) : Prop extends
    Radix.Tree tableBelow mem root 3 T where
  upper : ∀ path i e, path.length < 2 → entry tableBelow mem root path i = some e → e &&& vmmLarge = 0
  large : ∀ path i e, path.length = 2 → entry tableBelow mem root path i = some e → e &&& vmmLarge ≠ 0 →
    (Mapping.mk e true).Valid

lemma PtOffset.dirPath_le (o : PtOffset) : o.dirPath.length ≤ 3 := Nat.le_succ 2

def dirEntry (mem : Word → Fin 512 → Word) (root : Word) (v : ℕ) : Option Word :=
  entry tableBelow mem root (offsets v).dirPath (offsets v).pdOff

def leafWord (mem : Word → Fin 512 → Word) (root : Word) (v : ℕ) : Option Word :=
  entry tableBelow mem root (offsets v).path (offsets v).ptOff

def smallPage (e : Word) : Option Mapping := if e &&& vmmPresent = 0 then none else some ⟨e, false⟩

def mappingOf (dir leaf : Option Word) : Option Mapping :=
  dir.bind fun e => if e &&& vmmLarge ≠ 0 then some ⟨e, true⟩ else leaf.bind smallPage

lemma mappingOf_large (h : e &&& vmmLarge ≠ 0) (leaf : Option Word) :
    mappingOf (some e) leaf = some ⟨e, true⟩ := if_pos h

lemma mappingOf_small (h : e &&& vmmLarge = 0) (leaf : Option Word) :
    mappingOf (some e) leaf = leaf.bind smallPage := if_neg (not_not.mpr h)

@[simp] lemma smallPage_zero : smallPage 0 = none := rfl

lemma page_eq_iff {v v' : ℕ} (hv : v < 2 ^ 36) (hv' : v' < 2 ^ 36) :
    (offsets v').path = (offsets v).path ∧ (offsets v').ptOff = (offsets v).ptOff ↔ v' = v :=
  ⟨offsets_inj hv' hv, fun h => h ▸ ⟨rfl, rfl⟩⟩

namespace Mixed

variable {mem mem' : Word → Fin 512 → Word} {root : Word} {T : List Word} {v : ℕ}

lemma pageDirectory_eq (hT : Mixed mem root T) (v : ℕ) :
    pageDirectory mem root v = walk tableBelow mem root (offsets v).dirPath := by
  have h1 := tableBelow_small (hT.upper [] (offsets v).pml4Off _ (by decide) rfl)
  simp only [pageDirectory, PtOffset.dirPath, walk_cons, walk_nil, h1]
  cases hpdp : nextTable (mem root (offsets v).pml4Off) with
  | none => rfl
  | some pdp =>
    have hwalk : entry tableBelow mem root [(offsets v).pml4Off] (offsets v).pdpOff =
        some (mem pdp (offsets v).pdpOff) := by
      rw [entry, walk_cons, h1, hpdp]
      rfl
    rw [bind_some, bind_some, tableBelow_small (hT.upper [_] _ _ (Nat.lt_succ_self 1) hwalk)]

lemma lookup_eq (hT : Mixed mem root T) (v : ℕ) :
    lookup mem root v = mappingOf (dirEntry mem root v) (leafWord mem root v) := by
  have hpath : (offsets v).path = (offsets v).dirPath ++ [(offsets v).pdOff] := rfl
  rw [lookup, leafEntry, hT.pageDirectory_eq, mappingOf, dirEntry, leafWord, entry, entry, hpath, walk_snoc]
  cases hpd : walk tableBelow mem root (offsets v).dirPath with
  | none => rfl
  | some pd =>
    simp only [bind_some, map_some]
    by_cases hlarge : mem pd (offsets v).pdOff &&& vmmLarge ≠ 0
    · have hvalid := hT.large _ (offsets v).pdOff _ rfl (by rw [entry, hpd]; rfl) hlarge
      rw [if_pos hlarge, if_pos hlarge, bind_some, if_pos hvalid]
    · rw [if_neg hlarge, if_neg hlarge, tableBelow_small (not_not.mp hlarge)]
      cases nextTable (mem pd (offsets v).pdOff) with
      | none => rfl
      | some pt =>
        simp only [map_some, bind_some, Mapping.Valid, Bool.false_eq_true, false_implies, and_true, smallPage]
        by_cases hp : mem pt (offsets v).ptOff &&& vmmPresent = 0
        · rw [if_pos hp, if_neg (not_not.mpr hp)]
        · rw [if_neg hp, if_pos hp]

lemma dirEntry_eq {pd : Word} (hpd : walk tableBelow mem root (offsets v).dirPath = some pd) :
    dirEntry mem root v = some (mem pd (offsets v).pdOff) := by
  rw [dirEntry, entry, hpd, map_some]

lemma walk_path (mem : Word → Fin 512 → Word) (root : Word) (v : ℕ) :
    walk tableBelow mem root (offsets v).path = (dirEntry mem root v).bind tableBelow := by
  rw [dirEntry, entry, show (offsets v).path = (offsets v).dirPath ++ [(offsets v).pdOff] from rfl, walk_snoc, bind_map]
  rfl

section

variable (hT : Mixed mem root T)
include hT

lemma lookup_large (hdir : dirEntry mem root v = some e) (hlarge : e &&& vmmLarge ≠ 0) :
    lookup mem root v = some ⟨e, true⟩ := by
  rw [hT.lookup_eq, hdir, mappingOf_large hlarge]

lemma lookup_small (hdir : dirEntry mem root v = some e) (hsmall : e &&& vmmLarge = 0) :
    lookup mem root v = (tableBelow e).bind fun pt => smallPage (mem pt (offsets v).ptOff) := by
  rw [hT.lookup_eq, hdir, mappingOf_small hsmall, leafWord, entry, walk_path, hdir, bind_some, bind_map]
  rfl

lemma of_entries {T' : List Word} (htree : Radix.Tree tableBelow mem' root 3 T')
    (h : ∀ path i e, path.length ≤ 2 → entry tableBelow mem' root path i = some e →
      e &&& vmmLarge = 0 ∨ entry tableBelow mem root path i = some e) : Mixed mem' root T' where
  toTree := htree
  upper path i e hlen he := (h path i e (by omega) he).elim id (hT.upper path i e hlen)
  large path i e hlen he hbit :=
    (h path i e (by omega) he).elim (fun hsmall => absurd hsmall hbit) fun he' => hT.large path i e hlen he' hbit

section

variable (h : ∀ p ∈ T, mem' p = mem p)
include h

lemma congr : Mixed mem' root T :=
  hT.of_entries (hT.toTree.congr h) fun _ i _ hlen he => .inr ((hT.entry_congr h (by omega) i).symm.trans he)

lemma dirEntry_congr (v : ℕ) :
    dirEntry mem' root v = dirEntry mem root v := hT.entry_congr h (PtOffset.dirPath_le _) _

lemma leafWord_congr (v : ℕ) :
    leafWord mem' root v = leafWord mem root v := hT.entry_congr h (le_refl 3) _

lemma lookup_congr (v : ℕ) :
    lookup mem' root v = lookup mem root v := by
  rw [(hT.congr h).lookup_eq, hT.lookup_eq, hT.dirEntry_congr h, hT.leafWord_congr h]

/-! ### Storing entries -/

end

lemma storeLeaf {pt : Word} (hv : v < 2 ^ 36)
    (hpt : walk tableBelow mem root (offsets v).path = some pt) (e : Word) :
    Mixed (write mem pt (offsets v).ptOff e) root T ∧
      (∀ v', dirEntry (write mem pt (offsets v).ptOff e) root v' = dirEntry mem root v') ∧
      ∀ v' < 2 ^ 36, lookup (write mem pt (offsets v).ptOff e) root v' =
        if v' = v then smallPage e else lookup mem root v' := by
  have hlen : (offsets v).path.length = 3 := rfl
  have hentry := fun (path : List (Fin 512)) (hle : path.length ≤ 3) (j : Fin 512) =>
    entry_write_leaf hT.unshared hlen hpt (offsets v).ptOff e hle j
  -- the entries above are not those of a page table
  have habove : ∀ path, path.length ≤ 2 → ∀ j, entry tableBelow (write mem pt (offsets v).ptOff e) root path j =
        entry tableBelow mem root path j := by
    intro path hle j
    rw [hentry path (by omega), if_neg]
    rintro ⟨rfl, -⟩
    omega
  have hdir : ∀ v', dirEntry (write mem pt (offsets v).ptOff e) root v' = dirEntry mem root v' :=
    fun v' => habove _ (le_refl 2) _
  have hM : Mixed (write mem pt (offsets v).ptOff e) root T :=
    hT.of_entries (hT.toTree.writeLeaf hlen hpt _ e) fun path i e' hle he => .inr ((habove path hle i).symm.trans he)
  refine ⟨hM, hdir, fun v' hv' => ?_⟩
  rw [hM.lookup_eq, hT.lookup_eq, hdir, leafWord, hentry _ (le_refl 3), if_congr (page_eq_iff hv hv') rfl rfl]
  by_cases h : v' = v
  · subst h
    rw [walk_path] at hpt
    obtain ⟨d, hd, hdpt⟩ := bind_eq_some_iff.mp hpt
    rw [if_pos rfl, if_pos rfl, hd, mappingOf_small (small_of_tableBelow hdpt), bind_some]
  · rw [if_neg h, if_neg h, leafWord]

lemma clearLarge {pd : Word} (hv : v < 2 ^ 36)
    (hpd : walk tableBelow mem root (offsets v).dirPath = some pd)
    (hlarge : mem pd (offsets v).pdOff &&& vmmLarge ≠ 0) : Mixed (write mem pd (offsets v).pdOff 0) root T ∧
      (∀ v' < 2 ^ 36, dirEntry (write mem pd (offsets v).pdOff 0) root v' =
        if v' / 512 = v / 512 then some 0 else dirEntry mem root v') ∧
      ∀ v' < 2 ^ 36, lookup (write mem pd (offsets v).pdOff 0) root v' =
        if v' / 512 = v / 512 then none else lookup mem root v' := by
  have hchild : tableBelow 0 = tableBelow (mem pd (offsets v).pdOff) := (tableBelow_large hlarge).symm
  have hentry := fun (path : List (Fin 512)) (hle : path.length ≤ 3) (j : Fin 512) =>
    entry_write hT.unshared (PtOffset.dirPath_le _) hpd
      (fun path _ => walk_write_same hchild path) hle j
  have hdir : ∀ v' < 2 ^ 36, dirEntry (write mem pd (offsets v).pdOff 0) root v' =
      if v' / 512 = v / 512 then some 0 else dirEntry mem root v' := by
    intro v' hv'
    rw [dirEntry, hentry _ (PtOffset.dirPath_le _)]
    exact if_congr (dir_eq_iff hv hv') rfl rfl
  have hM : Mixed (write mem pd (offsets v).pdOff 0) root T := by
    refine hT.of_entries (hT.toTree.writeSame hchild) fun path i e' hle he => ?_
    rw [hentry path (by omega)] at he
    split at he
    · cases he
      exact .inl BitVec.zero_and
    · exact .inr he
  refine ⟨hM, hdir, fun v' hv' => ?_⟩
  by_cases h : v' / 512 = v / 512
  · rw [if_pos h, hM.lookup_small ((hdir v' hv').trans (if_pos h)) BitVec.zero_and]
    rfl
  · have hleaf : ¬ ((offsets v').path = (offsets v).dirPath ∧ (offsets v').ptOff = (offsets v).pdOff) :=
      fun heq => absurd (congrArg List.length heq.1) (Nat.succ_ne_self 2)
    rw [if_neg h, hM.lookup_eq, hT.lookup_eq, hdir v' hv', if_neg h, leafWord, hentry _ (le_refl 3), if_neg hleaf,
      leafWord]

end

section Link

variable {a e p : Word} {path : List (Fin 512)} {i : Fin 512}

lemma lookup_link {T' : List Word} (hT : Mixed mem root T) (hT' : Mixed mem' root T') (hlen : path.length < 3)
    (hp : walk tableBelow mem root path = some p) (hfree : tableBelow (mem p i) = none)
    (hsmall : mem p i &&& vmmLarge = 0) (hsmall' : e &&& vmmLarge = 0)
    (hentry : ∀ path' : List (Fin 512), path'.length ≤ 3 → ∀ j, entry tableBelow mem' root path' j =
      if path' = path ++ [i] then some 0
      else if path' = path ∧ j = i then some e else entry tableBelow mem root path' j) (v : ℕ) :
    lookup mem' root v = lookup mem root v := by
  have hpath : (offsets v).path = (offsets v).dirPath ++ [(offsets v).pdOff] := rfl
  have hnew : walk tableBelow mem root (path ++ [i]) = none := by
    rw [walk_snoc, hp, bind_some, hfree]
  have hleaf : ¬ ((offsets v).path = path ∧ (offsets v).ptOff = i) := by
    rintro ⟨rfl, -⟩
    exact absurd hlen (by simp [PtOffset.path])
  rw [hT'.lookup_eq, hT.lookup_eq, dirEntry, leafWord, dirEntry, leafWord, hentry _ (PtOffset.dirPath_le _),
    hentry _ (le_refl 3), if_neg hleaf]
  -- where the walk for `v` comes to the new table, it ended at the free entry before
  by_cases h1 : (offsets v).dirPath = path ++ [i]
  · rw [if_pos h1, if_neg, entry, entry, hpath, walk_snoc, h1, hnew]
    · exact mappingOf_small (e := 0) BitVec.zero_and none
    · intro h2
      have := congrArg List.length (hpath.symm.trans h2)
      simp [h1] at this
  rw [if_neg h1]
  by_cases h2 : (offsets v).dirPath = path ∧ (offsets v).pdOff = i
  · rw [if_pos h2, if_pos (by rw [hpath, h2.1, h2.2]), hpath, h2.1, h2.2, entry, entry, hp, hnew,
      map_some, mappingOf_small hsmall, mappingOf_small hsmall', bind_some, smallPage_zero]
    rfl
  · rw [if_neg h2, if_neg]
    intro h3
    obtain ⟨hd, hl⟩ := append_inj' (hpath.symm.trans h3) rfl
    exact h2 ⟨hd, singleton_inj.mp hl⟩

lemma link (hT : Mixed mem root T) (ha : a ∉ T) (hempty : mem a = fun _ => 0) (hlen : path.length < 3)
    (hp : walk tableBelow mem root path = some p) (hfree : nextTable (mem p i) = none)
    (hsmall : mem p i &&& vmmLarge = 0) (he : nextTable e = some a) (hsmall' : e &&& vmmLarge = 0) :
    Mixed (write mem p i e) root (a :: T) ∧ walk tableBelow (write mem p i e) root (path ++ [i]) = some a ∧
      ∀ v, lookup (write mem p i e) root v = lookup mem root v := by
  have hnone : ∀ j, tableBelow (mem a j) = none := fun j => by
    rw [hempty]
    exact tableBelow_zero
  have hfree' : tableBelow (mem p i) = none := (tableBelow_small hsmall).trans hfree
  obtain ⟨htree, hwalk, hentry⟩ := hT.toTree.link ha hnone hlen hp hfree' ((tableBelow_small hsmall').trans he)
  rw [hempty] at hentry
  have hM : Mixed (write mem p i e) root (a :: T) := by
    refine hT.of_entries htree fun path' j e' hlen' he' => ?_
    rw [hentry path' (by omega)] at he'
    split_ifs at he'
    · exact .inl (some.inj he' ▸ BitVec.zero_and)
    · exact .inl (some.inj he' ▸ hsmall')
    · exact .inr he'
  exact ⟨hM, hwalk, hT.lookup_link hM hlen hp hfree' hsmall hsmall' hentry⟩

end Link

end Mixed

/-! ### Asking for tables -/

lemma Mixed.empty {mem : Word → Fin 512 → Word} {root : Word} (h : ∀ i, mem root i = 0) : Mixed mem root [root] := by
  have hT : Radix.Tree tableBelow mem root 3 [root] := Radix.Tree.empty fun i => by
    rw [h]
    exact tableBelow_zero
  have hzero : ∀ path i e, path.length ≤ 3 → entry tableBelow mem root path i = some e → e &&& vmmLarge = 0 := by
    intro path i e hlen he
    obtain ⟨p, hp, rfl⟩ := map_eq_some_iff.mp he
    rw [mem_singleton.mp (hT.tables path p hlen hp), h]
    exact BitVec.zero_and
  exact ⟨hT, fun path i e hlen he => hzero path i e (by omega) he,
    fun path i e hlen he hbit => absurd (hzero path i e (by omega) he) hbit⟩

/-- The tree has grown by the tables `new`, and every translation is as before. -/
structure Kept (root : Word) (T new : List Word) (mem mem' : Word → Fin 512 → Word) : Prop where
  mixed : Mixed mem' root (new ++ T)
  same : ∀ v, lookup mem' root v = lookup mem root v

lemma Kept.trans {root : Word} {T new new' : List Word} {mem mem' mem'' : Word → Fin 512 → Word}
    (h : Kept root T new mem mem') (h' : Kept root (new ++ T) new' mem' mem'') :
    Kept root T (new' ++ new) mem mem'' where
  mixed := append_assoc new' new T ▸ h'.mixed
  same v := (h'.same v).trans (h.same v)

/-- What `vmm_get_or_alloc` does to the tree, below an entry that is not a large page: the
table asked for is there, and no translation changes. -/
lemma Mixed.getOrAlloc {supply : ℕ → Word} {st st' : Vm} {p q : Word} {i : Fin 512} (hs : Supplied supply)
    (h : vmmGetOrAlloc supply st p i (vmmWrite ||| vmmUser) = some (q, st')) :
    ∃ new, Took new st st' ∧ ∀ root T path, (new ++ T).Nodup → Mixed st.mem root T → path.length < 3 →
      walk tableBelow st.mem root path = some p → st.mem p i &&& vmmLarge = 0 →
        Kept root T new st.mem st'.mem ∧ walk tableBelow st'.mem root (path ++ [i]) = some q := by
  rcases vmmGetOrAlloc_cases h with ⟨hq, rfl⟩ | ⟨hfree, a, ha, hq, rfl⟩
  · refine ⟨[], Took.refl _, fun root T path _ hT _ hp hsmall => ⟨⟨hT, fun _ => rfl⟩, ?_⟩⟩
    rw [walk_snoc, hp, bind_some, tableBelow_small hsmall, hq]
  · have haligned : a &&& vmmFlagMask = 0 := ha ▸ (hs _).2
    have hqa : q = a := hq.trans (and_addr_of_aligned haligned)
    refine ⟨[a], ⟨rfl, rfl, rfl⟩, fun root T path hnd hT hlen hp hsmall => ?_⟩
    have haT : a ∉ T := (nodup_cons.mp hnd).1
    have hzero : ∀ r ∈ T, update st.mem a (fun _ => 0) r = st.mem r :=
      fun r hr => update_of_ne (ne_of_mem_of_not_mem hr haT) _ _
    have hp' := (hT.walk_congr hzero (by omega)).trans hp
    rw [← congrFun (hzero p (hT.tables path p (by omega) hp)) i] at hfree hsmall
    obtain ⟨hM, hnew, hlookup⟩ := (hT.congr hzero).link haT (update_self _ _ _) hlen hp' hfree hsmall
      (newEntry haligned).1 (newEntry haligned).2
    exact ⟨⟨hM, fun v => (hlookup v).trans (hT.lookup_congr hzero v)⟩, hqa ▸ hnew⟩

end WivOS.Vmm
