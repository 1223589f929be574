/-
# The tree of a page table

`Tree mem root T` says that `T` are the tables of `root`, that no two paths lead to one of them, and that no large page
stands among them. Asking for a table (`Tree.getOrAlloc`) and storing an entry of the last level (`Tree.storeLeaf`)
keep it, so mapping a page changes the translation of that page only (`Tree.mapPage`). The pages the allocator adds are
known once a call has returned: the lemmas are stated with the list `new` of them.
-/
import WivOS.Mem.Vmm

namespace WivOS.Vmm

open Function List Option Radix

/-! ### Addresses and entries -/

/-- The virtual page number of an address, bits 12 to 47. -/
def vpn (addr : Word) : ℕ := addr.toNat / 0x1000 % 2 ^ 36

def offsets (v : ℕ) : PtOffset where
  pml4Off := Fin.ofNat 512 (v / 2 ^ 27)
  pdpOff := Fin.ofNat 512 (v / 2 ^ 18)
  pdOff := Fin.ofNat 512 (v / 2 ^ 9)
  ptOff := Fin.ofNat 512 v

lemma vpn_lt (addr : Word) : vpn addr < 2 ^ 36 := Nat.mod_lt _ (by decide)

lemma getAddrOffsets_eq (addr : Word) : getAddrOffsets addr = offsets (vpn addr) := by
  unfold getAddrOffsets offsets vpn
  simp only [field_toNat addr 39 (by decide), field_toNat addr 30 (by decide), field_toNat addr 21 (by decide),
    field_toNat addr 12 (by decide), PtOffset.mk.injEq, Fin.ext_iff, Fin.val_ofNat]
  omega

def PtOffset.path (o : PtOffset) : List (Fin 512) := [o.pml4Off, o.pdpOff, o.pdOff]

def PtOffset.dirPath (o : PtOffset) : List (Fin 512) := [o.pml4Off, o.pdpOff]

lemma offsets_inj {v v' : ℕ} (hv : v < 2 ^ 36) (hv' : v' < 2 ^ 36)
    (h : (offsets v).path = (offsets v').path ∧ (offsets v).ptOff = (offsets v').ptOff) : v = v' := by
  simp only [PtOffset.path, offsets, List.cons.injEq, Fin.ext_iff, Fin.val_ofNat] at h
  omega

lemma dir_eq_iff {v v' : ℕ} (hv : v < 2 ^ 36) (hv' : v' < 2 ^ 36) :
    (offsets v').dirPath = (offsets v).dirPath ∧ (offsets v').pdOff = (offsets v).pdOff ↔ v' / 512 = v / 512 := by
  simp only [PtOffset.dirPath, offsets, List.cons.injEq, Fin.ext_iff, Fin.val_ofNat, and_true]
  omega

def nextTable (e : Word) : Option Word := if e &&& vmmPresent = 0 then none else some (e &&& vmmAddrMask)

/-- The page an entry of the last level maps, and its flag bits. -/
def target (e : Word) : Option (Word × Word) :=
  if e &&& vmmPresent = 0 then none else some (e &&& vmmAddrMask, e &&& vmmFlagMask)

/-- The translation of the page table `root`: the four-level walk over present
entries. -/
def translate (mem : Word → Fin 512 → Word) (root : Word) (v : ℕ) : Option (Word × Word) :=
  (entry nextTable mem root (offsets v).path (offsets v).ptOff).bind target

variable {new' : List Word} {e : Word} {f : Word}

lemma nextTable_of_not_present (h : e &&& vmmPresent = 0) : nextTable e = none := if_pos h

@[simp] lemma nextTable_zero : nextTable 0#64 = none := rfl

@[simp] lemma target_zero : target 0#64 = none := rfl

variable {p a : Word} {new : List Word} {st st' : Vm}

lemma nextTable_entry (hp : p &&& vmmFlagMask = 0) (hf : (f ||| vmmPresent) &&& vmmAddrMask = 0) :
    nextTable (p ||| (f ||| vmmPresent)) = some p := by
  rw [nextTable, if_neg (and_present_ne_zero p f), entry_addr hp hf]

lemma target_entry (hp : p &&& vmmFlagMask = 0) (hf : f &&& vmmAddrMask = 0) :
    target (p ||| f ||| vmmPresent) = some (p, f ||| vmmPresent) := by
  have hf' : (f ||| vmmPresent) &&& vmmAddrMask = 0 := by
    rw [BitVec.and_or_distrib_right, hf]
    decide
  rw [BitVec.or_assoc, target, if_neg (and_present_ne_zero p f), entry_addr hp hf', entry_flags hp hf']

lemma newEntry (ha : a &&& vmmFlagMask = 0) : nextTable (a ||| (vmmWrite ||| vmmUser ||| vmmPresent)) = some a ∧
      (a ||| (vmmWrite ||| vmmUser ||| vmmPresent)) &&& vmmLarge = 0 := by
  refine ⟨nextTable_entry ha (by decide), ?_⟩
  rw [BitVec.and_or_distrib_right, and_large_eq_zero ha]
  decide

/-! ### The calls and the log -/

/-- The allocator finds a page: not the null pointer, and aligned. -/
def Supplied (supply : ℕ → Word) : Prop := ∀ k, supply k ≠ 0 ∧ supply k &&& vmmFlagMask = 0

abbrev page (p : Word) : Frames := ⟨p, 1⟩

/-- The call took the pages `new`, one by one, and left the locks as they were. -/
structure Took (new : List Word) (st st' : Vm) : Prop where
  allocs : st'.allocs = new.map page ++ st.allocs
  frees : st'.frees = st.frees
  held : st'.held = st.held

lemma Took.refl (st : Vm) : Took [] st st := ⟨rfl, rfl, rfl⟩

lemma Took.trans {st'' : Vm} (h : Took new st st') (h' : Took new' st' st'') :
    Took (new' ++ new) st st'' where
  allocs := by rw [h'.allocs, h.allocs, map_append, append_assoc]
  frees := by rw [h'.frees, h.frees]
  held := by rw [h'.held, h.held]

lemma Took.store (h : Took new st st') (pt : Word) (i : Fin 512) (e : Word) :
    Took new st (st'.store pt i e) := ⟨h.allocs, h.frees, h.held⟩

lemma Took.unlock {root : Word} (h : Took new { st with held := root :: st.held } st') :
    Took new st (st'.unlock root) :=
  ⟨h.allocs, h.frees, by rw [Vm.unlock, h.held, erase_cons_head]⟩

def Vm.tables (st : Vm) (root : Word) : List Word := st.allocs.map Frames.addr ++ [root]

lemma Took.tables (h : Took new st st') (root : Word) : st'.tables root = new ++ st.tables root := by
  simp [Vm.tables, h.allocs, Function.comp_def]

lemma Took.nodup (h : Took new st st') {root : Word} (hnd : (st'.tables root).Nodup) : (st.tables root).Nodup := by
  rw [h.tables root] at hnd
  exact hnd.of_append_right

lemma page_has : (page a).Has p ↔ p = a := by
  simp only [Frames.Has]
  constructor
  · rintro ⟨h1, h2⟩
    have h0 : (p - a).toNat = 0 := by omega
    have hz : p - a = 0 := BitVec.eq_of_toNat_eq (by simpa using h0)
    simpa using congrArg (· + a) hz
  · rintro rfl
    simp

lemma pmmAlloc_one (supply : ℕ → Word) (st : Vm) : pmmAlloc supply 1 st = (supply st.allocs.length, { st with
      mem := update st.mem (supply st.allocs.length) fun _ => 0
      allocs := page (supply st.allocs.length) :: st.allocs }) := by
  have hz : (fun p => if (page (supply st.allocs.length)).Has p then fun _ => 0 else st.mem p) =
      update st.mem (supply st.allocs.length) fun _ => 0 := by
    funext p
    simp only [page_has, update_apply]
  simp only [pmmAlloc, hz]

variable {supply : ℕ → Word} {st st' : Vm} {root pt q : Word} {i : Fin 512} {flags : Word}

lemma vmmGetOrAlloc_cases (h : vmmGetOrAlloc supply st pt i flags = some (q, st')) :
    (nextTable (st.mem pt i) = some q ∧ st' = st) ∨
    (nextTable (st.mem pt i) = none ∧ ∃ a, a = supply st.allocs.length ∧ q = a &&& vmmAddrMask ∧ st' = { st with
        mem := write (update st.mem a fun _ => 0) pt i (a ||| (flags ||| vmmPresent))
        allocs := page a :: st.allocs
        stores := pt :: pt :: st.stores }) := by
  unfold vmmGetOrAlloc at h
  by_cases hp : st.mem pt i &&& vmmPresent = 0
  · simp only [if_pos hp] at h
    split at h
    · simp at h
    · simp only [some.injEq, Prod.mk.injEq] at h
      refine .inr ⟨nextTable_of_not_present hp, _, rfl, h.1.symm, ?_⟩
      rw [← h.2, pmmAlloc_one]
      simp only [Vm.store, Vm.poke, write_self, write_write]
  · simp only [if_neg hp, some.injEq, Prod.mk.injEq] at h
    exact .inl ⟨by rw [nextTable, if_neg hp, h.1], h.2.symm⟩

lemma vmmGetOrAlloc_took (h : vmmGetOrAlloc supply st pt i flags = some (q, st')) : ∃ new, Took new st st' := by
  rcases vmmGetOrAlloc_cases h with ⟨-, rfl⟩ | ⟨-, a, -, -, rfl⟩
  · exact ⟨[], Took.refl _⟩
  · exact ⟨[a], rfl, rfl, rfl⟩

lemma vmmGetOrAlloc_returns (hs : Supplied supply) (st : Vm) (pt : Word) (i : Fin 512) (flags : Word) :
    ∃ r, vmmGetOrAlloc supply st pt i flags = some r := by
  have hne : (pmmAlloc supply 1 st).1 ≠ 0 := (hs _).1
  unfold vmmGetOrAlloc
  by_cases hp : st.mem pt i &&& vmmPresent = 0
  · simp only [if_pos hp, if_neg hne]
    exact ⟨_, rfl⟩
  · exact ⟨_, if_neg hp⟩

/-! ### The tree -/

structure Tree (mem : Word → Fin 512 → Word) (root : Word) (T : List Word) : Prop extends
    Radix.Tree nextTable mem root 3 T where
  small : ∀ path i e, path.length = 2 → entry nextTable mem root path i = some e → e &&& vmmLarge = 0

variable {mem mem' : Word → Fin 512 → Word} {T new : List Word} {path : List (Fin 512)} {p : Word}

lemma Tree.empty (h : ∀ i, mem root i = 0) : Tree mem root [root] := by
  have hT : Radix.Tree nextTable mem root 3 [root] := Radix.Tree.empty fun i => by
    rw [h]
    exact nextTable_zero
  refine ⟨hT, fun path i e hlen he => ?_⟩
  obtain ⟨p, hp, rfl⟩ := map_eq_some_iff.mp he
  rw [mem_singleton.mp (hT.tables path p (by omega) hp), h]
  exact BitVec.zero_and

section

variable (hT : Tree mem root T)
include hT

lemma Tree.congr (h : ∀ p ∈ T, mem' p = mem p) : Tree mem' root T where
  toTree := hT.toTree.congr h
  small path i e hlen he := hT.small path i e hlen ((hT.entry_congr h (by omega) i).symm.trans he)

lemma Tree.translate_congr (h : ∀ p ∈ T, mem' p = mem p) (v : ℕ) :
    translate mem' root v = translate mem root v := by
  unfold translate
  rw [hT.entry_congr h (le_refl 3)]

lemma Tree.link (ha : a ∉ T) (hempty : mem a = fun _ => 0)
    (hlen : path.length < 3) (hp : walk nextTable mem root path = some p) (hfree : nextTable (mem p i) = none)
    (he : nextTable e = some a) (hsmall : e &&& vmmLarge = 0) : Tree (write mem p i e) root (a :: T) ∧
      walk nextTable (write mem p i e) root (path ++ [i]) = some a ∧
      ∀ v, translate (write mem p i e) root v = translate mem root v := by
  have hnone : ∀ j, nextTable (mem a j) = none := fun j => by
    rw [hempty]
    exact nextTable_zero
  obtain ⟨htree, hwalk, hentry⟩ := hT.toTree.link ha hnone hlen hp hfree he
  refine ⟨⟨htree, fun path' j e' hlen' he' => ?_⟩, hwalk, fun v => ?_⟩
  · rw [hentry path' (by omega), hempty] at he'
    split_ifs at he'
    · rw [← some.inj he']
      exact BitVec.zero_and
    · rwa [← some.inj he']
    · exact hT.small path' j e' hlen' he'
  · have hlen' : (offsets v).path.length ≤ 3 := le_refl 3
    unfold translate
    rw [hentry _ hlen', hempty]
    by_cases h : (offsets v).path = path ++ [i]
    · rw [if_pos h, h, entry, walk_snoc, hp, bind_some, bind_some, hfree]
      exact target_zero
    · have h' : ¬ ((offsets v).path = path ∧ (offsets v).ptOff = i) := by
        rintro ⟨rfl, -⟩
        exact absurd hlen (by simp [PtOffset.path])
      rw [if_neg h, if_neg h']

lemma Tree.storeLeaf {v : ℕ} (hv : v < 2 ^ 36)
    (hp : walk nextTable mem root (offsets v).path = some p) (e : Word) :
    Tree (write mem p (offsets v).ptOff e) root T ∧
      (∀ path, path.length ≤ 3 → walk nextTable (write mem p (offsets v).ptOff e) root path =
        walk nextTable mem root path) ∧ ∀ v' < 2 ^ 36, translate (write mem p (offsets v).ptOff e) root v' =
        if v' = v then target e else translate mem root v' := by
  have hlen : (offsets v).path.length = 3 := rfl
  refine ⟨⟨hT.toTree.writeLeaf hlen hp _ e, fun path j e' hlen' he' => ?_⟩,
    fun path hle => walk_write_leaf hT.unshared hlen hp _ e hle, fun v' hv' => ?_⟩
  · rw [entry_write_leaf hT.unshared hlen hp _ e (by omega), if_neg] at he'
    · exact hT.small path j e' hlen' he'
    · rintro ⟨rfl, -⟩
      omega
  · unfold translate
    rw [entry_write_leaf hT.unshared hlen hp _ e (le_refl 3)]
    by_cases h : v' = v
    · subst h
      rw [if_pos ⟨rfl, rfl⟩, if_pos rfl, bind_some]
    · rw [if_neg fun h' => h (offsets_inj hv' hv h'), if_neg h]

/-! ### The calls -/

end

structure Grown (root : Word) (T new : List Word) (mem mem' : Word → Fin 512 → Word) : Prop where
  tree : Tree mem' root (new ++ T)
  frame : ∀ p, p ∉ new ++ T → mem' p = mem p

lemma Grown.trans {mem' mem'' : Word → Fin 512 → Word} (h : Grown root T new mem mem')
    (h' : Grown root (new ++ T) new' mem' mem'') : Grown root T (new' ++ new) mem mem'' where
  tree := append_assoc new' new T ▸ h'.tree
  frame p hp := by
    rw [append_assoc] at hp
    rw [h'.frame p hp, h.frame p fun hmem => hp (mem_append_right _ hmem)]

lemma Tree.getOrAlloc (hs : Supplied supply)
    (h : vmmGetOrAlloc supply st p i (vmmWrite ||| vmmUser) = some (q, st')) :
    ∃ new, Took new st st' ∧ ∀ root T path, (new ++ T).Nodup → Tree st.mem root T → path.length < 3 →
      walk nextTable st.mem root path = some p → Grown root T new st.mem st'.mem ∧
        walk nextTable st'.mem root (path ++ [i]) = some q ∧ (∀ v, translate st'.mem root v = translate st.mem root v) ∧
        ∀ r ∈ T, ∀ j, ¬ (r = p ∧ j = i) → st'.mem r j = st.mem r j := by
  rcases vmmGetOrAlloc_cases h with ⟨hq, rfl⟩ | ⟨hfree, a, ha, hq, rfl⟩
  · refine ⟨[], Took.refl _, fun root T path _ hT hlen hp =>
      ⟨⟨hT, fun _ _ => rfl⟩, ?_, fun _ => rfl, fun _ _ _ _ => rfl⟩⟩
    rw [walk_snoc, hp, bind_some, hq]
  · have haligned : a &&& vmmFlagMask = 0 := ha ▸ (hs _).2
    have hqa : q = a := hq.trans (and_addr_of_aligned haligned)
    refine ⟨[a], ⟨rfl, rfl, rfl⟩, fun root T path hnd hT hlen hp => ?_⟩
    have haT : a ∉ T := (nodup_cons.mp hnd).1
    have hne : ∀ r ∈ T, r ≠ a := fun r hr h => haT (h ▸ hr)
    -- zeroing the page leaves the tree alone
    have hzero : ∀ r ∈ T, update st.mem a (fun _ => 0) r = st.mem r :=
      fun r hr => update_of_ne (hne r hr) _ _
    have hpT : p ∈ T := hT.tables path p (by omega) hp
    rw [← hT.walk_congr hzero (by omega)] at hp
    have hfree' : nextTable (update st.mem a (fun _ => 0) p i) = none := by
      rw [update_of_ne (hne p hpT), hfree]
    obtain ⟨htree, hnew, htr⟩ := (hT.congr hzero).link haT (update_self _ _ _) hlen hp hfree'
      (newEntry haligned).1 (newEntry haligned).2
    refine ⟨⟨htree, fun r hr => ?_⟩, hqa ▸ hnew, fun v => (htr v).trans (hT.translate_congr hzero v),
      fun r hr j hne' => (write_of_ne _ _ hne').trans (congrFun (hzero r hr) j)⟩
    simp only [cons_append, nil_append, mem_cons, not_or] at hr
    have hrp : r ≠ p := fun h => hr.2 (h ▸ hpT)
    exact (write_table_ne _ _ _ hrp).trans (update_of_ne hr.1 _ _)

/-- The entry of the page `v` is now `e`, and nothing else has changed but one entry of the root. -/
structure MapsPage (root : Word) (T new : List Word) (v : ℕ) (e : Word) (mem mem' : Word → Fin 512 → Word) : Prop where
  grown : Grown root T new mem mem'
  translate : ∀ u < 2 ^ 36, translate mem' root u = if u = v then target e else translate mem root u
  root : ∀ j, j ≠ (offsets v).pml4Off → mem' root j = mem root j

/-- **Mapping one page changes the translation of that page only.** -/
lemma Tree.mapPage {addr phys permissions : Word} (hs : Supplied supply)
    (h : vmmMapPage supply root addr phys permissions false st = some st') :
    ∃ new, Took new st st' ∧ ∀ T, (new ++ T).Nodup → Tree st.mem root T →
      MapsPage root T new (vpn addr) (phys ||| permissions ||| vmmPresent) st.mem st'.mem := by
  simp only [vmmMapPage, getAddrOffsets_eq, Bool.false_eq_true, ↓reduceIte, bind_eq_some_iff,
    map_eq_some_iff, Prod.exists] at h
  obtain ⟨pdp, st1, h1, pd, st2, h2, pt, st3, h3, rfl⟩ := h
  obtain ⟨new1, took1, spec1⟩ := Tree.getOrAlloc hs h1
  obtain ⟨new2, took2, spec2⟩ := Tree.getOrAlloc hs h2
  obtain ⟨new3, took3, spec3⟩ := Tree.getOrAlloc hs h3
  refine ⟨new3 ++ new2 ++ new1, (took1.trans (took2.trans took3)).store _ _ _, fun T hnd hT => ?_⟩
  rw [append_assoc, append_assoc] at hnd
  have hnd2 := hnd.of_append_right
  obtain ⟨g1, w1, tr1, r1⟩ := spec1 root T [] hnd2.of_append_right hT (by simp) rfl
  obtain ⟨g2, w2, tr2, r2⟩ := spec2 root _ _ hnd2 g1.tree (by simp) w1
  obtain ⟨g3, w3, tr3, r3⟩ := spec3 root _ _ hnd g2.tree (by simp) w2
  have g := g1.trans (g2.trans g3)
  have hpt : walk nextTable st3.mem root (offsets (vpn addr)).path = some pt := w3
  obtain ⟨htree, -, htr⟩ := g.tree.storeLeaf (vpn_lt addr) hpt (phys ||| permissions ||| vmmPresent)
  refine ⟨⟨htree, fun r hr => ?_⟩, fun v hv => ?_, fun j hj => ?_⟩
  · have hptT := g.tree.tables _ pt le_rfl hpt
    have hrpt : r ≠ pt := fun h => hr (h ▸ hptT)
    exact (write_table_ne _ _ _ hrpt).trans (g.frame r hr)
  · exact (htr v hv).trans (by rw [tr3, tr2, tr1])
  · -- the tables below are not the root
    have hpdp : root ≠ pdp := (g1.tree.ne_root (by simp) (by simp) w1).symm
    have hpd : root ≠ pd := (g2.tree.ne_root (by simp) (by simp) w2).symm
    have hrpt : root ≠ pt := (g3.tree.ne_root (by simp) (by simp) w3).symm
    calc _ = st3.mem root j := congrFun (write_table_ne _ _ _ hrpt) j
      _ = st2.mem root j := r3 root g2.tree.root_mem j fun h => hpd h.1
      _ = st1.mem root j := r2 root g1.tree.root_mem j fun h => hpdp h.1
      _ = st.mem root j := r1 root hT.root_mem j fun h => hj h.2

end WivOS.Vmm
