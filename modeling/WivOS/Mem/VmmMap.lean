/-
# Mapping and unmapping ranges

A page table built from an empty root by `vmm_map` of 4 KiB pages and by `vmm_unmap` of mapped ranges: a call changes
the translation of the pages it names, and of no other page (`translation_changes_only_in_range`).
-/
import WivOS.Lib.Machine
import WivOS.Mem.VmmTree

namespace WivOS.Vmm

open Option Radix Machine

def pageAt (addr : Word) (i : ℕ) : Word := addr + BitVec.ofNat 64 (i * 0x1000)

@[simp] lemma pageAt_zero (addr : Word) : pageAt addr 0 = addr := by simp [pageAt]

lemma pageAt_succ (addr : Word) (i : ℕ) : pageAt (addr + 0x1000) i = pageAt addr (i + 1) := by
  apply BitVec.eq_of_toNat_eq
  simp only [pageAt, BitVec.toNat_add, BitVec.ofNat_eq_ofNat, BitVec.toNat_ofNat]
  omega

lemma pageAt_pageAt (addr : Word) (i j : ℕ) : pageAt (pageAt addr i) j = pageAt addr (i + j) := by
  apply BitVec.eq_of_toNat_eq
  simp only [pageAt, BitVec.toNat_add, BitVec.toNat_ofNat]
  omega

lemma vpn_pageAt (addr : Word) (i : ℕ) : vpn (pageAt addr i) = (vpn addr + i) % 2 ^ 36 := by
  simp only [vpn, pageAt, BitVec.toNat_add, BitVec.toNat_ofNat]
  omega

lemma vpn_pageAt_succ_ne (addr : Word) {i : ℕ} (h : i + 1 < 2 ^ 36) : vpn (pageAt addr (i + 1)) ≠ vpn addr := by
  have := vpn_lt addr
  rw [vpn_pageAt]
  omega

variable {supply : ℕ → Word} {root : Word} {T : List Word}

/-! ### The loop of `vmm_map` -/

lemma vmmMapPage_returns (hs : Supplied supply) (root addr phys permissions : Word) (huge : Bool) (st : Vm) :
    ∃ st', vmmMapPage supply root addr phys permissions huge st = some st' := by
  unfold vmmMapPage
  obtain ⟨⟨pdp, st1⟩, h1⟩ := vmmGetOrAlloc_returns hs st root (getAddrOffsets addr).pml4Off (vmmWrite ||| vmmUser)
  obtain ⟨⟨pd, st2⟩, h2⟩ := vmmGetOrAlloc_returns hs st1 pdp (getAddrOffsets addr).pdpOff (vmmWrite ||| vmmUser)
  obtain ⟨⟨pt, st3⟩, h3⟩ := vmmGetOrAlloc_returns hs st2 pd (getAddrOffsets addr).pdOff (vmmWrite ||| vmmUser)
  simp only [h1, h2, h3, bind_some, map_some]
  cases huge <;> exact ⟨_, rfl⟩

variable {st : Vm} {addr phys permissions : Word}

lemma vmmMapPage_took {st' : Vm} {huge : Bool} (h : vmmMapPage supply root addr phys permissions huge st = some st') :
    ∃ new, Took new st st' := by
  simp only [vmmMapPage, bind_eq_some_iff, Prod.exists] at h
  obtain ⟨pdp, st1, h1, pd, st2, h2, h⟩ := h
  obtain ⟨new1, took1⟩ := vmmGetOrAlloc_took h1
  obtain ⟨new2, took2⟩ := vmmGetOrAlloc_took h2
  split at h
  · cases h
    exact ⟨_, (took1.trans took2).store _ _ _⟩
  · rw [map_eq_some_iff, Prod.exists] at h
    obtain ⟨pt, st3, h3, rfl⟩ := h
    obtain ⟨new3, took3⟩ := vmmGetOrAlloc_took h3
    exact ⟨_, (took1.trans (took2.trans took3)).store _ _ _⟩

lemma vmmMapLoop_returns (hs : Supplied supply) (root permissions : Word) (huge : Bool) :
    ∀ (size : ℕ) (addr phys : Word) (st : Vm),
      ∃ st', vmmMapLoop supply root permissions huge size addr phys st = some st'
  | 0, _, _, st => ⟨st, rfl⟩
  | size + 1, addr, phys, st => by
    obtain ⟨st1, h1⟩ := vmmMapPage_returns hs root addr phys permissions huge st
    rw [vmmMapLoop, h1, bind_some]
    exact vmmMapLoop_returns hs root permissions huge size _ _ st1

lemma vmmMapAdvanced_one (hs : Supplied supply) (hfree : root ∉ st.held) (addr phys permissions : Word)
    (huge : Bool) : ∃ st1, vmmMapPage supply root addr phys permissions huge { st with held := root :: st.held } =
      some st1 ∧ vmmMapAdvanced supply root addr phys 1 permissions huge st = some (true, st1.unlock root) := by
  have hlock : st.lock root = some { st with held := root :: st.held } := if_neg hfree
  obtain ⟨st1, h1⟩ := vmmMapPage_returns hs root addr phys permissions huge { st with held := root :: st.held }
  refine ⟨st1, h1, ?_⟩
  rw [vmmMapAdvanced, hlock, bind_some, vmmMapLoop, h1]
  rfl

/-- `size` pages from `addr` translate to those from `phys`, and no other
translation has changed. -/
structure Mapped (root addr phys : Word) (size : ℕ) (permissions : Word) (mem mem' : Word → Fin 512 → Word) : Prop where
  mapped : ∀ i < size, translate mem' root (vpn (pageAt addr i)) = some (pageAt phys i, permissions ||| vmmPresent)
  frame : ∀ v < 2 ^ 36, (∀ i < size, v ≠ vpn (pageAt addr i)) → translate mem' root v = translate mem root v

/-- The pages of a physical range: aligned, and below the `NX` bit. -/
def PhysRange (phys : Word) (size : ℕ) : Prop := phys.toNat % 0x1000 = 0 ∧ phys.toNat + size * 0x1000 ≤ 2 ^ 63

lemma PhysRange.pageAt {size : ℕ} (h : PhysRange phys size) {i : ℕ} (hi : i < size) :
    Vmm.pageAt phys i &&& vmmFlagMask = 0 := by
  obtain ⟨h1, h2⟩ := h
  have htoNat : (Vmm.pageAt phys i).toNat = phys.toNat + i * 0x1000 := by
    simp only [Vmm.pageAt, BitVec.toNat_add, BitVec.toNat_ofNat]
    omega
  rw [aligned_iff, htoNat]
  omega

lemma Tree.mapLoop (hs : Supplied supply) (hperm : permissions.toNat < 0x1000) :
    ∀ (size : ℕ) (addr phys : Word) (st st' : Vm), size ≤ 2 ^ 36 → (∀ i < size, pageAt phys i &&& vmmFlagMask = 0) →
      vmmMapLoop supply root permissions false size addr phys st = some st' →
      ∃ new, Took new st st' ∧ ∀ T, (new ++ T).Nodup → Tree st.mem root T →
        Grown root T new st.mem st'.mem ∧ Mapped root addr phys size permissions st.mem st'.mem
  | 0, addr, phys, st, st', _, _, h => by
    simp only [vmmMapLoop, some.injEq] at h
    subst h
    exact ⟨[], Took.refl st, fun T _ hT => ⟨⟨hT, fun _ _ => rfl⟩, ⟨by omega, fun _ _ _ => rfl⟩⟩⟩
  | size + 1, addr, phys, st, st', hsize, hphys, h => by
    simp only [vmmMapLoop, Bool.false_eq_true, ↓reduceIte, bind_eq_some_iff] at h
    obtain ⟨st1, h1, h2⟩ := h
    obtain ⟨new1, took1, spec1⟩ := Tree.mapPage hs h1
    have hphys2 : ∀ i < size, pageAt (phys + 0x1000) i &&& vmmFlagMask = 0 := fun i hi => by
      rw [pageAt_succ]
      exact hphys (i + 1) (by omega)
    obtain ⟨new2, took2, spec2⟩ := Tree.mapLoop hs hperm size _ _ st1 st' (by omega) hphys2 h2
    refine ⟨new2 ++ new1, took1.trans took2, fun T hnd hT => ?_⟩
    rw [List.append_assoc] at hnd
    obtain ⟨g1, tr1, -⟩ := spec1 T hnd.of_append_right hT
    obtain ⟨g2, m2⟩ := spec2 (new1 ++ T) hnd g1.tree
    refine ⟨g1.trans g2, ⟨?_, ?_⟩⟩
    · rintro (_ | i) hi
      · -- the first page is not mapped again
        rw [pageAt_zero, pageAt_zero, m2.frame _ (vpn_lt addr), tr1 _ (vpn_lt addr), if_pos rfl]
        · exact target_entry (by simpa using hphys 0 (by omega)) (flags_of_low hperm)
        · intro j hj
          rw [pageAt_succ]
          exact (vpn_pageAt_succ_ne addr (by omega)).symm
      · rw [← pageAt_succ, ← pageAt_succ]
        exact m2.mapped i (by omega)
    · intro v hv hout
      rw [m2.frame v hv, tr1 v hv, if_neg]
      · simpa using hout 0 (by omega)
      · intro i hi
        rw [pageAt_succ]
        exact hout (i + 1) (by omega)

/-! ### The loop of `vmm_unmap` -/

lemma vmmUnmapPage_took (root addr : Word) (size : ℕ) (st : Vm) :
    Took [] st (vmmUnmapPage root addr size st).2.2.2 := by
  unfold vmmUnmapPage
  dsimp only
  split
  · exact Took.refl st
  · split
    · exact Took.refl st
    · split_ifs
      · exact Took.refl st
      · exact (Took.refl st).store _ _ _
      · exact (Took.refl st).store _ _ _

lemma vmmUnmapLoop_took (root : Word) : ∀ (fuel size : ℕ) (addr : Word) (st : Vm),
    Took [] st (vmmUnmapLoop root fuel size addr st).2
  | _, 0, _, st => by
    rw [vmmUnmapLoop]
    exact Took.refl st
  | 0, _ + 1, _, st => Took.refl st
  | fuel + 1, size + 1, addr, st => by
    have h := vmmUnmapPage_took root addr size st
    rw [vmmUnmapLoop]
    match hr : vmmUnmapPage root addr size st with
    | (false, _, _, st1) =>
      rw [hr] at h
      exact h
    | (true, size1, addr1, st1) =>
      rw [hr] at h
      exact h.trans (vmmUnmapLoop_took root fuel size1 addr1 st1)

lemma Tree.unmapPage {pt : Word} (hT : Tree st.mem root T) (size : ℕ)
    (hpt : walk nextTable st.mem root (offsets (vpn addr)).path = some pt) : vmmUnmapPage root addr size st =
      (true, size, addr + 0x1000, st.store pt (offsets (vpn addr)).ptOff 0) := by
  have hwalk := hpt
  simp only [PtOffset.path, walk_cons, walk_nil, bind_eq_some_iff, some.injEq, exists_eq_right] at hwalk
  obtain ⟨pdp, h1, pd, h2, h3⟩ := hwalk
  have hpd : walk nextTable st.mem root [(offsets (vpn addr)).pml4Off, (offsets (vpn addr)).pdpOff] = some pd := by
    simp only [walk_cons, walk_nil, h1, bind_some, h2]
  have hsmall := hT.small _ (offsets (vpn addr)).pdOff _ rfl (by rw [entry, hpd, map_some])
  unfold vmmUnmapPage
  simp only [getAddrOffsets_eq]
  rw [show vmmGetOrNull st.mem root (offsets (vpn addr)).pml4Off = some pdp from h1]
  dsimp only
  rw [show vmmGetOrNull st.mem pdp (offsets (vpn addr)).pdpOff = some pd from h2]
  dsimp only
  rw [if_neg (not_not.mpr hsmall), show vmmGetOrNull st.mem pd (offsets (vpn addr)).pdOff = some pt from h3]
  rfl

structure Unmapped (root addr : Word) (size : ℕ) (mem mem' : Word → Fin 512 → Word) : Prop where
  unmapped : ∀ i < size, translate mem' root (vpn (pageAt addr i)) = none
  frame : ∀ v < 2 ^ 36, (∀ i < size, v ≠ vpn (pageAt addr i)) → translate mem' root v = translate mem root v

lemma Tree.unmapLoop : ∀ (size fuel : ℕ) (addr : Word) (st : Vm), size ≤ fuel → Tree st.mem root T →
    (∀ i < size, ∃ pt, walk nextTable st.mem root (offsets (vpn (pageAt addr i))).path = some pt) →
    ∃ st', vmmUnmapLoop root fuel size addr st = (true, st') ∧ Tree st'.mem root T ∧
      Unmapped root addr size st.mem st'.mem
  | 0, fuel, addr, st, _, hT, _ => ⟨st, by rw [vmmUnmapLoop], hT, ⟨by omega, fun _ _ _ => rfl⟩⟩
  | size + 1, 0, addr, st, hf, _, _ => by omega
  | size + 1, fuel + 1, addr, st, hf, hT, htab => by
    obtain ⟨pt, hpt⟩ := htab 0 (by omega)
    rw [pageAt_zero] at hpt
    obtain ⟨hT1, hwalk, htr⟩ := hT.storeLeaf (vpn_lt addr) hpt 0
    have htab1 : ∀ i < size, ∃ pt', walk nextTable (st.store pt (offsets (vpn addr)).ptOff 0).mem root
        (offsets (vpn (pageAt (addr + 0x1000) i))).path = some pt' := fun i hi => by
      obtain ⟨pt', hpt'⟩ := htab (i + 1) (by omega)
      rw [pageAt_succ]
      exact ⟨pt', (hwalk _ le_rfl).trans hpt'⟩
    obtain ⟨st', h', hT', hU⟩ := Tree.unmapLoop size fuel (addr + 0x1000)
      (st.store pt (offsets (vpn addr)).ptOff 0) (by omega) hT1 htab1
    refine ⟨st', ?_, hT', ⟨?_, ?_⟩⟩
    · rw [vmmUnmapLoop, hT.unmapPage size hpt]
      exact h'
    · -- a page named twice is unmapped twice
      have hfirst : ∀ v < 2 ^ 36, translate st'.mem root v = none ∨ translate st'.mem root v =
          translate (st.store pt (offsets (vpn addr)).ptOff 0).mem root v := by
        intro v hv
        by_cases hv' : ∃ i < size, v = vpn (pageAt (addr + 0x1000) i)
        · obtain ⟨i, hi, rfl⟩ := hv'
          exact .inl (hU.unmapped i hi)
        · exact .inr (hU.frame v hv fun i hi h => hv' ⟨i, hi, h⟩)
      rintro (_ | i) hi
      · rw [pageAt_zero]
        rcases hfirst (vpn addr) (vpn_lt addr) with h | h
        · exact h
        · exact h.trans ((htr _ (vpn_lt addr)).trans (if_pos rfl))
      · rw [← pageAt_succ]
        exact hU.unmapped i (by omega)
    · intro v hv hout
      have hne : v ≠ vpn addr := by simpa using hout 0 (by omega)
      rw [hU.frame v hv]
      · exact (htr v hv).trans (if_neg hne)
      · intro i hi
        rw [pageAt_succ]
        exact hout (i + 1) (by omega)

/-! ### Runs of calls -/

inductive MapOp where
  | map (addr phys : Word) (size : ℕ) (permissions : Word)
  | unmap (addr : Word) (size : ℕ)

/-- What a caller promises: a physical range of at most `2^36` pages and flags in
the low 12 bits, and to unmap only what is mapped. -/
def MapOp.Ok (root : Word) (st : Vm) : MapOp → Prop
  | .map _ phys size permissions => size ≤ 2 ^ 36 ∧ PhysRange phys size ∧ permissions.toNat < 0x1000
  | .unmap addr size => ∀ i < size, translate st.mem root (vpn (pageAt addr i)) ≠ none

def MapOp.step (supply : ℕ → Word) (root : Word) (st : Vm) : MapOp → Option Vm
  | .map addr phys size permissions => (vmmMap supply root addr phys size permissions st).map Prod.snd
  | .unmap addr size => (vmmUnmap root addr size st).map Prod.snd

/-- What holds between calls: the lock is free, and if no page was handed out
twice, the tables form a tree. -/
structure Built (root : Word) (st : Vm) : Prop where
  free : root ∉ st.held
  tree : (st.tables root).Nodup → Tree st.mem root (st.tables root)

variable {st : Vm}

lemma Built.vmmMap (hs : Supplied supply) (hB : Built root st) {size : ℕ}
    (hok : (MapOp.map addr phys size permissions).Ok root st) :
    ∃ st', Vmm.vmmMap supply root addr phys size permissions st = some (true, st') ∧ Built root st' ∧
      ((st'.tables root).Nodup → Mapped root addr phys size permissions st.mem st'.mem) := by
  obtain ⟨hsize, hphys, hperm⟩ := hok
  have hlock : st.lock root = some { st with held := root :: st.held } := if_neg hB.free
  obtain ⟨st1, h1⟩ := vmmMapLoop_returns hs root permissions false size addr phys
    { st with held := root :: st.held }
  obtain ⟨new, took, spec⟩ := Tree.mapLoop hs hperm size addr phys _ st1 hsize (fun i hi => hphys.pageAt hi) h1
  have took' : Took new st (st1.unlock root) := took.unlock
  have hnodup : ((st1.unlock root).tables root).Nodup → (new ++ st.tables root).Nodup := took'.tables root ▸ id
  refine ⟨st1.unlock root, ?_, ⟨took'.held ▸ hB.free, fun hnd => ?_⟩, fun hnd => ?_⟩
  · rw [Vmm.vmmMap, vmmMapAdvanced, hlock, bind_some, h1]
    rfl
  · rw [took'.tables root]
    exact (spec _ (hnodup hnd) (hB.tree (hnodup hnd).of_append_right)).1.tree
  · exact (spec _ (hnodup hnd) (hB.tree (hnodup hnd).of_append_right)).2

lemma walk_of_translate {mem : Word → Fin 512 → Word} {v : ℕ} (h : translate mem root v ≠ none) :
    ∃ pt, walk nextTable mem root (offsets v).path = some pt := by
  unfold translate entry at h
  cases hpt : walk nextTable mem root (offsets v).path with
  | none => simp [hpt] at h
  | some pt => exact ⟨pt, rfl⟩

lemma Built.vmmUnmap (hB : Built root st) (addr : Word) (size : ℕ) :
    ∃ r st', Vmm.vmmUnmap root addr size st = some (r, st') ∧ Took [] st st' ∧
      ((st.tables root).Nodup → (MapOp.unmap addr size).Ok root st →
        r = true ∧ Tree st'.mem root (st'.tables root) ∧ Unmapped root addr size st.mem st'.mem) := by
  have hlock : st.lock root = some { st with held := root :: st.held } := if_neg hB.free
  have took := vmmUnmapLoop_took root size size addr { st with held := root :: st.held }
  have took' : Took [] st ((vmmUnmapLoop root size size addr { st with held := root :: st.held }).2.unlock root) :=
    took.unlock
  refine ⟨_, _, by rw [Vmm.vmmUnmap, hlock, map_some], took', fun hnd hok => ?_⟩
  have htab : ∀ i < size, ∃ pt, walk nextTable st.mem root (offsets (vpn (pageAt addr i))).path = some pt :=
    fun i hi => walk_of_translate (hok i hi)
  obtain ⟨st', h', hT', hU⟩ := Tree.unmapLoop size size addr { st with held := root :: st.held } le_rfl
    (hB.tree hnd) htab
  rw [took'.tables root]
  rw [h']
  exact ⟨rfl, hT', hU⟩

lemma Built.step (hs : Supplied supply) (hB : Built root st) {op : MapOp} (hok : op.Ok root st) {st' : Vm}
    (h : op.step supply root st = some st') : Built root st' := by
  cases op with
  | map addr phys size permissions =>
    obtain ⟨st1, h1, hB1, -⟩ := hB.vmmMap hs hok
    simp only [MapOp.step, h1, map_some, some.injEq] at h
    exact h ▸ hB1
  | unmap addr size =>
    obtain ⟨r, st1, h1, took, spec⟩ := hB.vmmUnmap addr size
    simp only [MapOp.step, h1, map_some, some.injEq] at h
    subst h
    have htables : st1.tables root = st.tables root := took.tables root
    exact ⟨took.held ▸ hB.free, fun hnd => (spec (htables ▸ hnd) hok).2.1⟩

lemma built_run (hs : Supplied supply) {st0 : Vm} (hempty : ∀ i, st0.mem root i = 0) (hnone : st0.allocs = [])
    (hfree : root ∉ st0.held) {ops : List MapOp} (hok : Along (MapOp.step supply root) (MapOp.Ok root) st0 ops)
    (hrun : run (MapOp.step supply root) st0 ops = some st) : Built root st := by
  refine run_invariant_along _ (fun s op s' hB hC h => hB.step hs hC h) ops st0 st ⟨hfree, fun _ => ?_⟩
    hok hrun
  rw [Vm.tables, hnone]
  exact Tree.empty hempty

/-- **A call changes the translation of its own pages only.** After every run from an empty root: `vmm_map` returns,
and its pages translate to the physical range with the permissions and `PRESENT`; `vmm_unmap` of mapped pages returns,
and they have no translation; every other page is as before. -/
theorem translation_changes_only_in_range (supply : ℕ → Word) (hs : Supplied supply) (root : Word) (st₀ : Vm)
    (hempty : ∀ i, st₀.mem root i = 0) (hnone : st₀.allocs = []) (hfree : root ∉ st₀.held) (ops : List MapOp)
    (hok : Along (MapOp.step supply root) (MapOp.Ok root) st₀ ops) (st : Vm)
    (hrun : run (MapOp.step supply root) st₀ ops = some st) :
    (∀ addr phys size permissions, (MapOp.map addr phys size permissions).Ok root st →
      ∃ st', vmmMap supply root addr phys size permissions st = some (true, st') ∧ ((st'.tables root).Nodup →
        (∀ i < size, translate st'.mem root (vpn (pageAt addr i)) = some (pageAt phys i, permissions ||| vmmPresent)) ∧
        ∀ v < 2 ^ 36, (∀ i < size, v ≠ vpn (pageAt addr i)) → translate st'.mem root v = translate st.mem root v)) ∧
    (∀ addr size, (MapOp.unmap addr size).Ok root st → (st.tables root).Nodup →
      ∃ st', vmmUnmap root addr size st = some (true, st') ∧
        (∀ i < size, translate st'.mem root (vpn (pageAt addr i)) = none) ∧
        ∀ v < 2 ^ 36, (∀ i < size, v ≠ vpn (pageAt addr i)) → translate st'.mem root v = translate st.mem root v) := by
  have hB := built_run hs hempty hnone hfree hok hrun
  constructor
  · intro addr phys size permissions hmap
    obtain ⟨st', h, -, hM⟩ := hB.vmmMap hs hmap
    exact ⟨st', h, fun hnd => ⟨(hM hnd).mapped, (hM hnd).frame⟩⟩
  · intro addr size hunmap hnd
    obtain ⟨r, st', h, -, spec⟩ := hB.vmmUnmap addr size
    obtain ⟨rfl, -, hU⟩ := spec hnd hunmap
    exact ⟨st', h, hU.unmapped, hU.frame⟩

def eightPages (k : ℕ) : Word := 0x2000 + BitVec.ofNat 64 (k % 8 * 0x1000)

lemma eightPages_supplied : Supplied eightPages := by
  intro k
  have h : ∀ i < 8, (0x2000 : Word) + BitVec.ofNat 64 (i * 0x1000) ≠ 0 ∧
      ((0x2000 : Word) + BitVec.ofNat 64 (i * 0x1000)) &&& vmmFlagMask = 0 := by decide
  exact h (k % 8) (Nat.mod_lt _ (by decide))

def emptyVm : Vm := ⟨fun _ _ => 0, [], [], [], []⟩

/-- Two pages on both sides of a page table boundary. -/
def twoPages : MapOp := .map 0x1FF000 0xA000 2 3

theorem translation_changes_only_in_range_two :
    ∃ st st', run (MapOp.step eightPages 0x1000) emptyVm [twoPages] = some st ∧
      vmmUnmap 0x1000 0x200000 1 st = some (true, st') ∧ translate st'.mem 0x1000 512 = none ∧
      translate st'.mem 0x1000 511 = some (0xA000, 3) := by
  have hrun : (run (MapOp.step eightPages 0x1000) emptyVm [twoPages]).map (fun st =>
      (translate st.mem 0x1000 511, translate st.mem 0x1000 512, st.tables 0x1000)) =
      some (some (0xA000, 3), some (0xB000, 3), [0x5000, 0x4000, 0x3000, 0x2000, 0x1000]) := by decide +kernel
  obtain ⟨st, hst, h⟩ := map_eq_some_iff.mp hrun
  simp only [Prod.mk.injEq] at h
  have hok : Along (MapOp.step eightPages 0x1000) (MapOp.Ok 0x1000) emptyVm [twoPages] :=
    ⟨⟨by decide, by unfold PhysRange; decide, by decide⟩, fun _ _ => trivial⟩
  have hunmap : (MapOp.unmap 0x200000 1).Ok 0x1000 st := by
    intro i hi
    rw [show i = 0 by omega, pageAt_zero, show vpn 0x200000 = 512 by decide, h.2.1]
    simp
  have hnd : (st.tables 0x1000).Nodup := by
    rw [h.2.2]
    decide
  obtain ⟨st', h', hun, hframe⟩ := (translation_changes_only_in_range eightPages eightPages_supplied 0x1000
    emptyVm (fun _ => rfl) rfl (by simp [emptyVm]) [twoPages] hok st hst).2 0x200000 1 hunmap hnd
  refine ⟨st, st', hst, h', ?_, ?_⟩
  · have := hun 0 (by decide)
    rwa [pageAt_zero, show vpn 0x200000 = 512 by decide] at this
  · rw [hframe 511 (by decide), h.1]
    intro i hi
    rw [show i = 0 by omega, pageAt_zero]
    decide

end WivOS.Vmm
