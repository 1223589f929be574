/-
# A page table from its start to its end

`vmm_setup_pml4` and `vmm_free_pml4` of `kernel/mem/vmm.c`. Freeing a table gives back the tables of its lower half and
every page that they map, whoever else maps it (`vmmFreePml4_gives_back`).
-/
import WivOS.Mem.Pmm
import WivOS.Mem.VmmStores

namespace WivOS.Vmm

open List Option Radix

/-- `pt_t`: where it is, and its `entries`. -/
structure Pt where
  addr : Word
  entries : Word
deriving DecidableEq

structure KernelImage where
  base : Word
  phys : Word
  size : ℕ

/-- `vmm_setup_pml4`. Without memory for the `pt_t` and its first table the call is taken to stop. -/
def vmmSetupPml4 (supply : ℕ → Word) (kernel : KernelImage) (st : Vm) : Option (Pt × Vm) :=
  let pt := kmallocPt supply st
  let new := pmmAlloc supply 1 pt.2
  if pt.1 = 0 ∨ new.1 = 0 then none
  else
    -- `pml4->entries`, and its lock is free
    let st := new.2.poke pt.1 0 new.1
    let st := { st with held := st.held.filter (· ≠ new.1) }
    (vmmMap supply new.1 kernel.base kernel.phys ((kernel.size + 0xFFF) / 0x1000) 3 st).bind fun r =>
      (vmmMapHuge supply new.1 (BitVec.ofNat 64 memPhysOffset) 0 (4096 * 3) 3 r.2).map fun r => (⟨pt.1, new.1⟩, r.2)

def freePt (pt : Word) (st : Vm) (l : ℕ) : Vm :=
  if st.mem pt (Fin.ofNat 512 l) &&& 0x1 = 0 then st
  else st.pmmFree (page (st.mem pt (Fin.ofNat 512 l) &&& vmmAddrMask))

/-- Entry `k` of the page directory `pd`. A large page is left alone. -/
def freePd (pd : Word) (st : Vm) (k : ℕ) : Vm :=
  if st.mem pd (Fin.ofNat 512 k) &&& vmmLarge = 0 then
    match vmmGetOrNull st.mem pd (Fin.ofNat 512 k) with
    | none => st
    | some pt => ((List.range 512).foldl (freePt pt) st).pmmFree (page pt)
  else st

def freePdp (pdp : Word) (st : Vm) (j : ℕ) : Vm :=
  match vmmGetOrNull st.mem pdp (Fin.ofNat 512 j) with
  | none => st
  | some pd => ((List.range 512).foldl (freePd pd) st).pmmFree (page pd)

def freePml4Entry (pml4 : Word) (st : Vm) (i : ℕ) : Vm :=
  match vmmGetOrNull st.mem pml4 (Fin.ofNat 512 i) with
  | none => st
  | some pdp => ((List.range 512).foldl (freePdp pdp) st).pmmFree (page pdp)

def vmmFreePml4 (pml4 : Pt) (st : Vm) : Option Vm :=
  (st.lock pml4.entries).map fun st =>
    let st := (List.range 256).foldl (freePml4Entry pml4.entries) st
    (st.pmmFree (page pml4.entries)).pmmFree ⟨pml4.addr - 0x1000, 2⟩

section

variable {supply : ℕ → Word} {st st' st'' : Vm} {root : Word} {b : Frames}

/-! ### Setting up -/

lemma vmmMapAdvanced_returns (hs : Supplied supply) (hfree : root ∉ st.held) (addr phys : Word) (size : ℕ)
    (permissions : Word)
    (huge : Bool) : ∃ st', vmmMapAdvanced supply root addr phys size permissions huge st = some (true, st') ∧
      ∃ new, Took new st st' := by
  have hlock : st.lock root = some { st with held := root :: st.held } := if_neg hfree
  obtain ⟨st1, h1⟩ := vmmMapLoop_returns hs root permissions huge size addr phys { st with held := root :: st.held }
  obtain ⟨new, took⟩ := vmmMapLoop_took size addr phys _ st1 h1
  refine ⟨st1.unlock root, ?_, new, took.unlock⟩
  rw [vmmMapAdvanced, hlock, bind_some, h1, map_some]

lemma vmmSetupPml4_returns (hs : Supplied supply) (kernel : KernelImage) (st : Vm) :
    ∃ st', vmmSetupPml4 supply kernel st = some
      (⟨supply st.allocs.length + 0x1000, supply (st.allocs.length + 1)⟩, st') ∧
      st'.frees = st.frees ∧ st'.held = st.held.filter (· ≠ supply (st.allocs.length + 1)) := by
  obtain ⟨hpt, hpt'⟩ := hs st.allocs.length
  have hnext : supply st.allocs.length + 0x1000 ≠ 0 := by
    intro h
    rw [eq_neg_of_add_eq_zero_left h] at hpt'
    exact absurd hpt' (by decide)
  have hkmalloc : kmallocPt supply st = (supply st.allocs.length + 0x1000, _) := if_neg hpt
  generalize hst1 : (pmmAlloc supply 1 (kmallocPt supply st).2).2.poke (supply st.allocs.length + 0x1000) 0
    (supply (st.allocs.length + 1)) = st1
  have hfrees : st1.frees = st.frees := by rw [← hst1, hkmalloc]; rfl
  have hheld : st1.held = st.held := by rw [← hst1, hkmalloc]; rfl
  have hfree : supply (st.allocs.length + 1) ∉
      ({ st1 with held := st1.held.filter (· ≠ supply (st.allocs.length + 1)) } : Vm).held := by
    rw [mem_filter]
    exact fun h => of_decide_eq_true h.2 rfl
  obtain ⟨st2, h2, new2, took2⟩ := vmmMapAdvanced_returns hs hfree
    kernel.base kernel.phys ((kernel.size + 0xFFF) / 0x1000) 3 false
  have hfree2 : supply (st.allocs.length + 1) ∉ st2.held := by rw [took2.held]; exact hfree
  obtain ⟨st3, h3, new3, took3⟩ := vmmMapAdvanced_returns hs hfree2 (BitVec.ofNat 64 memPhysOffset) 0 (4096 * 3) 3 true
  refine ⟨st3, ?_, ?_, ?_⟩
  · have hnew : (pmmAlloc supply 1 (kmallocPt supply st).2).1 = supply (st.allocs.length + 1) := by rw [hkmalloc]; rfl
    rw [vmmSetupPml4]
    dsimp only
    rw [hnew, hkmalloc]
    dsimp only
    rw [if_neg (not_or.mpr ⟨hnext, (hs _).1⟩)]
    rw [hkmalloc] at hst1
    rw [hst1, vmmMap, h2, bind_some, vmmMapHuge, h3, map_some]
  · rw [took3.frees, took2.frees, hfrees]
  · rw [took3.held, took2.held, hheld]

/-! ### Freeing -/

structure Gave (st st' : Vm) : Prop where
  mem : st'.mem = st.mem
  held : st'.held = st.held
  frees : st.frees ⊆ st'.frees

lemma Gave.refl (st : Vm) : Gave st st := ⟨rfl, rfl, List.Subset.refl _⟩

lemma Gave.trans (h : Gave st st') (h' : Gave st' st'') : Gave st st'' :=
  ⟨h'.mem.trans h.mem, h'.held.trans h.held, List.Subset.trans h.frees h'.frees⟩

lemma Gave.pmmFree (h : Gave st st') (b : Frames) : Gave st (st'.pmmFree b) :=
  ⟨h.mem, h.held, fun _ hx => mem_cons_of_mem b (h.frees hx)⟩

lemma gave_foldl {f : Vm → ℕ → Vm} (hf : ∀ st i, Gave st (f st i)) : ∀ (l : List ℕ) (st : Vm), Gave st (l.foldl f st)
  | [], st => Gave.refl st
  | i :: l, st => (hf st i).trans (gave_foldl hf l (f st i))

lemma mem_foldl {f : Vm → ℕ → Vm} (hf : ∀ st i, Gave st (f st i)) {i : ℕ} :
    ∀ (l : List ℕ) (st : Vm), i ∈ l → (∀ st', st'.mem = st.mem → b ∈ (f st' i).frees) → b ∈ (l.foldl f st).frees
  | j :: l, st, hi, h => by
    rw [foldl_cons]
    rcases mem_cons.mp hi with rfl | hi
    · exact (gave_foldl hf l _).frees (h st rfl)
    · exact mem_foldl hf l _ hi fun st' hst' => h st' (hst'.trans (hf st j).mem)

lemma freePt_gave (pt : Word) (st : Vm) (l : ℕ) : Gave st (freePt pt st l) := by
  unfold freePt
  split
  · exact Gave.refl st
  · exact (Gave.refl st).pmmFree _

lemma freePd_gave (pd : Word) (st : Vm) (k : ℕ) : Gave st (freePd pd st k) := by
  unfold freePd
  split
  · split
    · exact Gave.refl st
    · exact (gave_foldl (freePt_gave _) _ st).pmmFree _
  · exact Gave.refl st

lemma freePdp_gave (pdp : Word) (st : Vm) (j : ℕ) : Gave st (freePdp pdp st j) := by
  unfold freePdp
  split
  · exact Gave.refl st
  · exact (gave_foldl (freePd_gave _) _ st).pmmFree _

lemma freePml4Entry_gave (pml4 : Word) (st : Vm) (i : ℕ) : Gave st (freePml4Entry pml4 st i) := by
  unfold freePml4Entry
  split
  · exact Gave.refl st
  · exact (gave_foldl (freePdp_gave _) _ st).pmmFree _

lemma freePt_gives_back {pt : Word} {l : ℕ} {phys flags : Word}
    (h : target (st.mem pt (Fin.ofNat 512 l)) = some (phys, flags)) :
    page phys ∈ (freePt pt st l).frees := by
  rw [target] at h
  split at h
  · cases h
  · rename_i hpresent
    have hpresent' : ¬ st.mem pt (Fin.ofNat 512 l) &&& 1 = 0 := hpresent
    rw [freePt, if_neg hpresent', ← (Prod.mk.inj (some.inj h)).1]
    exact mem_cons_self

lemma freePd_gives_back {pd pt : Word} {k l : ℕ} {phys flags : Word}
    (hsmall : st.mem pd (Fin.ofNat 512 k) &&& vmmLarge = 0)
    (hpt : nextTable (st.mem pd (Fin.ofNat 512 k)) = some pt) (hl : l < 512)
    (h : target (st.mem pt (Fin.ofNat 512 l)) = some (phys, flags)) : page phys ∈ (freePd pd st k).frees := by
  have hget : vmmGetOrNull st.mem pd (Fin.ofNat 512 k) = some pt := hpt
  rw [freePd, if_pos hsmall, hget]
  refine mem_cons_of_mem _ (mem_foldl (freePt_gave pt) _ st (mem_range.mpr hl) fun st' hst' => ?_)
  exact freePt_gives_back (by rw [hst']; exact h)

lemma freePdp_gives_back {pdp pd pt : Word} {j k l : ℕ} {phys flags : Word}
    (hpd : nextTable (st.mem pdp (Fin.ofNat 512 j)) = some pd) (hk : k < 512)
    (hsmall : st.mem pd (Fin.ofNat 512 k) &&& vmmLarge = 0) (hpt : nextTable (st.mem pd (Fin.ofNat 512 k)) = some pt)
    (hl : l < 512) (h : target (st.mem pt (Fin.ofNat 512 l)) = some (phys, flags)) :
    page phys ∈ (freePdp pdp st j).frees := by
  have hget : vmmGetOrNull st.mem pdp (Fin.ofNat 512 j) = some pd := hpd
  rw [freePdp, hget]
  refine mem_cons_of_mem _ (mem_foldl (freePd_gave pd) _ st (mem_range.mpr hk) fun st' hst' => ?_)
  exact freePd_gives_back (by rw [hst']; exact hsmall) (by rw [hst']; exact hpt) hl (by rw [hst']; exact h)

/-- **Freeing a page table** gives back every page that its lower half maps. -/
theorem vmmFreePml4_gives_back {pml4 : Pt} {v : ℕ} {phys flags : Word} (h : vmmFreePml4 pml4 st = some st')
    (hv : v < 2 ^ 35)
    (hsmall : NotLarge st.mem pml4.entries v) (hmaps : translate st.mem pml4.entries v = some (phys, flags)) :
    page phys ∈ st'.frees := by
  obtain ⟨st1, hlock, rfl⟩ := map_eq_some_iff.mp h
  have hmem : st1.mem = st.mem := by
    rw [Vm.lock] at hlock
    split at hlock
    · cases hlock
    · cases hlock
      rfl
  -- the tables on the way to the page
  obtain ⟨e, he, htarget⟩ := bind_eq_some_iff.mp hmaps
  obtain ⟨pt, hwalk, rfl⟩ := map_eq_some_iff.mp he
  rw [PtOffset.path, walk_cons] at hwalk
  obtain ⟨pdp, hpdp, hwalk⟩ := bind_eq_some_iff.mp hwalk
  rw [walk_cons] at hwalk
  obtain ⟨pd, hpd, hwalk⟩ := bind_eq_some_iff.mp hwalk
  rw [walk_cons] at hwalk
  obtain ⟨pt', hpt, hwalk⟩ := bind_eq_some_iff.mp hwalk
  obtain rfl : pt' = pt := some.inj hwalk
  have hlarge := hsmall (st.mem pd (offsets v).pdOff) (by
    rw [pdEntry, entry, PtOffset.dirPath, walk_cons, hpdp, bind_some, walk_cons, hpd]
    rfl)
  have hofNat : ∀ n, Fin.ofNat 512 (n % 512) = Fin.ofNat 512 n := fun n => Fin.ext (Nat.mod_mod n 512)
  have hlt : ∀ n, n % 512 < 512 := fun n => Nat.mod_lt n (by decide)
  have hi : v / 2 ^ 27 < 256 := by omega
  refine mem_cons_of_mem _ (mem_cons_of_mem _ (mem_foldl (freePml4Entry_gave pml4.entries) _ st1
    (mem_range.mpr hi) fun st2 hst2 => ?_))
  have hget : vmmGetOrNull st2.mem pml4.entries (Fin.ofNat 512 (v / 2 ^ 27)) = some pdp := by
    rw [hst2, hmem]
    exact hpdp
  rw [freePml4Entry, hget]
  refine mem_cons_of_mem _ (mem_foldl (freePdp_gave pdp) _ st2 (mem_range.mpr (hlt (v / 2 ^ 18))) fun st3 hst3 => ?_)
  have hmem3 : st3.mem = st.mem := hst3.trans (hst2.trans hmem)
  refine @freePdp_gives_back _ pdp pd pt' _ (v / 2 ^ 9 % 512) (v % 512) _ flags ?_ (hlt _) ?_ ?_ (hlt _) ?_
  · rw [hmem3, hofNat]
    exact hpd
  · rw [hmem3, hofNat]
    exact hlarge
  · rw [hmem3, hofNat]
    exact hpt
  · rw [hmem3, hofNat]
    exact htarget

lemma vmmFreePml4_returns {pml4 : Pt} (hfree : pml4.entries ∉ st.held) :
    ∃ st', vmmFreePml4 pml4 st = some st' ∧ page pml4.entries ∈ st'.frees ∧ st.frees ⊆ st'.frees := by
  have hlock : st.lock pml4.entries = some { st with held := pml4.entries :: st.held } := if_neg hfree
  have hgave := gave_foldl (freePml4Entry_gave pml4.entries) (List.range 256)
    { st with held := pml4.entries :: st.held }
  refine ⟨_, by rw [vmmFreePml4, hlock, map_some], ?_, ?_⟩
  · exact mem_cons_of_mem _ mem_cons_self
  · exact ((hgave.pmmFree _).pmmFree _).frees

theorem vmmFreePml4_gives_back_two : ∃ st st', Machine.run (MapOp.step eightPages 0x1000) emptyVm [twoPages] = some st ∧
    vmmFreePml4 ⟨0x20000, 0x1000⟩ st = some st' ∧ page 0xA000 ∈ st'.frees ∧ page 0xB000 ∈ st'.frees := by
  have hrun : (Machine.run (MapOp.step eightPages 0x1000) emptyVm [twoPages]).map (fun st =>
      (translate st.mem 0x1000 511, translate st.mem 0x1000 512, pdEntry st.mem 0x1000 511, pdEntry st.mem 0x1000 512,
        st.held)) = some (some (0xA000, 3), some (0xB000, 3), some 0x4007, some 0x5007, []) := by decide +kernel
  obtain ⟨st, hst, h⟩ := map_eq_some_iff.mp hrun
  simp only [Prod.mk.injEq] at h
  obtain ⟨hfirst, hsecond, hpd, hpd', hheld⟩ := h
  obtain ⟨st', hfree, -⟩ := @vmmFreePml4_returns st ⟨0x20000, 0x1000⟩ (by rw [hheld]; exact not_mem_nil)
  refine ⟨st, st', hst, hfree, vmmFreePml4_gives_back hfree (by decide : 511 < 2 ^ 35) (fun e he => ?_) hfirst,
    vmmFreePml4_gives_back hfree (by decide : 512 < 2 ^ 35) (fun e he => ?_) hsecond⟩
  · obtain rfl := some.inj (hpd.symm.trans he)
    decide
  · obtain rfl := some.inj (hpd'.symm.trans he)
    decide

end

end WivOS.Vmm
