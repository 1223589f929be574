/-
# Where entries are stored

Page tables built from an empty root by any calls of `vmm_map`, `vmm_map_huge`, `vmm_map_if_not_mapped` and
`vmm_unmap`. `Shape` says that the tables down to the page directories form a tree, and that an entry of a page
directory is a large page or leads to a page table of the tree. `vmm_map` follows a large entry as if it led to a page
table (`store_into_large_page`), and `vmm_unmap` stores through a null pointer where a page table is missing. If no
call meets such an entry, all stores go to tables (`stores_only_into_tables`).
-/
import WivOS.Mem.VmmMap

namespace WivOS.Vmm

open Function List Radix Machine
open Option hiding or_assoc

variable {supply : ℕ → Word} {st st' : Vm} {root p q : Word} {i : Fin 512} {path : List (Fin 512)}
  {D P : List Word} {huge : Bool} {size : ℕ} {a : Word} {r : Bool}

/-! ### Page directories -/

/-- The page directories and the tables above them are `D`, the page tables are
among `P`, and entries have been stored into tables only. -/
structure Shape (root : Word) (D P : List Word) (st : Vm) : Prop where
  tree : Radix.Tree nextTable st.mem root 2 D
  pts : ∀ path i e q, path.length = 2 → entry nextTable st.mem root path i = some e → e &&& vmmLarge = 0 →
    nextTable e = some q → q ∈ P
  apart : ∀ p ∈ D, p ∉ P
  owned : ∀ p, p ∈ D ∨ p ∈ P → p ∈ st.tables root
  stores : ∀ p ∈ st.stores, p ∈ st.tables root

/-- No entry of a page directory has become a large page. -/
def NoNewLarge (root : Word) (mem mem' : Word → Fin 512 → Word) : Prop :=
  ∀ path i e, path.length = 2 → entry nextTable mem' root path i = some e → e &&& vmmLarge ≠ 0 →
    entry nextTable mem root path i = some e

lemma NoNewLarge.refl (mem : Word → Fin 512 → Word) : NoNewLarge root mem mem := fun _ _ _ _ h _ => h

variable {mem' : Word → Fin 512 → Word} {addr phys permissions : Word}

lemma NoNewLarge.trans {mem mem'' : Word → Fin 512 → Word} (h : NoNewLarge root mem mem')
    (h' : NoNewLarge root mem' mem'') : NoNewLarge root mem mem'' :=
  fun path i e hlen he hl => h path i e hlen (h' path i e hlen he hl) hl

lemma Shape.empty (hempty : ∀ i, st.mem root i = 0) (hnone : st.allocs = []) (hstores : st.stores = []) :
    Shape root [root] [] st := by
  have hT : Radix.Tree nextTable st.mem root 2 [root] := Radix.Tree.empty fun i => by
    rw [hempty]
    exact nextTable_zero
  refine ⟨hT, ?_, by simp, by simp [Vm.tables, hnone], by simp [hstores]⟩
  intro path i e q hlen he _ hq
  obtain ⟨p, hp, rfl⟩ := map_eq_some_iff.mp he
  rw [mem_singleton.mp (hT.tables path p (by omega) hp), hempty] at hq
  simp at hq

section

variable (hS : Shape root D P st)
include hS

lemma Shape.held (l : List Word) : Shape root D P { st with held := l } :=
  ⟨hS.tree, hS.pts, hS.apart, hS.owned, hS.stores⟩

lemma Shape.storePt (hp : p ∈ P) (i : Fin 512) (e : Word) :
    Shape root D P (st.store p i e) ∧ ∀ path j, path.length = 2 →
      entry nextTable (st.store p i e).mem root path j = entry nextTable st.mem root path j := by
  have hsame : ∀ r ∈ D, (st.store p i e).mem r = st.mem r := fun r hr =>
    write_table_ne _ _ _ fun h => hS.apart r hr (h ▸ hp)
  have hentry : ∀ path j, path.length = 2 →
      entry nextTable (st.store p i e).mem root path j = entry nextTable st.mem root path j :=
    fun path j hlen => hS.tree.entry_congr hsame hlen.le j
  refine ⟨⟨hS.tree.congr hsame, fun path j e' q hlen he' => ?_, hS.apart, hS.owned, ?_⟩, hentry⟩
  · rw [hentry path j hlen] at he'
    exact hS.pts path j e' q hlen he'
  · intro r hr
    rcases mem_cons.mp hr with rfl | hr
    · exact hS.owned r (.inr hp)
    · exact hS.stores r hr

lemma Shape.storePd (hlen : path.length = 2)
    (hp : walk nextTable st.mem root path = some p) (i : Fin 512) {e : Word}
    (he : e &&& vmmLarge = 0 → nextTable e = none) : Shape root D P (st.store p i e) ∧ ∀ path' j, path'.length = 2 →
      entry nextTable (st.store p i e).mem root path' j =
        if path' = path ∧ j = i then some e else entry nextTable st.mem root path' j := by
  have hentry : ∀ path' j, path'.length = 2 → entry nextTable (st.store p i e).mem root path' j =
      if path' = path ∧ j = i then some e else entry nextTable st.mem root path' j :=
    fun path' j hlen' => entry_write_leaf hS.tree.unshared hlen hp i e hlen'.le j
  have hpD : p ∈ D := hS.tree.tables path p hlen.le hp
  refine ⟨⟨hS.tree.writeLeaf hlen hp i e, fun path' j e' q hlen' he' hsmall hq => ?_, hS.apart, hS.owned, ?_⟩, hentry⟩
  · rw [hentry path' j hlen'] at he'
    split_ifs at he'
    · rw [← some.inj he'] at hsmall hq
      rw [he hsmall] at hq
      simp at hq
    · exact hS.pts path' j e' q hlen' he' hsmall hq
  · intro r hr
    rcases mem_cons.mp hr with rfl | hr
    · exact hS.owned r (.inl hpD)
    · exact hS.stores r hr

/-! ### New tables -/

lemma Shape.alloc (ha : a ∉ st.tables root) :
    Shape root D P { st with mem := update st.mem a fun _ => 0, allocs := page a :: st.allocs } ∧
      (∀ path, path.length ≤ 2 → walk nextTable (update st.mem a fun _ => 0) root path =
        walk nextTable st.mem root path) ∧
      ∀ path j, path.length ≤ 2 → entry nextTable (update st.mem a fun _ => 0) root path j =
        entry nextTable st.mem root path j := by
  have hzero : ∀ r ∈ D, update st.mem a (fun _ => 0) r = st.mem r := by
    intro r hr
    refine update_of_ne ?_ _ _
    rintro rfl
    exact ha (hS.owned r (.inl hr))
  have hentry : ∀ path j, path.length ≤ 2 → entry nextTable (update st.mem a fun _ => 0) root path j =
      entry nextTable st.mem root path j := fun path j hlen => hS.tree.entry_congr hzero hlen j
  refine ⟨⟨hS.tree.congr hzero, fun path j e q hlen he => ?_, hS.apart, ?_, ?_⟩,
    fun path hlen => hS.tree.walk_congr hzero hlen, hentry⟩
  · exact hS.pts path j e q hlen ((hentry path j hlen.le).symm.trans he)
  · exact fun r hr => mem_cons_of_mem _ (hS.owned r hr)
  · exact fun r hr => mem_cons_of_mem _ (hS.stores r hr)

lemma Shape.grow {D' P' : List Word} (ha : a ∉ st.tables root) (hp : p ∈ D)
    (hnew : (D' = a :: D ∧ P' = P) ∨ (D' = D ∧ P' = a :: P)) (htree : Radix.Tree nextTable mem' root 2 D')
    (hentry : ∀ path i e, path.length = 2 → entry nextTable mem' root path i = some e →
      e &&& vmmLarge = 0 ∧ (∀ q, nextTable e = some q → q ∈ P') ∨ entry nextTable st.mem root path i = some e) :
    Shape root D' P' { st with mem := mem', allocs := page a :: st.allocs, stores := p :: p :: st.stores } ∧
      NoNewLarge root st.mem mem' := by
  have haD : a ∉ D := fun h => ha (hS.owned a (.inl h))
  have haP : a ∉ P := fun h => ha (hS.owned a (.inr h))
  have hmem : ∀ r, r ∈ D' ∨ r ∈ P' → r = a ∨ r ∈ D ∨ r ∈ P := by
    rcases hnew with ⟨rfl, rfl⟩ | ⟨rfl, rfl⟩ <;> simp only [mem_cons] <;> tauto
  have hkeep : ∀ r ∈ P, r ∈ P' := by
    rcases hnew with ⟨-, rfl⟩ | ⟨-, rfl⟩ <;> simp +contextual
  refine ⟨⟨htree, fun path i e q hlen he hsmall hq => ?_, ?_, ?_, ?_⟩, fun path i e hlen he hl => ?_⟩
  · rcases hentry path i e hlen he with h | h
    · exact h.2 q hq
    · exact hkeep q (hS.pts path i e q hlen h hsmall hq)
  · intro r hr hrP
    rcases hnew with ⟨rfl, rfl⟩ | ⟨rfl, rfl⟩
    · rcases mem_cons.mp hr with rfl | hr
      · exact haP hrP
      · exact hS.apart r hr hrP
    · rcases mem_cons.mp hrP with rfl | hrP
      · exact haD hr
      · exact hS.apart r hr hrP
  · intro r hr
    rcases hmem r hr with rfl | hr
    · exact mem_cons_self
    · exact mem_cons_of_mem _ (hS.owned r hr)
  · intro r hr
    have hr' : r = p ∨ r ∈ st.stores := by simpa [or_assoc] using hr
    rcases hr' with rfl | hr'
    · exact mem_cons_of_mem _ (hS.owned r (.inl hp))
    · exact mem_cons_of_mem _ (hS.stores r hr')
  · exact (hentry path i e hlen he).resolve_left fun h => hl h.1

lemma Shape.getDir (hs : Supplied supply) (hlen : path.length < 2)
    (hp : walk nextTable st.mem root path = some p)
    (h : vmmGetOrAlloc supply st p i (vmmWrite ||| vmmUser) = some (q, st')) (hnd : (st'.tables root).Nodup) :
    ∃ D', Shape root D' P st' ∧ walk nextTable st'.mem root (path ++ [i]) = some q ∧
      NoNewLarge root st.mem st'.mem := by
  rcases vmmGetOrAlloc_cases h with ⟨hq, rfl⟩ | ⟨hfree, a, ha, hq, rfl⟩
  · exact ⟨D, hS, by rw [walk_snoc, hp, bind_some, hq], NoNewLarge.refl _⟩
  have haligned : a &&& vmmFlagMask = 0 := ha ▸ (hs _).2
  have hqa : q = a := hq.trans (and_addr_of_aligned haligned)
  have hnew : a ∉ st.tables root := (nodup_cons.mp hnd).1
  have hpD : p ∈ D := hS.tree.tables path p (by omega) hp
  have hpa : p ≠ a := fun h => hnew (h ▸ hS.owned p (.inl hpD))
  obtain ⟨hS1, hwalk, hentry⟩ := hS.alloc hnew
  obtain ⟨htree, hwalk', hentry'⟩ := hS1.tree.link (fun h => hnew (hS.owned a (.inl h)))
    (fun j => by simp) hlen ((hwalk path (by omega)).trans hp)
    (show nextTable (update st.mem a (fun _ => 0) p i) = none by rw [update_of_ne hpa, hfree])
    (newEntry haligned).1
  obtain ⟨hS', hl⟩ := hS.grow hnew hpD (.inl ⟨rfl, rfl⟩) htree fun path' j e' hlen' he' => by
    rw [hentry' path' hlen'.le, hentry path' j hlen'.le] at he'
    split_ifs at he' with h1 h2
    · obtain rfl : e' = 0 := by simpa using he'.symm
      exact .inl ⟨BitVec.zero_and, by simp⟩
    · obtain ⟨rfl, -⟩ := h2
      omega
    · exact .inr he'
  exact ⟨a :: D, hS', hqa ▸ hwalk', hl⟩

lemma Shape.getPt (hs : Supplied supply) (hlen : path.length = 2)
    (hp : walk nextTable st.mem root path = some p) (hsmall : st.mem p i &&& vmmLarge = 0)
    (h : vmmGetOrAlloc supply st p i (vmmWrite ||| vmmUser) = some (q, st')) (hnd : (st'.tables root).Nodup) :
    ∃ P', Shape root D P' st' ∧ q ∈ P' ∧ NoNewLarge root st.mem st'.mem := by
  rcases vmmGetOrAlloc_cases h with ⟨hq, rfl⟩ | ⟨hfree, a, ha, hq, rfl⟩
  · exact ⟨P, hS, hS.pts path i _ q hlen (by rw [entry, hp, map_some]) hsmall hq, NoNewLarge.refl _⟩
  have haligned : a &&& vmmFlagMask = 0 := ha ▸ (hs _).2
  have hqa : q = a := hq.trans (and_addr_of_aligned haligned)
  have hnew : a ∉ st.tables root := (nodup_cons.mp hnd).1
  obtain ⟨hS1, hwalk, hentry⟩ := hS.alloc hnew
  have hp1 := (hwalk path hlen.le).trans hp
  obtain ⟨hS', hl⟩ := hS.grow hnew (hS.tree.tables path p (by omega) hp) (.inr ⟨rfl, rfl⟩)
    (hS1.tree.writeLeaf hlen hp1 i (a ||| (vmmWrite ||| vmmUser ||| vmmPresent))) fun path' j e' hlen' he' => by
    rw [entry_write_leaf hS1.tree.unshared hlen hp1 i _ hlen'.le, hentry path' j hlen'.le] at he'
    split_ifs at he'
    · obtain rfl := some.inj he'
      refine .inl ⟨(newEntry haligned).2, fun r hr => ?_⟩
      rw [(newEntry haligned).1, some.injEq] at hr
      exact hr ▸ mem_cons_self
    · exact .inr he'
  exact ⟨a :: P, hS', hqa ▸ mem_cons_self, hl⟩

/-! ### Mapping -/

end

def pdEntry (mem : Word → Fin 512 → Word) (root : Word) (v : ℕ) : Option Word :=
  entry nextTable mem root (offsets v).dirPath (offsets v).pdOff

/-- No large page maps the virtual page `v`. -/
def NotLarge (mem : Word → Fin 512 → Word) (root : Word) (v : ℕ) : Prop :=
  ∀ e, pdEntry mem root v = some e → e &&& vmmLarge = 0

lemma NotLarge.of_noNewLarge {mem : Word → Fin 512 → Word} {v : ℕ} (h : NotLarge mem root v)
    (hnew : NoNewLarge root mem mem') : NotLarge mem' root v := by
  intro e he
  by_contra hl
  exact hl (h e (hnew _ _ e rfl he hl))

section Page

variable {st₁ st₂ st₃ : Vm} {o : PtOffset} {pdp pd pt : Word}

lemma Shape.getPd (hs : Supplied supply) (hS : Shape root D P st)
    (h1 : vmmGetOrAlloc supply st root o.pml4Off (vmmWrite ||| vmmUser) = some (pdp, st₁))
    (h2 : vmmGetOrAlloc supply st₁ pdp o.pdpOff (vmmWrite ||| vmmUser) = some (pd, st₂))
    (hnd : (st₂.tables root).Nodup) : ∃ D', Shape root D' P st₂ ∧ walk nextTable st₂.mem root o.dirPath = some pd ∧
      NoNewLarge root st.mem st₂.mem := by
  obtain ⟨new, took⟩ := vmmGetOrAlloc_took h2
  obtain ⟨D1, hS1, hw1, hl1⟩ := hS.getDir hs (by simp) (walk_nil nextTable st.mem root) h1 (took.nodup hnd)
  obtain ⟨D2, hS2, hw2, hl2⟩ := hS1.getDir hs (by simp) hw1 h2 hnd
  exact ⟨D2, hS2, hw2, hl1.trans hl2⟩

end Page

lemma Shape.mapPageHuge (hs : Supplied supply) (hS : Shape root D P st)
    (h : vmmMapPage supply root addr phys permissions true st = some st') (hnd : (st'.tables root).Nodup) :
    ∃ D', Shape root D' P st' := by
  simp only [vmmMapPage, ↓reduceIte, bind_eq_some_iff, Prod.exists] at h
  obtain ⟨pdp, st₁, h1, pd, st₂, h2, h⟩ := h
  cases h
  obtain ⟨D2, hS2, hpd, -⟩ := hS.getPd hs h1 h2 hnd
  refine ⟨D2, (hS2.storePd rfl hpd _ fun hsmall => ?_).1⟩
  -- the entry is a large page
  rw [BitVec.and_or_distrib_right] at hsmall
  exact absurd (BitVec.or_eq_zero_iff.mp hsmall).2 (by decide)

lemma Shape.mapPage (hs : Supplied supply) (hS : Shape root D P st) (hsmall : NotLarge st.mem root (vpn addr))
    (h : vmmMapPage supply root addr phys permissions false st = some st') (hnd : (st'.tables root).Nodup) :
    ∃ D' P', Shape root D' P' st' ∧ NoNewLarge root st.mem st'.mem := by
  simp only [vmmMapPage, getAddrOffsets_eq, Bool.false_eq_true, ↓reduceIte, bind_eq_some_iff,
    map_eq_some_iff, Prod.exists] at h
  obtain ⟨pdp, st₁, h1, pd, st₂, h2, pt, st₃, h3, rfl⟩ := h
  obtain ⟨new, took⟩ := vmmGetOrAlloc_took h3
  obtain ⟨D2, hS2, hpd, hl2⟩ := hS.getPd hs h1 h2 (took.nodup hnd)
  have hsmall2 := hsmall.of_noNewLarge hl2 _ (show pdEntry st₂.mem root (vpn addr) = some _ by
    rw [pdEntry, entry, hpd, map_some])
  obtain ⟨P3, hS3, hpt, hl3⟩ := hS2.getPt hs rfl hpd hsmall2 h3 hnd
  obtain ⟨hS4, hsame⟩ := hS3.storePt hpt (offsets (vpn addr)).ptOff (phys ||| permissions ||| vmmPresent)
  refine ⟨D2, P3, hS4, (hl2.trans hl3).trans fun path i e hlen he _ => ?_⟩
  exact (hsame path i hlen).symm.trans he

lemma vmmMapLoop_took : ∀ (size : ℕ) (addr phys : Word) (st st' : Vm),
    vmmMapLoop supply root permissions huge size addr phys st = some st' → ∃ new, Took new st st'
  | 0, _, _, st, st', h => by
    cases h
    exact ⟨[], Took.refl st⟩
  | size + 1, addr, phys, st, st', h => by
    rw [vmmMapLoop, bind_eq_some_iff] at h
    obtain ⟨st₁, h1, h2⟩ := h
    obtain ⟨new1, took1⟩ := vmmMapPage_took h1
    obtain ⟨new2, took2⟩ := vmmMapLoop_took size _ _ st₁ st' h2
    exact ⟨_, took1.trans took2⟩

/-- What holds between calls, and between the pages of one call: if no page was handed out twice, the tables have
their shape. -/
def Shaped (root : Word) (st : Vm) : Prop := (st.tables root).Nodup → ∃ D P, Shape root D P st

lemma Shaped.held (hI : Shaped root st) (l : List Word) : Shaped root { st with held := l } := by
  intro hnd
  obtain ⟨D, P, hS⟩ := hI hnd
  exact ⟨D, P, hS.held l⟩

lemma Shaped.mapPage (hs : Supplied supply) (hI : Shaped root st)
    (hsmall : huge = false → (st.tables root).Nodup → NotLarge st.mem root (vpn addr))
    (h : vmmMapPage supply root addr phys permissions huge st = some st') :
    Shaped root st' ∧ (huge = false → (st'.tables root).Nodup → NoNewLarge root st.mem st'.mem) := by
  obtain ⟨new, took⟩ := vmmMapPage_took h
  cases huge with
  | true =>
    refine ⟨fun hnd => ?_, nofun⟩
    obtain ⟨D, P, hS⟩ := hI (took.nodup hnd)
    obtain ⟨D', hS'⟩ := hS.mapPageHuge hs h hnd
    exact ⟨D', P, hS'⟩
  | false =>
    have hpage : (st'.tables root).Nodup → ∃ D P, Shape root D P st' ∧ NoNewLarge root st.mem st'.mem := by
      intro hnd
      obtain ⟨D, P, hS⟩ := hI (took.nodup hnd)
      exact hS.mapPage hs (hsmall rfl (took.nodup hnd)) h hnd
    refine ⟨fun hnd => ?_, fun _ hnd => ?_⟩
    · obtain ⟨D, P, hS, -⟩ := hpage hnd
      exact ⟨D, P, hS⟩
    · obtain ⟨D, P, -, hl⟩ := hpage hnd
      exact hl

lemma Shaped.mapLoop (hs : Supplied supply) : ∀ (size : ℕ) (addr phys : Word) (st st' : Vm),
    Shaped root st → (huge = false → (st.tables root).Nodup → ∀ i < size, NotLarge st.mem root (vpn (pageAt addr i))) →
    vmmMapLoop supply root permissions huge size addr phys st = some st' → Shaped root st'
  | 0, _, _, _, _, hI, _, h => by
    cases h
    exact hI
  | size + 1, addr, phys, st, st', hI, hsmall, h => by
    rw [vmmMapLoop, bind_eq_some_iff] at h
    obtain ⟨st₁, h1, h2⟩ := h
    obtain ⟨new, took⟩ := vmmMapPage_took h1
    obtain ⟨hI1, hl⟩ := hI.mapPage hs (fun hh hnd => by simpa using hsmall hh hnd 0 (by omega)) h1
    refine Shaped.mapLoop hs size _ _ st₁ st' hI1 (fun hh hnd i hi => ?_) h2
    subst hh
    rw [if_neg Bool.false_ne_true, pageAt_succ]
    exact (hsmall rfl (took.nodup hnd) (i + 1) (by omega)).of_noNewLarge (hl rfl hnd)

lemma Shaped.mapIfNotMappedLoop (hs : Supplied supply) : ∀ (size : ℕ) (addr phys : Word) (st st' : Vm),
    Shaped root st → vmmMapIfNotMappedLoop supply root permissions size addr phys st = some st' → Shaped root st'
  | 0, _, _, _, _, hI, h => by
    cases h
    exact hI.held _
  | size + 1, addr, phys, st, st', hI, h => by
    simp only [vmmMapIfNotMappedLoop, getAddrOffsets_eq, bind_eq_some_iff, Prod.exists] at h
    obtain ⟨pdp, st₁, h1, pd, st₂, h2, h⟩ := h
    obtain ⟨new1, took1⟩ := vmmGetOrAlloc_took h1
    obtain ⟨new2, took2⟩ := vmmGetOrAlloc_took h2
    have hI2 : (st₂.tables root).Nodup → ∃ D P, Shape root D P st₂ ∧
        walk nextTable st₂.mem root (offsets (vpn addr)).dirPath = some pd := by
      intro hnd
      obtain ⟨D, P, hS⟩ := hI ((took1.trans took2).nodup hnd)
      obtain ⟨D2, hS2, hpd, -⟩ := hS.getPd hs h1 h2 hnd
      exact ⟨D2, P, hS2, hpd⟩
    split at h
    · cases h
      intro hnd
      obtain ⟨D, P, hS, -⟩ := hI2 hnd
      exact ⟨D, P, hS.held _⟩
    · rename_i hsmall
      rw [bind_eq_some_iff, Prod.exists] at h
      obtain ⟨pt, st₃, h3, h⟩ := h
      obtain ⟨new3, took3⟩ := vmmGetOrAlloc_took h3
      have hI3 : (st₃.tables root).Nodup → ∃ D P, Shape root D P st₃ ∧ pt ∈ P := by
        intro hnd
        obtain ⟨D, P, hS, hpd⟩ := hI2 (took3.nodup hnd)
        obtain ⟨P3, hS3, hpt, -⟩ := hS.getPt hs rfl hpd (not_not.mp hsmall) h3 hnd
        exact ⟨D, P3, hS3, hpt⟩
      split at h
      · cases h
        intro hnd
        obtain ⟨D, P, hS, -⟩ := hI3 hnd
        exact ⟨D, P, hS⟩
      · refine Shaped.mapIfNotMappedLoop hs size _ _ _ st' (fun hnd => ?_) h
        obtain ⟨D, P, hS, hpt⟩ := hI3 hnd
        exact ⟨D, P, (hS.storePt hpt _ _).1⟩

/-! ### Unmapping -/

/-- If there is the page directory for `v`, its entry is present. -/
def HasEntry (mem : Word → Fin 512 → Word) (root : Word) (v : ℕ) : Prop :=
  ∀ e, pdEntry mem root v = some e → e &&& vmmPresent ≠ 0

lemma Shape.unmapPage (hS : Shape root D P st) (hentry : HasEntry st.mem root (vpn addr)) {size' : ℕ}
    {addr' : Word} (h : vmmUnmapPage root addr size st = (r, size', addr', st')) :
    Shape root D P st' ∧ (r = true → ∃ n, 1 ≤ n ∧ size' + n = size + 1 ∧ addr' = pageAt addr n ∧
      ∀ v < 2 ^ 36, (n = 512 → v / 512 ≠ vpn addr / 512) → pdEntry st'.mem root v = pdEntry st.mem root v) := by
  simp only [vmmUnmapPage, getAddrOffsets_eq] at h
  split at h
  · cases h
    exact ⟨hS, by simp⟩
  rename_i pdp hpdp
  split at h
  · cases h
    exact ⟨hS, by simp⟩
  rename_i pd hpd
  have hwalk : walk nextTable st.mem root (offsets (vpn addr)).dirPath = some pd := by
    simp only [PtOffset.dirPath, walk_cons, walk_nil]
    rw [show nextTable (st.mem root (offsets (vpn addr)).pml4Off) = some pdp from hpdp, bind_some,
      show nextTable (st.mem pdp (offsets (vpn addr)).pdpOff) = some pd from hpd, bind_some]
  have hpe : pdEntry st.mem root (vpn addr) = some (st.mem pd (offsets (vpn addr)).pdOff) := by
    rw [pdEntry, entry, hwalk, map_some]
  split at h
  · split at h
    · cases h
      exact ⟨hS, by simp⟩
    · rename_i hsize
      obtain ⟨hS', hsame⟩ := hS.storePd rfl hwalk (offsets (vpn addr)).pdOff (e := 0) fun _ => nextTable_zero
      simp only [Prod.mk.injEq] at h
      obtain ⟨-, rfl, rfl, rfl⟩ := h
      refine ⟨hS', fun _ => ⟨512, by omega, by omega, by simp [pageAt], fun v hv hne => ?_⟩⟩
      rw [pdEntry, hsame _ _ rfl, if_neg fun h => hne rfl ((dir_eq_iff (vpn_lt addr) hv).mp h)]
      rfl
  · rename_i hsmall
    have hsome : vmmGetOrNull st.mem pd (offsets (vpn addr)).pdOff =
        some (st.mem pd (offsets (vpn addr)).pdOff &&& vmmAddrMask) := if_neg (hentry _ hpe)
    have hpt : st.mem pd (offsets (vpn addr)).pdOff &&& vmmAddrMask ∈ P :=
      hS.pts _ _ _ _ rfl hpe (not_not.mp hsmall) hsome
    obtain ⟨hS', hsame⟩ := hS.storePt hpt (offsets (vpn addr)).ptOff 0
    simp only [hsome, getD_some, Prod.mk.injEq] at h
    obtain ⟨-, rfl, rfl, rfl⟩ := h
    exact ⟨hS', fun _ => ⟨1, le_rfl, rfl, by simp [pageAt], fun v _ _ => hsame _ _ rfl⟩⟩

lemma Shape.unmapLoop : ∀ (fuel size : ℕ) (addr : Word) (st : Vm), Shape root D P st →
    vpn addr + size ≤ 2 ^ 36 → (∀ i < size, HasEntry st.mem root (vpn (pageAt addr i))) →
    Shape root D P (vmmUnmapLoop root fuel size addr st).2
  | _, 0, _, st, hS, _, _ => by
    rw [vmmUnmapLoop]
    exact hS
  | 0, _ + 1, _, _, hS, _, _ => hS
  | fuel + 1, size + 1, addr, st, hS, hend, hentry => by
    have h0 : HasEntry st.mem root (vpn addr) := by simpa using hentry 0 (by omega)
    rw [vmmUnmapLoop]
    rcases hr : vmmUnmapPage root addr size st with ⟨done, size1, addr1, st₁⟩
    cases done with
    | false => exact (hS.unmapPage h0 hr).1
    | true =>
      obtain ⟨hS1, hnext⟩ := hS.unmapPage h0 hr
      obtain ⟨n, hn, hsize, rfl, hsame⟩ := hnext rfl
      refine Shape.unmapLoop fuel size1 _ st₁ hS1 ?_ fun i hi => ?_
      · rw [vpn_pageAt]
        omega
      · -- the pages left are not those of the large page taken out
        have hv : vpn (pageAt addr (n + i)) = vpn addr + n + i := by
          rw [vpn_pageAt]
          omega
        intro e he
        rw [pageAt_pageAt, hsame _ (vpn_lt _) (by rw [hv]; omega)] at he
        exact hentry (n + i) (by omega) e he

/-! ### Runs of calls -/

inductive TableOp where
  | map (addr phys : Word) (size : ℕ) (permissions : Word)
  | mapHuge (addr phys : Word) (size : ℕ) (permissions : Word)
  | mapIfNotMapped (addr phys : Word) (size : ℕ) (permissions : Word)
  | unmap (addr : Word) (size : ℕ)

def TableOp.step (supply : ℕ → Word) (root : Word) (st : Vm) : TableOp → Option Vm
  | .map addr phys size permissions => (vmmMap supply root addr phys size permissions st).map Prod.snd
  | .mapHuge addr phys size permissions => (vmmMapHuge supply root addr phys size permissions st).map Prod.snd
  | .mapIfNotMapped addr phys size permissions => vmmMapIfNotMapped supply root addr phys size permissions st
  | .unmap addr size => (vmmUnmap root addr size st).map Prod.snd

def TableOp.MapsTo (t : Word) : TableOp → Prop
  | .map _ phys size permissions => ∃ i < size, t = (pageAt phys i ||| permissions) &&& vmmAddrMask
  | .mapHuge _ phys size permissions => ∃ i < size, ∃ j < 512,
      t = pageAt ((pageAt phys (512 * i) ||| permissions) &&& vmmAddrMask) j
  | .mapIfNotMapped _ phys size permissions => ∃ i < size, t = (pageAt phys i ||| permissions) &&& vmmAddrMask
  | .unmap _ _ => False

/-- The calls that meet the entries they can handle: `vmm_map` no large page, and
`vmm_unmap` no missing page table. -/
def TableOp.Ok (root : Word) (st : Vm) : TableOp → Prop
  | .map addr _ size _ => ∀ i < size, NotLarge st.mem root (vpn (pageAt addr i))
  | .mapHuge _ _ _ _ => True
  | .mapIfNotMapped _ _ _ _ => True
  | .unmap addr size => vpn addr + size ≤ 2 ^ 36 ∧ ∀ i < size, HasEntry st.mem root (vpn (pageAt addr i))

lemma lock_eq_some {st₁ : Vm} (h : st.lock root = some st₁) : st₁ = { st with held := root :: st.held } := by
  unfold Vm.lock at h
  split at h
  · simp at h
  · exact (some.inj h).symm

lemma vmmMapAdvanced_cases
    (h : vmmMapAdvanced supply root addr phys size permissions huge st = some (r, st')) :
    ∃ st₁, vmmMapLoop supply root permissions huge size addr phys { st with held := root :: st.held } = some st₁ ∧
      st' = st₁.unlock root := by
  rw [vmmMapAdvanced, bind_eq_some_iff] at h
  obtain ⟨stL, hL, h⟩ := h
  rw [lock_eq_some hL, map_eq_some_iff] at h
  obtain ⟨st₁, h1, h⟩ := h
  exact ⟨st₁, h1, (congrArg Prod.snd h).symm⟩

lemma Shaped.mapAdvanced {huge r : Bool} (hs : Supplied supply) (hI : Shaped root st)
    (hsmall : huge = false → ∀ i < size, NotLarge st.mem root (vpn (pageAt addr i)))
    (h : vmmMapAdvanced supply root addr phys size permissions huge st = some (r, st')) : Shaped root st' := by
  obtain ⟨st₁, h1, rfl⟩ := vmmMapAdvanced_cases h
  exact (Shaped.mapLoop hs size addr phys _ st₁ (hI.held (root :: st.held)) (fun hh _ => hsmall hh) h1).held _

lemma Shaped.step (hs : Supplied supply) (hI : Shaped root st) {op : TableOp} (hok : op.Ok root st)
    (h : op.step supply root st = some st') : Shaped root st' := by
  cases op with
  | map addr phys size permissions =>
    obtain ⟨⟨r, _⟩, hcall, rfl⟩ := map_eq_some_iff.mp h
    exact hI.mapAdvanced hs (fun _ => hok) hcall
  | mapHuge addr phys size permissions =>
    obtain ⟨⟨r, _⟩, hcall, rfl⟩ := map_eq_some_iff.mp h
    refine hI.mapAdvanced hs (fun hh => ?_) hcall
    cases hh
  | mapIfNotMapped addr phys size permissions =>
    obtain ⟨stL, hL, h⟩ := bind_eq_some_iff.mp h
    rw [lock_eq_some hL] at h
    exact Shaped.mapIfNotMappedLoop hs size addr phys _ st' (hI.held _) h
  | unmap addr size =>
    obtain ⟨_, hcall, rfl⟩ := map_eq_some_iff.mp h
    obtain ⟨stL, hL, rfl⟩ := map_eq_some_iff.mp hcall
    intro hnd
    rw [lock_eq_some hL] at hnd ⊢
    have took := vmmUnmapLoop_took root size size addr { st with held := root :: st.held }
    obtain ⟨D, P, hS⟩ := hI (took.nodup hnd)
    exact ⟨D, P, (Shape.unmapLoop size size addr _ (hS.held (root :: st.held)) hok.1 hok.2).held _⟩

open TableOp

/-- **Entries are stored into tables only, and not into a page that a call maps**, in every run from an empty root, if
no call of `vmm_map` meets a large page, none of `vmm_unmap` a missing page table, and none maps a table. -/
theorem stores_only_into_tables (supply : ℕ → Word) (hs : Supplied supply) (root : Word) (st₀ : Vm)
    (hempty : ∀ i, st₀.mem root i = 0) (hnone : st₀.allocs = []) (hstores : st₀.stores = [])
    (ops : List TableOp) (hok : Along (step supply root) (Ok root) st₀ ops) (st : Vm)
    (hrun : run (step supply root) st₀ ops = some st) (hnd : (st.tables root).Nodup)
    (hmaps : ∀ op ∈ ops, ∀ t, op.MapsTo t → t ∉ st.tables root) :
    ∀ p ∈ st.stores, p ∈ st.tables root ∧ ∀ op ∈ ops, ¬ op.MapsTo p := by
  have hI : Shaped root st := run_invariant_along _ (fun s op s' hI hC h => hI.step hs hC h) ops st₀ st
    (fun _ => ⟨[root], [], Shape.empty hempty hnone hstores⟩) hok hrun
  obtain ⟨D, P, hS⟩ := hI hnd
  intro p hp
  exact ⟨hS.stores p hp, fun op hop hto => hmaps op hop p hto (hS.stores p hp)⟩

def directMap : TableOp := .mapHuge 0xFFFF800000000000 0 2 3

def mapBar : TableOp := .map 0xFFFF800000200000 0x200000 1 3

/-- The direct map is made of large pages, and a driver maps a page inside it. The
entry is stored into the device's page: no table, and mapped by both calls. -/
theorem store_into_large_page :
    ∃ st, run (step eightPages 0x1000) emptyVm [directMap, mapBar] = some st ∧
      (st.tables 0x1000).Nodup ∧ 0x200000 ∈ st.stores ∧ 0x200000 ∉ st.tables 0x1000 ∧
      directMap.MapsTo 0x200000 ∧ mapBar.MapsTo 0x200000 := by
  have hrun : (run (step eightPages 0x1000) emptyVm [directMap, mapBar]).map (fun st =>
      (st.tables 0x1000, st.stores)) = some ([0x3000, 0x2000, 0x1000],
        [0x200000, 0x3000, 0x3000, 0x2000, 0x2000, 0x1000, 0x1000]) := by decide +kernel
  obtain ⟨st, hst, h⟩ := map_eq_some_iff.mp hrun
  simp only [Prod.mk.injEq] at h
  refine ⟨st, hst, ?_, ?_, ?_, ⟨1, by decide, 0, by decide, by decide⟩, ⟨0, by decide, by decide⟩⟩
  · rw [h.1]
    decide
  · rw [h.2]
    decide
  · rw [h.1]
    decide

/-- Both kinds of pages, apart from each other and from the tables, and one taken out again. -/
def bothKinds : List TableOp := [.mapHuge 0xFFFF800000000000 0x400000 2 3, .map 0x400000 0xA000 1 3, .unmap 0x400000 1]

theorem stores_only_into_tables_two : ∃ st, run (step eightPages 0x1000) emptyVm bothKinds = some st ∧
    ∀ p ∈ st.stores, p ∈ st.tables 0x1000 ∧ ∀ op ∈ bothKinds, ¬ op.MapsTo p := by
  have hrun : (run (step eightPages 0x1000) emptyVm bothKinds).map (fun st => st.tables 0x1000) =
      some [0x6000, 0x5000, 0x4000, 0x3000, 0x2000, 0x1000] := by decide +kernel
  obtain ⟨st, hst, h⟩ := map_eq_some_iff.mp hrun
  have hpd : ((run (step eightPages 0x1000) emptyVm (bothKinds.take 1)).map
      fun st => pdEntry st.mem 0x1000 (vpn 0x400000)) = some none := by decide +kernel
  have hpd' : ((run (step eightPages 0x1000) emptyVm (bothKinds.take 2)).map
      fun st => pdEntry st.mem 0x1000 (vpn 0x400000)) = some (some 0x6007) := by decide +kernel
  have hok : Along (step eightPages 0x1000) (Ok 0x1000) emptyVm bothKinds := by
    refine ⟨trivial, fun st₁ h1 => ⟨fun i hi e he => ?_, fun st₂ h2 =>
      ⟨⟨by decide, fun i hi e he => ?_⟩, fun _ _ => trivial⟩⟩⟩
    · rw [bothKinds, take_succ_cons, run_cons, h1, bind_some, take_zero, run_nil, map_some, some.injEq] at hpd
      rw [show i = 0 by omega, pageAt_zero, hpd] at he
      simp at he
    · rw [bothKinds, take_succ_cons, run_cons, h1, bind_some, take_succ_cons, run_cons, h2, bind_some, take_zero,
        run_nil, map_some, some.injEq] at hpd'
      rw [show i = 0 by omega, pageAt_zero, hpd', some.injEq] at he
      rw [← he]
      decide
  refine ⟨st, hst, stores_only_into_tables eightPages eightPages_supplied 0x1000 emptyVm (fun _ => rfl) rfl rfl
    _ hok st hst ?_ ?_⟩
  · rw [h]
    decide
  · rw [h, bothKinds]
    simp only [forall_mem_cons, TableOp.MapsTo]
    refine ⟨?_, ?_, fun _ h => h.elim, fun _ h => absurd h not_mem_nil⟩
    · have hhigh : ∀ i < 2, ∀ j < 512, pageAt ((pageAt 0x400000 (512 * i) ||| 3) &&& vmmAddrMask) j ∉
          [0x6000, 0x5000, 0x4000, 0x3000, 0x2000, 0x1000] := by decide +kernel
      rintro t ⟨i, hi, j, hj, rfl⟩
      exact hhigh i hi j hj
    · rintro t ⟨i, hi, rfl⟩
      rw [show i = 0 by omega]
      decide

end WivOS.Vmm
