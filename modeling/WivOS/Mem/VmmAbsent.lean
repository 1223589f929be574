/-
# Mapping what is not mapped

`vmm_map_if_not_mapped` of `kernel/mem/vmm.c`, over pages of both sizes. Its loop maps the pages of the range up to the
first that has a translation (`Upto`). There it returns: with the lock released at a large page, and with the lock held
at a small one. So it does what its name says exactly if the first mapped page is part of a large one, and everything
after it is mapped as well (`maps_the_unmapped`).
-/
import WivOS.Mem.VmmMixed

namespace WivOS.Vmm

open List Option Radix

variable {supply : ℕ → Word} {root permissions addr phys : Word} {st st' : Vm} {size : ℕ}

/-! ### One page -/

lemma Mixed.directory (hs : Supplied supply) (root : Word) (v : ℕ) (st : Vm) : ∃ pdp st1 pd st2 new,
      vmmGetOrAlloc supply st root (offsets v).pml4Off (vmmWrite ||| vmmUser) = some (pdp, st1) ∧
      vmmGetOrAlloc supply st1 pdp (offsets v).pdpOff (vmmWrite ||| vmmUser) = some (pd, st2) ∧ Took new st st2 ∧
      ∀ T, (new ++ T).Nodup → Mixed st.mem root T → Kept root T new st.mem st2.mem ∧
        walk tableBelow st2.mem root (offsets v).dirPath = some pd := by
  obtain ⟨⟨pdp, st1⟩, h1⟩ := vmmGetOrAlloc_returns hs st root (offsets v).pml4Off (vmmWrite ||| vmmUser)
  obtain ⟨⟨pd, st2⟩, h2⟩ := vmmGetOrAlloc_returns hs st1 pdp (offsets v).pdpOff (vmmWrite ||| vmmUser)
  obtain ⟨new1, took1, spec1⟩ := Mixed.getOrAlloc hs h1
  obtain ⟨new2, took2, spec2⟩ := Mixed.getOrAlloc hs h2
  refine ⟨pdp, st1, pd, st2, new2 ++ new1, h1, h2, took1.trans took2, fun T hnd hT => ?_⟩
  rw [append_assoc] at hnd
  obtain ⟨k1, w1⟩ := spec1 root T [] hnd.of_append_right hT (by decide) rfl (hT.upper [] _ _ (by decide) rfl)
  have hpdp : entry tableBelow st1.mem root [(offsets v).pml4Off] (offsets v).pdpOff =
      some (st1.mem pdp (offsets v).pdpOff) := by
    rw [entry, show [(offsets v).pml4Off] = [] ++ [(offsets v).pml4Off] from rfl, w1, map_some]
  obtain ⟨k2, w2⟩ := spec2 root _ _ hnd k1.mixed (by simp) w1 (k1.mixed.upper [_] _ _ (Nat.lt_succ_self 1) hpdp)
  exact ⟨k1.trans k2, w2⟩

/-- **One round**: the page has a translation by a large page, and the call returns; or by
a small one, and the call returns with the lock; or it has none, and is mapped. -/
lemma Mixed.absentRound (hs : Supplied supply) (root permissions : Word) (size : ℕ) (addr phys : Word) (st : Vm) :
    ∃ new st1, Took new st st1 ∧
      ((vmmMapIfNotMappedLoop supply root permissions (size + 1) addr phys st = some (st1.unlock root) ∧
        ∀ T, (new ++ T).Nodup → Mixed st.mem root T → Kept root T new st.mem st1.mem ∧
          ∃ e, lookup st.mem root (vpn addr) = some ⟨e, true⟩) ∨
      (vmmMapIfNotMappedLoop supply root permissions (size + 1) addr phys st = some st1 ∧
        ∀ T, (new ++ T).Nodup → Mixed st.mem root T → Kept root T new st.mem st1.mem ∧
          ∃ e, lookup st.mem root (vpn addr) = some ⟨e, false⟩) ∨
      (vmmMapIfNotMappedLoop supply root permissions (size + 1) addr phys st =
          vmmMapIfNotMappedLoop supply root permissions size (addr + 0x1000) (phys + 0x1000) st1 ∧
        ∀ T, (new ++ T).Nodup → Mixed st.mem root T → Mixed st1.mem root (new ++ T) ∧
          lookup st.mem root (vpn addr) = none ∧ ∀ v < 2 ^ 36, lookup st1.mem root v =
            if v = vpn addr then some ⟨phys ||| permissions ||| vmmPresent, false⟩ else lookup st.mem root v)) := by
  obtain ⟨pdp, st1, pd, st2, new, h1, h2, took, spec⟩ := Mixed.directory hs root (vpn addr) st
  simp only [vmmMapIfNotMappedLoop, getAddrOffsets_eq, h1, h2, bind_some]
  by_cases hlarge : st2.mem pd (offsets (vpn addr)).pdOff &&& vmmLarge ≠ 0
  · refine ⟨new, st2, took, .inl ⟨if_pos hlarge, fun T hnd hT => ?_⟩⟩
    obtain ⟨k, w⟩ := spec T hnd hT
    exact ⟨k, _, (k.same _).symm.trans (k.mixed.lookup_large (dirEntry_eq w) hlarge)⟩
  · obtain ⟨⟨pt, st3⟩, h3⟩ := vmmGetOrAlloc_returns hs st2 pd (offsets (vpn addr)).pdOff (vmmWrite ||| vmmUser)
    obtain ⟨new3, took3, spec3⟩ := Mixed.getOrAlloc hs h3
    have hspec : ∀ T, ((new3 ++ new) ++ T).Nodup → Mixed st.mem root T → Kept root T (new3 ++ new) st.mem st3.mem ∧
        walk tableBelow st3.mem root (offsets (vpn addr)).path = some pt ∧
        lookup st.mem root (vpn addr) = smallPage (st3.mem pt (offsets (vpn addr)).ptOff) := by
      intro T hnd hT
      rw [append_assoc] at hnd
      obtain ⟨k, w⟩ := spec T hnd.of_append_right hT
      obtain ⟨k3, w3⟩ := spec3 root _ (offsets (vpn addr)).dirPath hnd k.mixed
        (Nat.lt_succ_self 2) w (not_not.mp hlarge)
      have hpt : walk tableBelow st3.mem root (offsets (vpn addr)).path = some pt := w3
      refine ⟨k.trans k3, hpt, ?_⟩
      rw [walk_path] at hpt
      obtain ⟨d, hd, hdpt⟩ := bind_eq_some_iff.mp hpt
      rw [← (k.trans k3).same, k3.mixed.lookup_small hd (small_of_tableBelow hdpt), hdpt, bind_some]
    refine ⟨new3 ++ new, ?_⟩
    simp only [if_neg hlarge, h3, bind_some]
    by_cases hpresent : st3.mem pt (offsets (vpn addr)).ptOff &&& vmmPresent ≠ 0
    · refine ⟨st3, took.trans took3, .inr (.inl ⟨if_pos hpresent, fun T hnd hT => ?_⟩)⟩
      obtain ⟨k, -, hlookup⟩ := hspec T hnd hT
      exact ⟨k, _, hlookup.trans (if_neg hpresent)⟩
    · refine ⟨_, (took.trans took3).store _ _ _, .inr (.inr ⟨if_neg hpresent, fun T hnd hT => ?_⟩)⟩
      obtain ⟨k, hpt, hlookup⟩ := hspec T hnd hT
      obtain ⟨hM, -, hnew⟩ := k.mixed.storeLeaf (vpn_lt addr) hpt (phys ||| permissions ||| vmmPresent)
      have hpage : smallPage (phys ||| permissions ||| vmmPresent) =
          some ⟨phys ||| permissions ||| vmmPresent, false⟩ := by
        refine if_neg ?_
        rw [BitVec.or_assoc]
        exact and_present_ne_zero phys permissions
      refine ⟨hM, hlookup.trans (if_pos (not_not.mp hpresent)), fun v hv => ?_⟩
      exact (hnew v hv).trans (by rw [hpage, k.same])

/-! ### The loop -/

/-- Pages from `addr` are mapped to those from `phys`, `k` of them, up to the first that had
a translation or the end of the range. The lock is held on if that is a small page. -/
structure Upto (root addr phys : Word) (size : ℕ) (permissions : Word) (st st' : Vm) (k : ℕ) : Prop where
  le : k ≤ size
  absent : ∀ i < k, lookup st.mem root (vpn (pageAt addr i)) = none
  stop : k < size → lookup st.mem root (vpn (pageAt addr k)) ≠ none
  mapped : ∀ i < k, lookup st'.mem root (vpn (pageAt addr i)) =
    some ⟨pageAt phys i ||| permissions ||| vmmPresent, false⟩
  frame : ∀ v < 2 ^ 36, (∀ i < k, v ≠ vpn (pageAt addr i)) → lookup st'.mem root v = lookup st.mem root v
  released : (k < size → ∃ e, lookup st.mem root (vpn (pageAt addr k)) = some ⟨e, true⟩) → st'.held = st.held.erase root
  kept : k < size → ∀ e, lookup st.mem root (vpn (pageAt addr k)) = some ⟨e, false⟩ → st'.held = st.held

lemma Upto.first {m : Mapping} (hsame : ∀ v, lookup st'.mem root v = lookup st.mem root v)
    (hm : lookup st.mem root (vpn addr) = some m) (hheld : st'.held = if m.large then st.held.erase root else st.held) :
    Upto root addr phys (size + 1) permissions st st' 0 where
  le := Nat.zero_le _
  absent i hi := absurd hi (Nat.not_lt_zero i)
  stop _ := by simp [hm]
  mapped i hi := absurd hi (Nat.not_lt_zero i)
  frame v _ _ := hsame v
  released hlarge := by
    obtain ⟨e, he⟩ := hlarge (Nat.succ_pos size)
    rw [pageAt_zero, hm, some.injEq] at he
    rw [hheld, he, if_pos rfl]
  kept _ e he := by
    rw [pageAt_zero, hm, some.injEq] at he
    rw [hheld, he, if_neg Bool.false_ne_true]

lemma Upto.next {st1 : Vm} {k : ℕ} (hsize : size + 1 ≤ 2 ^ 36) (hnone : lookup st.mem root (vpn addr) = none)
    (hlookup : ∀ v < 2 ^ 36, lookup st1.mem root v =
      if v = vpn addr then some ⟨phys ||| permissions ||| vmmPresent, false⟩ else lookup st.mem root v)
    (hheld : st1.held = st.held) (h : Upto root (addr + 0x1000) (phys + 0x1000) size permissions st1 st' k) :
    Upto root addr phys (size + 1) permissions st st' (k + 1) := by
  -- the pages after the first are others, so what they were mapped to has not changed
  have hnext : ∀ i < size, lookup st1.mem root (vpn (pageAt (addr + 0x1000) i)) =
      lookup st.mem root (vpn (pageAt addr (i + 1))) := by
    intro i hi
    rw [hlookup _ (vpn_lt _), pageAt_succ, if_neg (vpn_pageAt_succ_ne addr (by omega))]
  have hk := h.le
  refine ⟨by omega, ?_, ?_, ?_, ?_, ?_, ?_⟩
  · rintro (_ | i) hi
    · rw [pageAt_zero, hnone]
    · rw [← hnext i (by omega)]
      exact h.absent i (by omega)
  · intro hlt
    rw [← hnext k (by omega)]
    exact h.stop (by omega)
  · rintro (_ | i) hi
    · rw [pageAt_zero, pageAt_zero, h.frame _ (vpn_lt addr), hlookup _ (vpn_lt addr), if_pos rfl]
      intro i hi
      rw [pageAt_succ]
      exact (vpn_pageAt_succ_ne addr (by omega)).symm
    · rw [← pageAt_succ, ← pageAt_succ]
      exact h.mapped i (by omega)
  · intro v hv hout
    rw [h.frame v hv, hlookup v hv, if_neg]
    · simpa using hout 0 (by omega)
    · intro i hi
      rw [pageAt_succ]
      exact hout (i + 1) (by omega)
  · intro hlarge
    rw [h.released fun hlt => hnext k hlt ▸ hlarge (by omega), hheld]
  · intro hlt e he
    rw [← hnext k (by omega)] at he
    rw [h.kept (by omega) e he, hheld]

lemma Mixed.absentLoop (hs : Supplied supply) (root permissions : Word) : ∀ (size : ℕ) (addr phys : Word) (st : Vm),
    size ≤ 2 ^ 36 → ∃ st' new, vmmMapIfNotMappedLoop supply root permissions size addr phys st = some st' ∧
      st'.allocs = new.map page ++ st.allocs ∧ ∀ T, (new ++ T).Nodup → Mixed st.mem root T →
        Mixed st'.mem root (new ++ T) ∧ ∃ k, Upto root addr phys size permissions st st' k
  | 0, addr, phys, st, _ => ⟨st.unlock root, [], rfl, rfl, fun T _ hT =>
      ⟨hT, 0, le_rfl, by omega, by omega, by omega, fun _ _ _ => rfl, fun _ => rfl, by omega⟩⟩
  | size + 1, addr, phys, st, hsize => by
    obtain ⟨new, st1, took, ⟨h, spec⟩ | ⟨h, spec⟩ | ⟨h, spec⟩⟩ :=
      Mixed.absentRound hs root permissions size addr phys st
    · refine ⟨_, new, h, took.allocs, fun T hnd hT => ?_⟩
      obtain ⟨k, e, he⟩ := spec T hnd hT
      exact ⟨k.mixed, 0, .first k.same he (by rw [Vm.unlock_held, took.held]; rfl)⟩
    · refine ⟨_, new, h, took.allocs, fun T hnd hT => ?_⟩
      obtain ⟨k, e, he⟩ := spec T hnd hT
      exact ⟨k.mixed, 0, .first k.same he took.held⟩
    · obtain ⟨st', new', h', hallocs, spec'⟩ :=
        Mixed.absentLoop hs root permissions size (addr + 0x1000) (phys + 0x1000) st1 (by omega)
      refine ⟨st', new' ++ new, h.trans h', ?_, fun T hnd hT => ?_⟩
      · rw [hallocs, took.allocs, map_append, append_assoc]
      · rw [append_assoc] at hnd ⊢
        obtain ⟨hM, hnone, hlookup⟩ := spec T hnd.of_append_right hT
        obtain ⟨hM', k, hU⟩ := spec' _ hnd hM
        exact ⟨hM', k + 1, hU.next hsize hnone hlookup took.held⟩

/-! ### The call -/

/-- What the call is for: the lock is free, each page of the range that had no translation
has that of the physical range with the permissions, and every page that had one keeps it. -/
structure MapsUnmapped (root addr phys : Word) (size : ℕ) (permissions : Word) (st st' : Vm) : Prop where
  free : root ∉ st'.held
  mapped : ∀ i < size, lookup st.mem root (vpn (pageAt addr i)) = none →
    ∃ m, lookup st'.mem root (vpn (pageAt addr i)) = some m ∧ m.large = false ∧ m.base = pageAt phys i ∧
      m.entry &&& vmmFlagMask = permissions ||| vmmPresent
  keeps : ∀ v < 2 ^ 36, lookup st.mem root v ≠ none → lookup st'.mem root v = lookup st.mem root v

/-- The first page of the range that has a translation, if there is one, is part of a large
page, and each page of the range after it has a translation as well. -/
def StopsAtEnd (mem : Word → Fin 512 → Word) (root addr : Word) (size : ℕ) : Prop :=
  ∀ k < size, (∀ i < k, lookup mem root (vpn (pageAt addr i)) = none) →
    ∀ m, lookup mem root (vpn (pageAt addr k)) = some m →
      m.large = true ∧ ∀ i, k < i → i < size → lookup mem root (vpn (pageAt addr i)) ≠ none

lemma vpn_pageAt_inj {addr : Word} {i j : ℕ} (hi : i < 2 ^ 36) (hj : j < 2 ^ 36)
    (h : vpn (pageAt addr i) = vpn (pageAt addr j)) : i = j := by
  rw [vpn_pageAt, vpn_pageAt] at h
  omega

lemma madeEntry {p permissions : Word} (hp : p &&& vmmFlagMask = 0) (hperm : permissions &&& vmmAddrMask = 0) :
    (Mapping.mk (p ||| permissions ||| vmmPresent) false).base = p ∧
      (p ||| permissions ||| vmmPresent) &&& vmmFlagMask = permissions ||| vmmPresent := by
  have hperm' : (permissions ||| vmmPresent) &&& vmmAddrMask = 0 := by
    rw [BitVec.and_or_distrib_right, hperm]
    decide
  rw [Mapping.base, BitVec.or_assoc]
  exact ⟨entry_addr hp hperm', entry_flags hp hperm'⟩

lemma Upto.mapsUnmapped_iff {k : ℕ}
    (h : Upto root addr phys size permissions { st with held := root :: st.held } st' k)
    (hsize : size ≤ 2 ^ 36) (hphys : PhysRange phys size) (hperm : permissions &&& vmmAddrMask = 0)
    (hfree : root ∉ st.held) :
    MapsUnmapped root addr phys size permissions st st' ↔ StopsAtEnd st.mem root addr size := by
  have hk := h.le
  constructor
  · intro hM n hn hbefore m hm
    -- the first page with a translation is where the loop stopped
    have hnk : n = k := by
      rcases Nat.lt_trichotomy n k with hlt | heq | hgt
      · have := h.absent n hlt
        rw [hm] at this
        cases this
      · exact heq
      · exact absurd (hbefore k hgt) (h.stop (by omega))
    subst hnk
    refine ⟨?_, fun i hi hi' hnone => ?_⟩
    · rcases m with ⟨e, _ | _⟩
      · have hheld := h.kept hn e hm
        exact absurd (hheld ▸ mem_cons_self) hM.free
      · rfl
    · obtain ⟨m', hm', -⟩ := hM.mapped i hi' hnone
      rw [h.frame _ (vpn_lt _), hnone] at hm'
      · cases hm'
      · intro j hj heq
        have := vpn_pageAt_inj (by omega) (by omega) heq
        omega
  · intro hstop
    refine ⟨?_, fun i hi hnone => ?_, fun v hv hmapped => ?_⟩
    · rw [h.released, erase_cons_head]
      · exact hfree
      · intro hlt
        obtain ⟨m, hm⟩ := ne_none_iff_exists'.mp (h.stop hlt)
        obtain ⟨hlarge, -⟩ := hstop k hlt h.absent m hm
        exact ⟨m.entry, by rw [hm, ← hlarge]⟩
    · have hik : i < k := by
        by_contra hge
        obtain ⟨m, hm⟩ := ne_none_iff_exists'.mp (h.stop (by omega))
        rcases Nat.lt_or_eq_of_le (Nat.not_lt.mp hge) with hlt | heq
        · exact (hstop k (by omega) h.absent m hm).2 i hlt hi hnone
        · rw [heq, hnone] at hm
          cases hm
      obtain ⟨hbase, hflags⟩ := madeEntry (hphys.pageAt hi) hperm
      exact ⟨_, h.mapped i hik, rfl, hbase, hflags⟩
    · refine h.frame v hv fun i hi heq => hmapped ?_
      rw [heq]
      exact h.absent i hi

lemma Mixed.mapIfNotMapped (hs : Supplied supply) (root addr phys : Word) (permissions : Word) (hsize : size ≤ 2 ^ 36)
    (hfree : root ∉ st.held) : ∃ st' new, vmmMapIfNotMapped supply root addr phys size permissions st = some st' ∧
      st'.allocs = new.map page ++ st.allocs ∧ ∀ T, (new ++ T).Nodup → Mixed st.mem root T →
        Mixed st'.mem root (new ++ T) ∧
          ∃ k, Upto root addr phys size permissions { st with held := root :: st.held } st' k := by
  have hlock : st.lock root = some { st with held := root :: st.held } := if_neg hfree
  obtain ⟨st', new, h, hallocs, spec⟩ := Mixed.absentLoop hs root permissions size addr phys
    { st with held := root :: st.held } hsize
  exact ⟨st', new, by rw [vmmMapIfNotMapped, hlock, bind_some, h], hallocs, spec⟩

/-- **`vmm_map_if_not_mapped` maps what is not mapped**, keeps what is and releases the
lock, exactly if the first page of the range that is mapped is part of a large page and all
after it are mapped too. The call takes pages from the allocator; they are new ones. -/
theorem maps_the_unmapped (supply : ℕ → Word) (hs : Supplied supply) (root addr phys : Word) (size : ℕ)
    (permissions : Word) (hsize : size ≤ 2 ^ 36) (hphys : PhysRange phys size)
    (hperm : permissions &&& vmmAddrMask = 0) (st : Vm) (hfree : root ∉ st.held) (T : List Word)
    (hT : Mixed st.mem root T) : ∃ st' new, vmmMapIfNotMapped supply root addr phys size permissions st = some st' ∧
      st'.allocs = new.map page ++ st.allocs ∧ ((new ++ T).Nodup →
        (MapsUnmapped root addr phys size permissions st st' ↔ StopsAtEnd st.mem root addr size)) := by
  obtain ⟨st', new, h, hallocs, spec⟩ := Mixed.mapIfNotMapped hs root addr phys permissions hsize hfree
  refine ⟨st', new, h, hallocs, fun hnd => ?_⟩
  obtain ⟨-, k, hU⟩ := spec T hnd hT
  exact hU.mapsUnmapped_iff hsize hphys hperm hfree

/-- Two pages on both sides of a page table boundary, none of them mapped before. -/
theorem maps_the_unmapped_two : ∃ st', vmmMapIfNotMapped eightPages 0x1000 0x1FF000 0xA000 2 3 emptyVm = some st' ∧
    MapsUnmapped 0x1000 0x1FF000 0xA000 2 3 emptyVm st' := by
  obtain ⟨st', new, h, hallocs, hiff⟩ := maps_the_unmapped eightPages eightPages_supplied 0x1000 0x1FF000 0xA000 2 3
    (by decide) (by unfold PhysRange; decide) (by decide) emptyVm (by simp [emptyVm]) [0x1000]
    (Mixed.empty fun _ => rfl)
  have hrun : (vmmMapIfNotMapped eightPages 0x1000 0x1FF000 0xA000 2 3 emptyVm).map
      (fun st => st.allocs.map Frames.addr) =
      some [0x5000, 0x4000, 0x3000, 0x2000] := by decide +kernel
  have hnew : new = [0x5000, 0x4000, 0x3000, 0x2000] := by
    rw [h, map_some, hallocs] at hrun
    simpa [emptyVm, Function.comp_def] using hrun
  refine ⟨st', h, (hiff (by rw [hnew]; decide)).mpr fun k hk _ m hm => ?_⟩
  have hnone : ∀ k < 2, lookup emptyVm.mem 0x1000 (vpn (pageAt 0x1FF000 k)) = none := by decide
  rw [hnone k hk] at hm
  cases hm

/-- Page 1 is mapped, and the call is for pages 0, 1 and 2: it returns at page 1 with the
lock held, and page 2 is not mapped. -/
theorem absent_keeps_lock : ∃ st st', vmmMap eightPages 0x1000 0x1000 0xA000 1 3 emptyVm = some (true, st) ∧
    vmmMapIfNotMapped eightPages 0x1000 0 0x20000 3 3 st = some st' ∧ (0x1000 : Word) ∉ st.held ∧
    (0x1000 : Word) ∈ st'.held ∧ lookup st.mem 0x1000 2 = none ∧ lookup st'.mem 0x1000 2 = none := by
  have hrun : ((vmmMap eightPages 0x1000 0x1000 0xA000 1 3 emptyVm).bind fun r =>
      (vmmMapIfNotMapped eightPages 0x1000 0 0x20000 3 3 r.2).map fun st' =>
        (r.1, r.2.held, st'.held, lookup r.2.mem 0x1000 2, lookup st'.mem 0x1000 2)) =
      some (true, [], [0x1000], none, none) := by decide +kernel
  obtain ⟨⟨b, st⟩, hmap, h⟩ := bind_eq_some_iff.mp hrun
  obtain ⟨st', hst', h⟩ := map_eq_some_iff.mp h
  simp only [Prod.mk.injEq] at h
  obtain ⟨rfl, hheld, hheld', hnone, hnone'⟩ := h
  exact ⟨st, st', hmap, hst', by simp [hheld], by simp [hheld'], hnone, hnone'⟩

end WivOS.Vmm
