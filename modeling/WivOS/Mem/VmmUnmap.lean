/-
# Unmapping over pages of both sizes

`vmm_unmap` of `kernel/mem/vmm.c`, over pages of both sizes and holes. A round returns `false` if there is no entry in
the page directory; it clears a large page as a whole, if 512 pages are left; and otherwise it clears an entry of the
page table, where a missing one is the null pointer. The range is unmapped and nothing else if the first page is not
inside a large one (`Entered`) and the call comes to no hole (`Mixed.unmapLoop`, `unmaps_exactly`).
-/
import WivOS.Mem.VmmAbsent

namespace WivOS.Vmm

open Option Radix

variable {root addr : Word} {st : Vm} {T : List Word} {size : ℕ} {gone : ℕ → Prop} {v' : ℕ}

def Hole (mem : Word → Fin 512 → Word) (root : Word) (v : ℕ) : Prop :=
  ∃ e, dirEntry mem root v = some e ∧ e &&& vmmLarge = 0 ∧ nextTable e = none

instance (mem : Word → Fin 512 → Word) (root : Word) (v : ℕ) : Decidable (Hole mem root v) :=
  decidable_of_iff ((dirEntry mem root v).any fun e => e &&& vmmLarge = 0 ∧ nextTable e = none)
    (by simp [Hole, any_eq_true])

def InLarge (mem : Word → Fin 512 → Word) (root : Word) (v : ℕ) : Prop :=
  ∃ e, dirEntry mem root v = some e ∧ e &&& vmmLarge ≠ 0

/-! ### One round -/

def unmapAt (addr : Word) (size : ℕ) (st : Vm) (pd : Word) : Bool × ℕ × Word × Vm :=
  let offset := offsets (vpn addr)
  if st.mem pd offset.pdOff &&& vmmLarge ≠ 0 then
    if size < 0x1FF then (false, size, addr, st)
    else (true, size - 0x1FF, addr + 0x200000, st.store pd offset.pdOff 0)
  else (true, size, addr + 0x1000, st.store ((nextTable (st.mem pd offset.pdOff)).getD 0) offset.ptOff 0)

lemma vmmUnmapPage_eq (root addr : Word) (size : ℕ) (st : Vm) : vmmUnmapPage root addr size st =
    (pageDirectory st.mem root (vpn addr)).elim (false, size, addr, st) (unmapAt addr size st) := by
  simp only [vmmUnmapPage, getAddrOffsets_eq, vmmGetOrNull_eq, pageDirectory_eq]
  cases nextTable (st.mem root (offsets (vpn addr)).pml4Off) with
  | none => rfl
  | some pdp =>
    simp only [bind_some]
    cases nextTable (st.mem pdp (offsets (vpn addr)).pdpOff) with
    | none => rfl
    | some pd => rfl

/-- After a store to the page `p`, the pages of `gone` have no translation, and the others
have theirs. -/
structure Cleared (root : Word) (T : List Word) (p : Word) (gone : ℕ → Prop) (st st' : Vm) : Prop where
  mixed : Mixed st'.mem root T
  stores : st'.stores = p :: st.stores
  unmapped : ∀ v < 2 ^ 36, gone v → lookup st'.mem root v = none
  frame : ∀ v < 2 ^ 36, ¬ gone v → lookup st'.mem root v = lookup st.mem root v

variable {v : ℕ}

lemma Mixed.clearSmall {e : Word} (hT : Mixed st.mem root T) (h0 : (0 : Word) ∉ T) (hv : v < 2 ^ 36)
    (hdir : dirEntry st.mem root v = some e) (hsmall : e &&& vmmLarge = 0) :
    ((nextTable e).getD 0 ∈ T ↔ ¬ Hole st.mem root v) ∧ Cleared root T ((nextTable e).getD 0) (fun v' => v' = v) st
        (st.store ((nextTable e).getD 0) (offsets v).ptOff 0) ∧
      ∀ v', dirEntry (st.store ((nextTable e).getD 0) (offsets v).ptOff 0).mem root v' = dirEntry st.mem root v' := by
  have hbelow := tableBelow_small hsmall
  cases hpt : nextTable e with
  | none =>
    rw [getD_none]
    have hout : ∀ p ∈ T, (st.store 0 (offsets v).ptOff 0).mem p = st.mem p :=
      fun p hp => write_table_ne _ _ _ (ne_of_mem_of_not_mem hp h0)
    refine ⟨iff_of_false h0 (not_not.mpr ⟨e, hdir, hsmall, hpt⟩),
      ⟨hT.congr hout, rfl, ?_, fun v' _ _ => hT.lookup_congr hout v'⟩, fun v' => hT.dirEntry_congr hout v'⟩
    rintro _ _ rfl
    rw [hT.lookup_congr hout, hT.lookup_small hdir hsmall, hbelow, hpt, bind_none]
  | some pt =>
    rw [getD_some]
    have hwalk : walk tableBelow st.mem root (offsets v).path = some pt := by
      rw [walk_path, hdir, bind_some, hbelow, hpt]
    obtain ⟨hM, hdir', hlookup⟩ := hT.storeLeaf hv hwalk 0
    refine ⟨iff_of_true (hT.tables _ pt le_rfl hwalk) ?_, ⟨hM, rfl, ?_, ?_⟩, hdir'⟩
    · rintro ⟨e', he', -, hnone⟩
      rw [hdir, some.injEq] at he'
      rw [← he', hpt] at hnone
      cases hnone
    · intro v' hv' hgone
      exact (hlookup v' hv').trans (if_pos hgone)
    · intro v' hv' hgone
      exact (hlookup v' hv').trans (if_neg hgone)

/-- **One round.** The page has no page directory; or it is part of a large page, with too
few pages left or not; or else its entry is cleared, in a table unless it is in a hole. -/
lemma Mixed.unmapRound (hT : Mixed st.mem root T) (h0 : (0 : Word) ∉ T) (addr : Word) (size : ℕ) :
    (dirEntry st.mem root (vpn addr) = none ∧ vmmUnmapPage root addr size st = (false, size, addr, st)) ∨
    (InLarge st.mem root (vpn addr) ∧ size < 0x1FF ∧ vmmUnmapPage root addr size st = (false, size, addr, st)) ∨
    (InLarge st.mem root (vpn addr) ∧ 0x1FF ≤ size ∧ ∃ st1 pd,
      vmmUnmapPage root addr size st = (true, size - 0x1FF, addr + 0x200000, st1) ∧ pd ∈ T ∧
      Cleared root T pd (fun v => v / 512 = vpn addr / 512) st st1 ∧
      ∀ v < 2 ^ 36, v / 512 ≠ vpn addr / 512 → dirEntry st1.mem root v = dirEntry st.mem root v) ∨
    (¬ InLarge st.mem root (vpn addr) ∧ dirEntry st.mem root (vpn addr) ≠ none ∧ ∃ st1 p,
      vmmUnmapPage root addr size st = (true, size, addr + 0x1000, st1) ∧
      (p ∈ T ↔ ¬ Hole st.mem root (vpn addr)) ∧ Cleared root T p (fun v => v = vpn addr) st st1 ∧
      ∀ v, dirEntry st1.mem root v = dirEntry st.mem root v) := by
  rw [vmmUnmapPage_eq, hT.pageDirectory_eq]
  cases hpd : walk tableBelow st.mem root (offsets (vpn addr)).dirPath with
  | none =>
    refine .inl ⟨?_, rfl⟩
    rw [dirEntry, entry, hpd, map_none]
  | some pd =>
    have hdir := dirEntry_eq hpd
    simp only [elim_some, unmapAt]
    by_cases hlarge : st.mem pd (offsets (vpn addr)).pdOff &&& vmmLarge ≠ 0
    · have hin : InLarge st.mem root (vpn addr) := ⟨_, hdir, hlarge⟩
      by_cases hsize : size < 0x1FF
      · exact .inr (.inl ⟨hin, hsize, by rw [if_pos hlarge, if_pos hsize]⟩)
      · obtain ⟨hM, hdir', hlookup⟩ := hT.clearLarge (vpn_lt addr) hpd hlarge
        refine .inr (.inr (.inl ⟨hin, Nat.not_lt.mp hsize, _, pd, by rw [if_pos hlarge, if_neg hsize],
          hT.tables _ pd (PtOffset.dirPath_le _) hpd, ⟨hM, rfl, ?_, ?_⟩, ?_⟩))
        · intro v hv hgone
          exact (hlookup v hv).trans (if_pos hgone)
        · intro v hv hgone
          exact (hlookup v hv).trans (if_neg hgone)
        · intro v hv hne
          exact (hdir' v hv).trans (if_neg hne)
    · obtain ⟨hstore, hcleared, hsame⟩ := hT.clearSmall h0 (vpn_lt addr) hdir (not_not.mp hlarge)
      refine .inr (.inr (.inr ⟨?_, by simp [hdir], _, _, if_neg hlarge, hstore, hcleared, hsame⟩))
      rintro ⟨e, he, hbit⟩
      rw [hdir, some.injEq] at he
      exact hlarge (he ▸ hbit)

/-! ### Blocks of 512 pages -/

lemma pageAt_large (addr : Word) (i : ℕ) : pageAt (addr + 0x200000) i = pageAt addr (i + 512) := by
  rw [show addr + 0x200000 = pageAt addr 512 from rfl, pageAt_pageAt, Nat.add_comm]

variable {mem mem' : Word → Fin 512 → Word}

lemma dirEntry_block (hv : v < 2 ^ 36) (hv' : v' < 2 ^ 36) (h : v' / 512 = v / 512) :
    dirEntry mem root v' = dirEntry mem root v := by
  obtain ⟨hpath, hoff⟩ := (dir_eq_iff hv hv').mpr h
  rw [dirEntry, dirEntry, hpath, hoff]

lemma Hole.congr (h : dirEntry mem' root v = dirEntry mem root v) : Hole mem' root v ↔ Hole mem root v := by
  rw [Hole, Hole, h]

lemma InLarge.not_hole (h : InLarge mem root v) : ¬ Hole mem root v := by
  obtain ⟨e, he, hlarge⟩ := h
  rintro ⟨e', he', hsmall, -⟩
  rw [he, some.injEq] at he'
  exact hlarge (he' ▸ hsmall)

lemma InLarge.ne_none (h : InLarge mem root v) : dirEntry mem root v ≠ none := by
  obtain ⟨e, he, -⟩ := h
  simp [he]

lemma InLarge.block (hv : v < 2 ^ 36) (hv' : v' < 2 ^ 36) (h : v' / 512 = v / 512)
    (hlarge : InLarge mem root v) : InLarge mem root v' := by
  rwa [InLarge, dirEntry_block hv hv' h]

/-- A round that comes to a large page comes to its first page. -/
def Entered (mem : Word → Fin 512 → Word) (root : Word) (v : ℕ) : Prop := InLarge mem root v → v % 512 = 0

lemma block_of_lt {i : ℕ} (hv : vpn addr % 512 = 0) (hi : i < 2 ^ 36) :
    vpn (pageAt addr i) / 512 = vpn addr / 512 ↔ i < 512 := by
  have := vpn_lt addr
  rw [vpn_pageAt]
  omega

lemma block_iff (hv : vpn addr % 512 = 0) (hlt : v < 2 ^ 36) :
    v / 512 = vpn addr / 512 ↔ ∃ i < 512, v = vpn (pageAt addr i) := by
  constructor
  · intro hblock
    refine ⟨v % 512, Nat.mod_lt _ (by decide), ?_⟩
    rw [vpn_pageAt]
    omega
  · rintro ⟨i, hi, rfl⟩
    exact (block_of_lt hv (by omega)).mpr hi

lemma entered_next (hsmall : ¬ InLarge mem root (vpn addr))
    (hsame : ∀ v, dirEntry mem' root v = dirEntry mem root v) : Entered mem' root (vpn (addr + 0x1000)) := by
  rw [show addr + 0x1000 = pageAt addr 1 from rfl, Entered, InLarge, hsame]
  intro hin
  have hlt := vpn_lt addr
  have hnext := vpn_pageAt addr 1
  by_contra hne
  -- otherwise the page before would be part of it too
  exact hsmall (InLarge.block (vpn_lt _) hlt (by omega) hin)

/-- Each hole of the range comes after a page without a page directory. -/
def HolesCovered (mem : Word → Fin 512 → Word) (root addr : Word) (size : ℕ) : Prop :=
  ∀ i < size, Hole mem root (vpn (pageAt addr i)) → ∃ j < i, dirEntry mem root (vpn (pageAt addr j)) = none

lemma holesCovered_succ (hdir : dirEntry mem root (vpn addr) ≠ none)
    (hsame : ∀ v, dirEntry mem' root v = dirEntry mem root v) : HolesCovered mem root addr (size + 1) ↔
      ¬ Hole mem root (vpn addr) ∧ HolesCovered mem' root (addr + 0x1000) size := by
  constructor
  · intro h
    refine ⟨fun hhole => ?_, fun i hi hhole => ?_⟩
    · obtain ⟨j, hj, -⟩ := h 0 (Nat.succ_pos size) (by rwa [pageAt_zero])
      exact absurd hj (Nat.not_lt_zero j)
    · rw [pageAt_succ, Hole.congr (hsame _)] at hhole
      obtain ⟨_ | j, hj, hnone⟩ := h (i + 1) (by omega) hhole
      · rw [pageAt_zero] at hnone
        exact absurd hnone hdir
      · exact ⟨j, by omega, by rwa [hsame, pageAt_succ]⟩
  · rintro ⟨h0, h⟩ (_ | i) hi hhole
    · rw [pageAt_zero] at hhole
      exact absurd hhole h0
    · rw [← pageAt_succ, ← Hole.congr (hsame _)] at hhole
      obtain ⟨j, hj, hnone⟩ := h i (by omega) hhole
      rw [hsame, pageAt_succ] at hnone
      exact ⟨j + 1, by omega, hnone⟩

lemma holesCovered_large (hlarge : InLarge mem root (vpn addr)) (hv : vpn addr % 512 = 0)
    (hsize : size + 512 ≤ 2 ^ 36) (hsame : ∀ v < 2 ^ 36, v / 512 ≠ vpn addr / 512 →
      dirEntry mem' root v = dirEntry mem root v) :
    HolesCovered mem root addr (size + 512) ↔ HolesCovered mem' root (addr + 0x200000) size := by
  have hin : ∀ i < 512, InLarge mem root (vpn (pageAt addr i)) := fun i hi =>
    hlarge.block (vpn_lt _) (vpn_lt _) ((block_of_lt hv (by omega)).mpr hi)
  have hnext : ∀ i < size, dirEntry mem' root (vpn (pageAt (addr + 0x200000) i)) =
      dirEntry mem root (vpn (pageAt addr (i + 512))) := by
    intro i hi
    rw [pageAt_large]
    refine hsame _ (vpn_lt _) fun h => ?_
    have := (block_of_lt hv (by omega)).mp h
    omega
  constructor
  · intro h i hi hhole
    rw [Hole, hnext i hi] at hhole
    obtain ⟨j, hj, hnone⟩ := h (i + 512) (by omega) hhole
    have hj' : 512 ≤ j := by
      by_contra hlt
      exact (hin j (by omega)).ne_none hnone
    refine ⟨j - 512, by omega, ?_⟩
    rw [hnext _ (by omega), Nat.sub_add_cancel hj', hnone]
  · intro h i hi hhole
    have hi' : 512 ≤ i := by
      by_contra hlt
      exact (hin i (by omega)).not_hole hhole
    have hhole' : Hole mem' root (vpn (pageAt (addr + 0x200000) (i - 512))) := by
      rwa [Hole, hnext _ (by omega), Nat.sub_add_cancel hi']
    obtain ⟨j, hj, hnone⟩ := h (i - 512) (by omega) hhole'
    rw [hnext j (by omega)] at hnone
    exact ⟨j + 512, by omega, hnone⟩

/-! ### The loop -/

/-- `size` pages from `addr` have no translation, and the translation of every other page is
as before. -/
structure UnmapsRange (root addr : Word) (size : ℕ) (st st' : Vm) : Prop where
  unmapped : ∀ i < size, lookup st'.mem root (vpn (pageAt addr i)) = none
  frame : ∀ v < 2 ^ 36, (∀ i < size, v ≠ vpn (pageAt addr i)) → lookup st'.mem root v = lookup st.mem root v

lemma Cleared.unmapsRange {p addr' : Word} {n : ℕ} {st1 st' : Vm}
    (h : Cleared root T p gone st st1) (hnext : ∀ i, pageAt addr' i = pageAt addr (i + n))
    (hgone : ∀ v < 2 ^ 36, gone v ↔ ∃ i < n, v = vpn (pageAt addr i)) (h' : UnmapsRange root addr' size st1 st') :
    UnmapsRange root addr (size + n) st st' := by
  have hrest : ∀ v < 2 ^ 36, lookup st1.mem root v = none → lookup st'.mem root v = none := by
    intro v hv hnone
    by_cases hin : ∃ i < size, v = vpn (pageAt addr' i)
    · obtain ⟨i, hi, rfl⟩ := hin
      exact h'.unmapped i hi
    · rw [h'.frame v hv fun i hi heq => hin ⟨i, hi, heq⟩, hnone]
  refine ⟨fun i hi => ?_, fun v hv hout => ?_⟩
  · by_cases hin : i < n
    · exact hrest _ (vpn_lt _) (h.unmapped _ (vpn_lt _) ((hgone _ (vpn_lt _)).mpr ⟨i, hin, rfl⟩))
    · rw [← Nat.sub_add_cancel (Nat.not_lt.mp hin), ← hnext]
      exact h'.unmapped _ (by omega)
  · rw [h'.frame v hv, h.frame v hv]
    · rintro hg
      obtain ⟨i, hi, heq⟩ := (hgone v hv).mp hg
      exact hout i (by omega) heq
    · intro i hi
      rw [hnext]
      exact hout (i + n) (by omega)

/-- **The loop**, entered at a small page or at the start of a large one: if it comes to the
end, the range is unmapped and nothing else; and it stores to tables only, exactly if it
stops before each hole. -/
lemma Mixed.unmapLoop (h0 : (0 : Word) ∉ T) : ∀ (fuel size : ℕ) (addr : Word) (st : Vm), size ≤ fuel →
    size ≤ 2 ^ 36 → Mixed st.mem root T → (0 < size → Entered st.mem root (vpn addr)) →
    ∃ ret st' new, vmmUnmapLoop root fuel size addr st = (ret, st') ∧ st'.stores = new ++ st.stores ∧
      (ret = true → UnmapsRange root addr size st st') ∧ ((∀ p ∈ new, p ∈ T) ↔ HolesCovered st.mem root addr size)
  | fuel, 0, addr, st, _, _, _, _ => ⟨true, st, [], by rw [vmmUnmapLoop], rfl,
      fun _ => ⟨by omega, fun _ _ _ => rfl⟩, iff_of_true (by simp) (by intro i hi; omega)⟩
  | 0, size + 1, addr, st, hfuel, _, _, _ => by omega
  | fuel + 1, size + 1, addr, st, hfuel, hsize, hT, hentered => by
    rcases hT.unmapRound h0 addr size with ⟨hnone, h⟩ | ⟨hlarge, hfew, h⟩ |
      ⟨hlarge, hmany, st1, pd, h, hpd, hclear, hsame⟩ | ⟨hsmall, hdir, st1, p, h, hp, hclear, hsame⟩
    · refine ⟨false, st, [], by rw [vmmUnmapLoop, h], rfl, by simp, iff_of_true (by simp) fun i hi hhole => ?_⟩
      refine ⟨0, Nat.pos_of_ne_zero ?_, by rw [pageAt_zero, hnone]⟩
      rintro rfl
      obtain ⟨e, he, -⟩ := hhole
      rw [pageAt_zero, hnone] at he
      cases he
    · refine ⟨false, st, [], by rw [vmmUnmapLoop, h], rfl, by simp, iff_of_true (by simp) fun i hi hhole => ?_⟩
      have hblock := (block_of_lt (hentered (Nat.succ_pos size) hlarge) (by omega : i < 2 ^ 36)).mpr (by omega)
      exact absurd hhole (hlarge.block (vpn_lt _) (vpn_lt _) hblock).not_hole
    · have hv := hentered (Nat.succ_pos size) hlarge
      have hentered' : Entered st1.mem root (vpn (addr + 0x200000)) := fun _ => by
        rw [show addr + 0x200000 = pageAt addr 512 from rfl, vpn_pageAt]
        omega
      obtain ⟨ret, st', new, h', hstores, hrange, hiff⟩ := Mixed.unmapLoop h0 fuel (size - 0x1FF) (addr + 0x200000)
        st1 (by omega) (by omega) hclear.mixed fun _ => hentered'
      have hsplit : size + 1 = (size - 0x1FF) + 512 := by omega
      refine ⟨ret, st', new ++ [pd], by rw [vmmUnmapLoop, h]; exact h', by simp [hstores, hclear.stores], ?_, ?_⟩
      · intro hret
        rw [hsplit]
        exact hclear.unmapsRange (pageAt_large addr) (fun v hlt => block_iff hv hlt) (hrange hret)
      · rw [hsplit, holesCovered_large hlarge hv (by omega) hsame, ← hiff]
        simp [or_imp, forall_and, hpd]
    · obtain ⟨ret, st', new, h', hstores, hrange, hiff⟩ := Mixed.unmapLoop h0 fuel size (addr + 0x1000) st1
        (by omega) (by omega) hclear.mixed fun _ => entered_next hsmall hsame
      refine ⟨ret, st', new ++ [p], by rw [vmmUnmapLoop, h]; exact h', by simp [hstores, hclear.stores], ?_, ?_⟩
      · intro hret
        refine hclear.unmapsRange (pageAt_succ addr) (fun v _ => ?_) (hrange hret)
        constructor
        · intro heq
          exact ⟨0, Nat.one_pos, by rw [pageAt_zero, heq]⟩
        · rintro ⟨i, hi, rfl⟩
          rw [Nat.lt_one_iff.mp hi, pageAt_zero]
      · rw [holesCovered_succ hdir hsame, ← hiff, ← hp]
        simp [or_imp, forall_and, and_comm]

lemma Cleared.lookup_none {p : Word} {st1 : Vm} (h : Cleared root T p gone st st1)
    (hv : v < 2 ^ 36) (hnone : lookup st.mem root v = none) : lookup st1.mem root v = none := by
  by_cases hg : gone v
  · exact h.unmapped v hv hg
  · rw [h.frame v hv hg, hnone]

/-! ### From inside a large page -/

/-- The loop comes to a page at which it returns `false`, one without a page directory or in a large page with fewer
than 512 pages left, and to no hole before it. Behind a page of a large page it goes on 512 pages further. -/
def Refused (mem : Word → Fin 512 → Word) (root : Word) : ℕ → ℕ → Word → Prop
  | _, 0, _ => False
  | 0, _ + 1, _ => False
  | fuel + 1, size + 1, addr =>
    dirEntry mem root (vpn addr) = none ∨
    (InLarge mem root (vpn addr) ∧ (size < 0x1FF ∨ Refused mem root fuel (size - 0x1FF) (addr + 0x200000))) ∨
    (¬ InLarge mem root (vpn addr) ∧ ¬ Hole mem root (vpn addr) ∧ Refused mem root fuel size (addr + 0x1000))

lemma refused_congr : ∀ (fuel size : ℕ) (addr : Word),
    (∀ i < size, dirEntry mem' root (vpn (pageAt addr i)) = dirEntry mem root (vpn (pageAt addr i))) →
    (Refused mem' root fuel size addr ↔ Refused mem root fuel size addr)
  | _, 0, _, _ => by rw [Refused, Refused]
  | 0, _ + 1, _, _ => by rw [Refused, Refused]
  | fuel + 1, size + 1, addr, h => by
    have h0 := h 0 (Nat.succ_pos size)
    rw [pageAt_zero] at h0
    have hlarge := refused_congr fuel (size - 0x1FF) (addr + 0x200000) fun i hi => by
      rw [pageAt_large]
      exact h _ (by omega)
    have hsmall := refused_congr fuel size (addr + 0x1000) fun i hi => by
      rw [pageAt_succ]
      exact h _ (by omega)
    rw [Refused, Refused, InLarge, Hole, h0, hlarge, hsmall]
    rfl

/-- **The loop**, entered anywhere, returns `false` and stores to tables only exactly if it is refused before a hole. -/
lemma Mixed.unmapLoop_refused (h0 : (0 : Word) ∉ T) : ∀ (fuel size : ℕ) (addr : Word) (st : Vm), size ≤ fuel →
    Mixed st.mem root T →
    ∃ ret st' new, vmmUnmapLoop root fuel size addr st = (ret, st') ∧ st'.stores = new ++ st.stores ∧
      (size + 512 ≤ 2 ^ 36 → ((∀ p ∈ new, p ∈ T) ∧ ret = false ↔ Refused st.mem root fuel size addr)) ∧
      ∀ v < 2 ^ 36, lookup st.mem root v = none → lookup st'.mem root v = none
  | fuel, 0, addr, st, _, _ => ⟨true, st, [], by rw [vmmUnmapLoop], rfl, by simp [Refused], fun _ _ h => h⟩
  | 0, size + 1, addr, st, hfuel, _ => by omega
  | fuel + 1, size + 1, addr, st, hfuel, hT => by
    rw [Refused]
    rcases hT.unmapRound h0 addr size with ⟨hnone, h⟩ | ⟨hlarge, hfew, h⟩ |
      ⟨hlarge, hmany, st1, p, h, hp, hclear, hsame⟩ | ⟨hsmall, hdir, st1, p, h, hp, hclear, hsame⟩
    · exact ⟨false, st, [], by rw [vmmUnmapLoop, h], rfl, by simp [hnone], fun _ _ h => h⟩
    · exact ⟨false, st, [], by rw [vmmUnmapLoop, h], rfl, by simp [hlarge, hfew], fun _ _ h => h⟩
    · obtain ⟨ret, st', new, h', hstores, hiff, hnone⟩ := Mixed.unmapLoop_refused h0 fuel (size - 0x1FF)
        (addr + 0x200000) st1 (by omega) hclear.mixed
      refine ⟨ret, st', new ++ [p], by rw [vmmUnmapLoop, h]; exact h', by simp [hstores, hclear.stores], fun hsize => ?_,
        fun v hv hv' => hnone v hv (hclear.lookup_none hv hv')⟩
      rw [← refused_congr fuel (size - 0x1FF) (addr + 0x200000) fun i hi => ?_, ← hiff (by omega)]
      · simp [or_imp, forall_and, hp, hlarge, hlarge.ne_none, Nat.not_lt.mpr hmany]
      · refine hsame _ (vpn_lt _) ?_
        have := vpn_lt addr
        rw [pageAt_large, vpn_pageAt]
        omega
    · obtain ⟨ret, st', new, h', hstores, hiff, hnone⟩ := Mixed.unmapLoop_refused h0 fuel size (addr + 0x1000) st1
        (by omega) hclear.mixed
      refine ⟨ret, st', new ++ [p], by rw [vmmUnmapLoop, h]; exact h', by simp [hstores, hclear.stores], fun hsize => ?_,
        fun v hv hv' => hnone v hv (hclear.lookup_none hv hv')⟩
      rw [← refused_congr fuel size (addr + 0x1000) fun i _ => hsame _, ← hiff (by omega), ← hp]
      simp only [hsmall, hdir, List.mem_append, List.mem_singleton, or_imp, forall_and, forall_eq, false_or, false_and,
        not_false_eq_true, true_and]
      tauto

/-- The first page of the range is in a large page, and is not the first page of it. -/
def StartsInside (mem : Word → Fin 512 → Word) (root addr : Word) (size : ℕ) : Prop :=
  0 < size ∧ InLarge mem root (vpn addr) ∧ vpn addr % 512 ≠ 0

/-- A loop that starts inside a large page and returns `true` has unmapped a page in front of the range. -/
lemma Mixed.unmapLoop_inside (h0 : (0 : Word) ∉ T) (st : Vm) (hT : Mixed st.mem root T)
    (hin : StartsInside st.mem root addr size) (hsize : size + 512 ≤ 2 ^ 36)
    (hret : (vmmUnmapLoop root size size addr st).1 = true) :
    ¬ UnmapsRange root addr size st (vmmUnmapLoop root size size addr st).2 := by
  obtain ⟨hpos, hlarge, hne⟩ := hin
  have hlt := vpn_lt addr
  obtain ⟨size, rfl⟩ : ∃ n, size = n + 1 := ⟨size - 1, by omega⟩
  have hbefore : (vpn addr - 1) / 512 = vpn addr / 512 := by omega
  obtain ⟨e, he, hbit⟩ := hlarge.block hlt (by omega) hbefore
  have hmapped := hT.lookup_large he hbit
  rcases hT.unmapRound h0 addr size with ⟨hnone, -⟩ | ⟨-, -, h⟩ | ⟨-, -, st1, pd, h, -, hclear, -⟩ | ⟨hsmall, -⟩
  · exact absurd hnone hlarge.ne_none
  · rw [vmmUnmapLoop, h] at hret
    cases hret
  · obtain ⟨ret, st', new, h', -, -, hnone⟩ := Mixed.unmapLoop_refused h0 size (size - 0x1FF) (addr + 0x200000) st1
      (by omega) hclear.mixed
    have hloop : vmmUnmapLoop root (size + 1) (size + 1) addr st = (ret, st') := by
      rw [vmmUnmapLoop, h]
      exact h'
    intro hrange
    rw [hloop] at hrange
    have hsame := hrange.frame (vpn addr - 1) (by omega) fun i hi heq => by
      rw [vpn_pageAt] at heq
      omega
    rw [hmapped, hnone _ (by omega) (hclear.unmapped _ (by omega) hbefore)] at hsame
    cases hsame
  · exact absurd hlarge hsmall

/-! ### The call -/

/-- **`vmm_unmap` unmaps its range and nothing else if it returns `true`, and follows no missing table**: from a small
page or the start of a large one, exactly if before each hole of the range a page directory is missing, where it
returns `false`; from the inside of a large page, exactly if it returns `false`, and before it comes to a hole. -/
theorem unmaps_exactly (st : Vm) (root addr : Word) (size : ℕ) (hsize : size ≤ 2 ^ 36) (hfree : root ∉ st.held)
    (T : List Word) (hT : Mixed st.mem root T) (h0 : (0 : Word) ∉ T) :
    ∃ ret st' new, vmmUnmap root addr size st = some (ret, st') ∧ st'.stores = new ++ st.stores ∧
      (¬ StartsInside st.mem root addr size →
        ((∀ p ∈ new, p ∈ T) ∧ (ret = true → UnmapsRange root addr size st st') ↔ HolesCovered st.mem root addr size)) ∧
      (StartsInside st.mem root addr size → size + 512 ≤ 2 ^ 36 →
        ((∀ p ∈ new, p ∈ T) ∧ (ret = true → UnmapsRange root addr size st st') ↔
          Refused st.mem root size size addr)) := by
  have hlock : st.lock root = some { st with held := root :: st.held } := if_neg hfree
  rw [vmmUnmap, hlock, map_some]
  by_cases hin : StartsInside st.mem root addr size
  · obtain ⟨ret, st', new, h, hstores, hiff, -⟩ :=
      Mixed.unmapLoop_refused h0 size size addr { st with held := root :: st.held } le_rfl hT
    have hinside := Mixed.unmapLoop_inside h0 { st with held := root :: st.held } hT hin
    rw [h] at hinside ⊢
    refine ⟨ret, st'.unlock root, new, rfl, hstores, fun h => absurd hin h, fun _ hlt => ?_⟩
    rw [← hiff hlt]
    refine and_congr_right fun _ => ⟨fun hrange => ?_, fun hret htrue => ?_⟩
    · by_contra hret
      have htrue := Bool.eq_true_of_not_eq_false hret
      exact hinside hlt htrue ⟨(hrange htrue).unmapped, (hrange htrue).frame⟩
    · rw [hret] at htrue
      cases htrue
  · have hentered : 0 < size → Entered st.mem root (vpn addr) := by
      intro hpos hlarge
      by_contra hne
      exact hin ⟨hpos, hlarge, hne⟩
    obtain ⟨ret, st', new, h, hstores, hrange, hiff⟩ :=
      Mixed.unmapLoop h0 size size addr { st with held := root :: st.held } le_rfl hsize hT hentered
    rw [h]
    refine ⟨ret, st'.unlock root, new, rfl, hstores, fun _ => ?_, fun h => absurd h hin⟩
    constructor
    · rintro ⟨hT, -⟩
      exact hiff.mp hT
    · intro hcovered
      exact ⟨hiff.mpr hcovered, fun hret => ⟨(hrange hret).unmapped, (hrange hret).frame⟩⟩

/-- Pages 511 and 512 are mapped, in two page tables, and the second is unmapped. -/
theorem unmaps_exactly_second : ∃ st st', vmmMapIfNotMapped eightPages 0x1000 0x1FF000 0xA000 2 3 emptyVm = some st ∧
    vmmUnmap 0x1000 0x200000 1 st = some (true, st') ∧ UnmapsRange 0x1000 0x200000 1 st st' := by
  obtain ⟨st, new, h, hallocs, spec⟩ := Mixed.mapIfNotMapped eightPages_supplied 0x1000 0x1FF000 0xA000 3
    (by decide : 2 ≤ 2 ^ 36) (by simp [emptyVm] : (0x1000 : Word) ∉ emptyVm.held)
  have hrun : (vmmMapIfNotMapped eightPages 0x1000 0x1FF000 0xA000 2 3 emptyVm).map (fun st =>
      (st.allocs.map Frames.addr, st.held, decide (Hole st.mem 0x1000 512),
        (vmmUnmap 0x1000 0x200000 1 st).map Prod.fst)) =
      some ([0x5000, 0x4000, 0x3000, 0x2000], [], false, some true) := by decide +kernel
  rw [h, map_some, some.injEq, hallocs] at hrun
  simp only [Prod.mk.injEq, decide_eq_false_iff_not] at hrun
  obtain ⟨hnew, hheld, hhole, hret⟩ := hrun
  have hnew' : new = [0x5000, 0x4000, 0x3000, 0x2000] := by simpa [emptyVm, Function.comp_def] using hnew
  subst hnew'
  obtain ⟨hM, -⟩ := spec [0x1000] (by decide) (Mixed.empty fun _ => rfl)
  obtain ⟨ret, st', stored, hcall, -, hiff, -⟩ := unmaps_exactly st 0x1000 0x200000 1 (by decide)
    (by simp [hheld]) _ hM (by decide)
  have hcovered : HolesCovered st.mem 0x1000 0x200000 1 := by
    intro i hi hi'
    rw [Nat.lt_one_iff.mp hi, pageAt_zero] at hi'
    exact absurd hi' hhole
  have hout : ¬ StartsInside st.mem 0x1000 0x200000 1 := fun hin => absurd hin.2.2 (by decide)
  rw [hcall, map_some, some.injEq] at hret
  subst hret
  exact ⟨st, st', h, hcall, ((hiff hout).mpr hcovered).2 rfl⟩

/-- Page 1 is mapped. Page 512 has no page table, and unmapping it stores to page 0. With a
large page at address 0, unmapping 512 pages from page 1 on unmaps page 0. -/
theorem unmap_null_table : ((vmmMap eightPages 0x1000 0x1000 0xA000 1 3 emptyVm).bind fun r =>
      (vmmUnmap 0x1000 0x200000 1 r.2).map fun r' => (r'.1, r'.2.stores.take 1)) = some (true, [0]) ∧
    ((vmmMapHuge eightPages 0x1000 0 0x400000 1 3 emptyVm).bind fun r => (vmmUnmap 0x1000 0x1000 512 r.2).map fun r' =>
        ((lookup r.2.mem 0x1000 0).isSome, r'.1, lookup r'.2.mem 0x1000 0)) = some (true, true, none) := by
  decide +kernel

end WivOS.Vmm
