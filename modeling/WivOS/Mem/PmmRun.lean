/-
# Who owns a physical page

The runs of `pmm_alloc_advanced` and `pmm_free` in which a caller frees only what it holds (`Live.live`). The invariant
`Owned` ties the live blocks to the bitmap: they are disjoint, the bits of their pages are set, and page 0 is in none
of them.
-/
import WivOS.Lib.Machine
import WivOS.Mem.Pmm

namespace WivOS.Pmm

open Option
open List hiding Disjoint

structure Block where
  addr : ℕ
  count : ℕ
deriving DecidableEq

def Block.pages (b : Block) : Finset ℕ := Finset.Ico (b.addr / pageSize) (b.addr / pageSize + b.count)

variable {b : Block} {count : ℕ} {s : Pmm}

lemma Block.mem_pages {p : ℕ} :
    p ∈ b.pages ↔ b.addr / pageSize ≤ p ∧ p < b.addr / pageSize + b.count := Finset.mem_Ico

lemma Block.mem_pages_mul {index p : ℕ} :
    p ∈ (Block.mk (index * pageSize) count).pages ↔ index ≤ p ∧ p < index + count := by
  rw [Block.mem_pages, Nat.mul_div_cancel _ (by decide : 0 < pageSize)]

structure Live where
  pmm : Pmm
  live : List Block

variable {st : Live}

inductive PmmOp where
  | alloc (count alignment : ℕ)
  | free (b : Block)

/-- One call. Only a live block may be freed; address 0 hands out nothing. -/
def step (st : Live) : PmmOp → Option Live
  | .alloc count alignment =>
    if 1 ≤ count ∧ 1 ≤ alignment ∧ alignment < 2 ^ 64 then
      (st.pmm.pmmAllocAdvanced count alignment).map fun r =>
        ⟨r.2, if r.1 = 0 then st.live else ⟨r.1, count⟩ :: st.live⟩
    else none
  | .free b =>
    if b ∈ st.live then (st.pmm.pmmFree b.addr b.count).map fun s => ⟨s, st.live.erase b⟩ else none

lemma step_alloc {st' : Live} {alignment : ℕ} (h : step st (.alloc count alignment) = some st') :
    1 ≤ count ∧ 1 ≤ alignment ∧ alignment < 2 ^ 64 ∧ ∃ addr s,
      st.pmm.pmmAllocAdvanced count alignment = some (addr, s) ∧
      st' = ⟨s, if addr = 0 then st.live else ⟨addr, count⟩ :: st.live⟩ := by
  simp only [step] at h
  split at h
  · rename_i hca
    obtain ⟨⟨addr, s⟩, halloc, rfl⟩ := map_eq_some_iff.mp h
    exact ⟨hca.1, hca.2.1, hca.2.2, addr, s, halloc, rfl⟩
  · cases h

lemma step_free {st' : Live} (h : step st (.free b) = some st') :
    b ∈ st.live ∧ ∃ s, st.pmm.pmmFree b.addr b.count = some s ∧ st' = ⟨s, st.live.erase b⟩ := by
  simp only [step] at h
  split at h
  · rename_i hb
    obtain ⟨s, hfree, rfl⟩ := map_eq_some_iff.mp h
    exact ⟨hb, s, hfree, rfl⟩
  · cases h

structure Owned (st : Live) : Prop where
  page0 : st.pmm.bits 0 = true
  disjoint : st.live.Pairwise fun a b => Disjoint a.pages b.pages
  set : ∀ b ∈ st.live, ∀ p ∈ b.pages, st.pmm.bits p = true
  aligned : ∀ b ∈ st.live, ∃ index, b.addr = index * pageSize ∧ 0 < index ∧ index + b.count ≤ bitLimit

lemma owned_start (h : s.bits 0 = true) : Owned ⟨s, []⟩ :=
  ⟨h, List.Pairwise.nil, fun _ hb => by simp at hb, fun _ hb => by simp at hb⟩

/-- What a call of `pmm_alloc_advanced` that hands out a block has done. -/
structure Handed (s : Pmm) (addr count : ℕ) (s' : Pmm) : Prop where
  aligned : ∃ index, addr = index * pageSize ∧ 0 < index ∧ index < s.length ∧ index + count ≤ bitLimit
  clear : ∀ p ∈ (Block.mk addr count).pages, s.bits p = false
  bits : ∀ p, s'.bits p = if p ∈ (Block.mk addr count).pages then true else s.bits p
  length : s'.length = s.length

lemma handed_of_alloc {s' : Pmm} {alignment addr : ℕ} (h0 : s.bits 0 = true) (hc : 0 < count)
    (ha : alignment < 2 ^ 64) (h : s.pmmAllocAdvanced count alignment = some (addr, s')) :
    (addr = 0 ∧ s' = s) ∨ (addr ≠ 0 ∧ Handed s addr count s') := by
  rcases pmmAllocAdvanced_cases ha h with ⟨index, hfit, hr⟩ | ⟨-, hr⟩
  · obtain ⟨rfl, rfl⟩ := Prod.mk.inj hr
    -- page 0 is set, so the block starts above it
    have hpos : 0 < index := by
      rcases Nat.eq_zero_or_pos index with rfl | hp
      · have := hfit.clear 0 le_rfl (by omega)
        rw [h0] at this
        simp at this
      · exact hp
    refine Or.inr ⟨Nat.mul_ne_zero (by omega) (by decide), ⟨index, rfl, hpos, hfit.lt, hfit.le_bitLimit⟩,
      fun p hp => ?_, fun p => ?_, rfl⟩
    · rw [Block.mem_pages_mul] at hp
      exact hfit.clear p hp.1 hp.2
    · simp only [taken, fill, Block.mem_pages_mul]
  · exact Or.inl (Prod.mk.inj hr)

lemma free_live (h : Owned st) (hb : b ∈ st.live) : ∃ s, st.pmm.pmmFree b.addr b.count = some s ∧
      (∀ p, s.bits p = if p ∈ b.pages then false else st.pmm.bits p) := by
  obtain ⟨index, haddr, -, hl⟩ := h.aligned b hb
  obtain ⟨addr, count⟩ := b
  simp only at haddr hl
  subst haddr
  refine ⟨_, pmmFree_page hl, fun p => ?_⟩
  simp only [fill, Block.mem_pages_mul]

lemma pairwise_erase {live : List Block} (h : live.Pairwise fun a b => Disjoint a.pages b.pages) (hb : b ∈ live) :
    ∀ b' ∈ live.erase b, Disjoint b.pages b'.pages := by
  have hperm := perm_cons_erase hb
  rw [hperm.pairwise_iff fun h => h.symm, pairwise_cons] at h
  exact h.1

lemma Owned.handed {addr : ℕ} (hI : Owned st) (hH : Handed st.pmm addr count s) :
    Owned ⟨s, ⟨addr, count⟩ :: st.live⟩ := by
  have hnew : ∀ b ∈ st.live, Disjoint (Block.mk addr count).pages b.pages := by
    intro b hb
    rw [Finset.disjoint_left]
    intro p hp hp'
    have h1 := hH.clear p hp
    rw [hI.set b hb p hp'] at h1
    cases h1
  obtain ⟨index, haddr, hpos, -, hl⟩ := hH.aligned
  refine ⟨?_, pairwise_cons.mpr ⟨hnew, hI.disjoint⟩, ?_, ?_⟩
  · rw [hH.bits, hI.page0]
    split <;> rfl
  · intro b hb p hp
    rw [hH.bits]
    rcases mem_cons.mp hb with rfl | hb
    · rw [if_pos hp]
    · rw [hI.set b hb p hp]
      split <;> rfl
  · intro b hb
    rcases mem_cons.mp hb with rfl | hb
    · exact ⟨index, haddr, hpos, hl⟩
    · exact hI.aligned b hb

lemma Owned.freed (hI : Owned st) (hb : b ∈ st.live)
    (hbits : ∀ p, s.bits p = if p ∈ b.pages then false else st.pmm.bits p) : Owned ⟨s, st.live.erase b⟩ := by
  have hdis := pairwise_erase hI.disjoint hb
  have hsub : ∀ b' ∈ st.live.erase b, b' ∈ st.live := fun b' => mem_of_mem_erase
  refine ⟨?_, hI.disjoint.sublist erase_sublist, ?_, fun b' hb' => hI.aligned b' (hsub b' hb')⟩
  · obtain ⟨index, haddr, hpos, -⟩ := hI.aligned b hb
    rw [hbits, if_neg, hI.page0]
    rw [Block.mem_pages, haddr, Nat.mul_div_cancel _ (by decide : 0 < pageSize)]
    omega
  · intro b' hb' p hp
    rw [hbits, if_neg, hI.set b' (hsub b' hb') p hp]
    exact fun hpb => Finset.disjoint_left.mp (hdis b' hb') hpb hp

lemma owned_step (st : Live) (op : PmmOp) (st' : Live) (hI : Owned st) (h : step st op = some st') : Owned st' := by
  cases op with
  | alloc count alignment =>
    obtain ⟨hc, -, ha, addr, s, halloc, rfl⟩ := step_alloc h
    rcases handed_of_alloc hI.page0 hc ha halloc with ⟨rfl, rfl⟩ | ⟨hne, hH⟩
    · exact hI
    · rw [if_neg hne]
      exact hI.handed hH
  | free b =>
    obtain ⟨hb, s, hfree, rfl⟩ := step_free h
    obtain ⟨s', hfree', hbits⟩ := free_live hI hb
    rw [hfree, some.injEq] at hfree'
    subst hfree'
    exact hI.freed hb hbits

lemma owned_run (h0 : s.bits 0 = true) {ops : List PmmOp} (h : Machine.run step ⟨s, []⟩ ops = some st) : Owned st :=
  Machine.run_invariant step owned_step ops _ st (owned_start h0) h

/-- **No page has two owners.** At every point of every run from a bitmap with page 0 reserved: the live blocks are
disjoint, the bits of their pages are set, a block handed out next has clear bits, and freeing a live block clears
exactly its bits. -/
theorem no_page_owned_twice (s : Pmm) (h0 : s.bits 0 = true) (ops : List PmmOp) (st : Live)
    (h : Machine.run step ⟨s, []⟩ ops = some st) : (st.live.Pairwise fun a b => Disjoint a.pages b.pages) ∧
    (∀ b ∈ st.live, ∀ p ∈ b.pages, st.pmm.bits p = true) ∧
    (∀ count alignment addr s', 1 ≤ count → 1 ≤ alignment → alignment < 2 ^ 64 →
      st.pmm.pmmAllocAdvanced count alignment = some (addr, s') → addr ≠ 0 →
      (∀ p ∈ (Block.mk addr count).pages, st.pmm.bits p = false) ∧
      ∀ p, s'.bits p = if p ∈ (Block.mk addr count).pages then true else st.pmm.bits p) ∧
    (∀ b ∈ st.live, ∃ s', st.pmm.pmmFree b.addr b.count = some s' ∧
      ∀ p, s'.bits p = if p ∈ b.pages then false else st.pmm.bits p) := by
  have hI := owned_run h0 h
  refine ⟨hI.disjoint, hI.set, ?_, fun b hb => free_live hI hb⟩
  intro count alignment addr s' hc _ ha hs hne
  rcases handed_of_alloc hI.page0 hc ha hs with ⟨h1, -⟩ | ⟨-, hH⟩
  · exact absurd h1 hne
  · exact ⟨hH.clear, hH.bits⟩

def sixPages : Pmm := ⟨fun p => p = 0, 6, 5, by decide⟩

theorem no_page_owned_twice_six :
    ∃ st, Machine.run step ⟨sixPages, []⟩ [.alloc 1 1, .alloc 2 2, .free ⟨0x1000, 1⟩, .alloc 1 1] = some st ∧
      st.live = [⟨0x1000, 1⟩, ⟨0x2000, 2⟩] ∧ st.live.Pairwise fun a b => Disjoint a.pages b.pages :=
  ⟨_, rfl, rfl, (no_page_owned_twice sixPages rfl
    [.alloc 1 1, .alloc 2 2, .free ⟨0x1000, 1⟩, .alloc 1 1] _ rfl).1⟩

/-- Outside of the live blocks the bitmap is that of the start, `s`; what is live was free there. -/
def Accounted (s : Pmm) (st : Live) : Prop := ∀ p, s.bits p = true ↔ st.pmm.bits p = true ∧ ∀ b ∈ st.live, p ∉ b.pages

lemma Accounted.step {op : PmmOp} {st' : Live} (hA : Accounted s st) (hI : Owned st) (h : step st op = some st') :
    Accounted s st' := by
  intro p
  rw [hA p]
  cases op with
  | alloc count alignment =>
    obtain ⟨hc, -, ha, addr, s', halloc, rfl⟩ := step_alloc h
    rcases handed_of_alloc hI.page0 hc ha halloc with ⟨rfl, rfl⟩ | ⟨hne, hH⟩
    · rfl
    · rw [if_neg hne, hH.bits, forall_mem_cons]
      by_cases hp : p ∈ (Block.mk addr count).pages
      · simp [hp, hH.clear p hp]
      · simp [hp]
  | free b =>
    obtain ⟨hb, s', hfree, rfl⟩ := step_free h
    obtain ⟨_, hfree', hbits⟩ := free_live hI hb
    cases hfree.symm.trans hfree'
    have hlive : (∀ b' ∈ st.live, p ∉ b'.pages) ↔ ∀ b' ∈ b :: st.live.erase b, p ∉ b'.pages :=
      forall_congr' fun b' => by rw [(perm_cons_erase hb).mem_iff]
    rw [hlive, forall_mem_cons, hbits]
    by_cases hp : p ∈ b.pages <;> simp [hp]

/-- **No page is lost or gained**: at every point of every run, the bitmap without the live blocks is the one of the start. -/
theorem pages_accounted (s : Pmm) (h0 : s.bits 0 = true) (ops : List PmmOp) (st : Live)
    (h : Machine.run step ⟨s, []⟩ ops = some st) : Accounted s st :=
  (Machine.run_invariant step (I := fun st => Owned st ∧ Accounted s st)
    (fun st op st' hI h => ⟨owned_step st op st' hI.1 h, hI.2.step hI.1 h⟩) ops _ st ⟨owned_start h0, fun p => by simp⟩
    h).2

theorem pages_accounted_six : ∃ st, Machine.run step ⟨sixPages, []⟩
    [.alloc 2 2, .alloc 1 1, .free ⟨0x2000, 2⟩] = some st ∧
    st.live = [⟨0x1000, 1⟩] ∧ Accounted sixPages st :=
  ⟨_, rfl, rfl, pages_accounted sixPages rfl [.alloc 2 2, .alloc 1 1, .free ⟨0x2000, 2⟩] _ rfl⟩

end WivOS.Pmm
