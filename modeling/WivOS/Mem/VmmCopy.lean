/-
# Copying an address space

`vmm_copy_pml4`, which `fork` calls. Four nested loops visit the virtual pages of the lower half in order, so their
state is the number of pages visited (`Copying`). The pages for the copies come from a pool, taken up to `poolPtr`. The
result is stated for the blocks in the log of the allocator, which are apart from each other and from the pages in use
(`Separate`).
-/
import WivOS.Mem.VmmMap

namespace WivOS.Vmm

open Function List Option Radix

/-! ### Blocks of pages -/

variable {b : Frames} {p f root : Word} {k i j l v n' n : ℕ} {U : Set Word} {mem mem' : Word → Fin 512 → Word}
  {st' : Vm} {W : Prop} {T : List Word} {c : Copy} {pml4 new : Word}

lemma Frames.has_iff (hb : b.count ≤ 2 ^ 52) : b.Has p ↔ ∃ k < b.count, p = pageAt b.addr k := by
  constructor
  · rintro ⟨h1, h2⟩
    refine ⟨_, h2, ?_⟩
    rw [pageAt, Nat.div_mul_cancel (Nat.dvd_of_mod_eq_zero h1), BitVec.ofNat_toNat, BitVec.setWidth_eq,
      BitVec.add_comm, BitVec.sub_add_cancel]
  · rintro ⟨k, hk, rfl⟩
    have h : (pageAt b.addr k - b.addr).toNat = k * 0x1000 := by
      rw [pageAt, BitVec.add_comm, BitVec.add_sub_cancel, BitVec.toNat_ofNat]
      omega
    rw [Frames.Has, h]
    omega

lemma pageAt_inj {a : Word} {k' : ℕ} (hk : k < 2 ^ 52) (hk' : k' < 2 ^ 52) (h : pageAt a k = pageAt a k') :
    k = k' := by
  have h := congrArg BitVec.toNat ((BitVec.add_right_inj a).mp h)
  simp only [BitVec.toNat_ofNat] at h
  omega

/-- The blocks lie in physical memory, apart from each other and from the pages in
use. -/
structure Separate (U : Set Word) (bs : List Frames) : Prop where
  range : ∀ b ∈ bs, PhysRange b.addr b.count
  disjoint : bs.Pairwise fun b b' => ∀ p, b.Has p → ¬ b'.Has p
  unused : ∀ b ∈ bs, ∀ p, b.Has p → p ∉ U

section Separate

variable {U : Set Word} {bs : List Frames}

lemma Separate.of_append (new : List Frames) (h : Separate U (new ++ bs)) : Separate U bs :=
  ⟨fun b hb => h.range b (mem_append_right _ hb), (pairwise_append.mp h.disjoint).2.1,
    fun b hb => h.unused b (mem_append_right _ hb)⟩

lemma Separate.count_le (h : Separate U bs) (hb : b ∈ bs) : b.count ≤ 2 ^ 52 := by
  have := (h.range b hb).2
  omega

lemma Separate.unique : ∀ {bs : List Frames}, Separate U bs → ∀ {b b' : Frames}, b ∈ bs → b' ∈ bs → ∀ {p : Word},
    b.Has p → b'.Has p → b = b'
  | [], _, _, _, hb, _, _, _, _ => by simp at hb
  | a :: bs, h, b, b', hb, hb', p, hp, hp' => by
    have hhead := (pairwise_cons.mp h.disjoint).1
    rcases mem_cons.mp hb with rfl | htail <;> rcases mem_cons.mp hb' with rfl | htail'
    · rfl
    · exact absurd hp' (hhead b' htail' p hp)
    · exact absurd hp (hhead b htail p hp')
    · exact Separate.unique (h.of_append [a]) htail htail' hp hp'

lemma Separate.nodup_pages : ∀ {new T : List Word}, Separate U (new.map page ++ bs) →
    (∀ t ∈ T, t ∈ U ∨ page t ∈ bs) → T.Nodup → (new ++ T).Nodup
  | [], _, _, _, hT => hT
  | a :: new, T, h, hin, hT => by
    have hhead := (pairwise_cons.mp h.disjoint).1
    have hhas : (page a).Has a := page_has.mpr rfl
    refine nodup_cons.mpr ⟨fun ha => ?_, (h.of_append [page a]).nodup_pages hin hT⟩
    rcases mem_append.mp ha with ha | ha
    · exact hhead _ (mem_append_left _ (mem_map_of_mem ha)) a hhas hhas
    · rcases hin a ha with hU | hbs
      · exact h.unused _ mem_cons_self a hhas hU
      · exact hhead _ (mem_append_right _ hbs) a hhas hhas

end Separate

/-! ### Virtual addresses -/

def vpnOf (i j k l : ℕ) : ℕ := ((i * 512 + j) * 512 + k) * 512 + l

lemma vpnOf_succ (i j k l : ℕ) : vpnOf i j k (l + 1) = vpnOf i j k l + 1 := by
  simp only [vpnOf, Nat.add_assoc]

lemma offsets_vpnOf (hj : j < 512) (hk : k < 512) (hl : l < 512) :
    offsets (vpnOf i j k l) = ⟨Fin.ofNat 512 i, Fin.ofNat 512 j, Fin.ofNat 512 k, Fin.ofNat 512 l⟩ := by
  simp only [offsets, vpnOf, PtOffset.mk.injEq, Fin.ext_iff, Fin.val_ofNat]
  omega

lemma field_shift {x s : ℕ} (hx : x < 512) (hs : s + 9 ≤ 64) :
    ((BitVec.ofNat 64 x &&& 0x1FF) <<< s).toNat = 2 ^ s * x := by
  have h : 2 ^ s * 2 ^ 9 ≤ 2 ^ 64 := by
    rw [← Nat.pow_add]
    exact Nat.pow_le_pow_right Nat.zero_lt_two hs
  have hlt : x * 2 ^ s < 2 ^ 64 := lt_of_lt_of_le (Nat.mul_lt_mul_of_pos_right hx (Nat.two_pow_pos s)) (by omega)
  rw [BitVec.toNat_shiftLeft, BitVec.toNat_and, BitVec.toNat_ofNat, Nat.mod_eq_of_lt (by omega : x < 2 ^ 64),
    show ((0x1FF : Word).toNat) = 2 ^ 9 - 1 by rfl, Nat.and_two_pow_sub_one_eq_mod,
    Nat.mod_eq_of_lt (by omega : x < 2 ^ 9), Nat.shiftLeft_eq, Nat.mod_eq_of_lt hlt, Nat.mul_comm]

lemma vpn_vmmEntriesToVirtAddr (hi : i < 512) (hj : j < 512) (hk : k < 512) (hl : l < 512) :
    vpn (vmmEntriesToVirtAddr i j k l) = vpnOf i j k l := by
  have h : (vmmEntriesToVirtAddr i j k l).toNat = 2 ^ 12 * vpnOf i j k l := by
    rw [vmmEntriesToVirtAddr, BitVec.toNat_or, BitVec.toNat_or, BitVec.toNat_or, field_shift hi (by decide),
      field_shift hj (by decide), field_shift hk (by decide), field_shift hl (by decide),
      ← Nat.two_pow_add_eq_or_of_lt (i := 39) (by omega),
      show 2 ^ 39 * i + 2 ^ 30 * j = 2 ^ 30 * (512 * i + j) by omega,
      ← Nat.two_pow_add_eq_or_of_lt (i := 30) (by omega),
      show 2 ^ 30 * (512 * i + j) + 2 ^ 21 * k = 2 ^ 21 * (512 * (512 * i + j) + k) by omega,
      ← Nat.two_pow_add_eq_or_of_lt (i := 21) (by omega), vpnOf]
    omega
  rw [vpn, h, vpnOf]
  omega

/-! ### Pages and entries -/

variable {supply : ℕ → Word} {mem : Word → Fin 512 → Word} {root : Word}

lemma target_flags {e : Word} (h : target e = some (p, f)) :
    p = e &&& vmmAddrMask ∧ f = e &&& vmmFlagMask ∧ f &&& vmmAddrMask = 0 ∧ f ||| vmmPresent = f := by
  unfold target at h
  split at h
  · simp at h
  rename_i hpresent
  simp only [some.injEq, Prod.mk.injEq] at h
  obtain ⟨rfl, rfl⟩ := h
  have hbit : e &&& vmmPresent = vmmPresent := by
    have hone : (e &&& vmmPresent).toNat = e.toNat % 2 := by
      rw [BitVec.toNat_and, show vmmPresent.toNat = 1 by rfl, Nat.and_one_is_mod]
    have hne : (e &&& vmmPresent).toNat ≠ 0 := fun h0 => hpresent (BitVec.eq_of_toNat_eq h0)
    apply BitVec.eq_of_toNat_eq
    rw [show vmmPresent.toNat = 1 by rfl]
    omega
  refine ⟨rfl, rfl, ?_, ?_⟩
  · rw [BitVec.and_assoc, show vmmFlagMask &&& vmmAddrMask = 0#64 by decide]
    exact BitVec.and_zero
  · calc (e &&& vmmFlagMask) ||| vmmPresent = (e &&& vmmFlagMask) ||| (e &&& vmmPresent) := by rw [hbit]
      _ = e &&& (vmmFlagMask ||| vmmPresent) := (BitVec.and_or_distrib_left).symm
      _ = e &&& vmmFlagMask := by rw [show vmmFlagMask ||| vmmPresent = vmmFlagMask by decide]

lemma vmmMap_one (hs : Supplied supply) {st : Vm} (hfree : root ∉ st.held) (addr phys permissions : Word) :
    ∃ st', vmmMap supply root addr phys 1 permissions st = some (true, st') ∧
      ∃ new, Took new st st' ∧ ∀ T, (new ++ T).Nodup → Tree st.mem root T →
        MapsPage root T new (vpn addr) (phys ||| permissions ||| vmmPresent) st.mem st'.mem := by
  obtain ⟨st1, h1, hcall⟩ := vmmMapAdvanced_one hs hfree addr phys permissions false
  obtain ⟨new, took, spec⟩ := Tree.mapPage hs h1
  exact ⟨st1.unlock root, hcall, new, took.unlock, spec⟩

lemma memcpyPages_one (dest src : Word) (st : Vm) :
    (memcpyPages dest src 1 st).mem = update st.mem dest (st.mem src) := by
  funext p
  by_cases hp : p = dest
  · subst hp
    rw [update_self, memcpyPages]
    exact (if_pos (page_has.mpr rfl)).trans (by simp)
  · rw [update_of_ne hp]
    exact if_neg fun h => hp (page_has.mp h)

lemma translate_vpnOf (hj : j < 512) (hk : k < 512) (hl : l < 512) {pt : Word}
    (hpt : walk nextTable mem root [Fin.ofNat 512 i, Fin.ofNat 512 j, Fin.ofNat 512 k] = some pt) :
    translate mem root (vpnOf i j k l) = target (mem pt (Fin.ofNat 512 l)) := by
  rw [translate, offsets_vpnOf hj hk hl, PtOffset.path, entry, hpt]
  rfl

lemma translate_none {before : List (Fin 512)} {i : Fin 512} (hp : walk nextTable mem root before = some p)
    (hnone : nextTable (mem p i) = none) (hpre : before ++ [i] <+: (offsets v).path) : translate mem root v = none := by
  obtain ⟨rest, hrest⟩ := hpre
  rw [translate, ← hrest, entry, walk_append, walk_snoc, hp, bind_some, hnone]
  rfl

/-! ### The loops -/

def Lower (path : List (Fin 512)) : Prop := ∀ i ∈ path.head?, i.val < 256

/-- What a call starts from: the pages in use, memory and the table to copy; the
new root and the block of its `pt_t`; the locks held and the blocks freed. -/
structure CopyJob where
  used : Set Word
  mem : Word → Fin 512 → Word
  root : Word
  new : Word
  head : Frames
  held : List Word
  frees : List Frames

/-- The lower half of a table: it has no large pages, and its tables and the pages
it maps are in use. -/
structure Source (U : Set Word) (mem : Word → Fin 512 → Word) (root : Word) : Prop where
  tables : ∀ path p, path.length ≤ 3 → Lower path → walk nextTable mem root path = some p → p ∈ U
  targets : ∀ v < 2 ^ 35, ∀ p f, translate mem root v = some (p, f) → p ∈ U
  small : ∀ path i e, path.length = 2 → Lower path → entry nextTable mem root path i = some e → e &&& vmmLarge = 0

def Copy.Rest (c : Copy) (p : Word) : Prop := ∃ k, c.poolPtr ≤ k ∧ k < poolSize ∧ p = pageAt c.pool k

def Copy.Spent (c : Copy) (p : Word) : Prop :=
  (∃ b ∈ c.vm.allocs, b.count = poolSize ∧ b.Has p) ∧ ¬ c.Rest p

/-- The first `n` virtual pages of the source are copied to the new table, whose
tables are `T`. -/
structure Copying (J : CopyJob) (n : ℕ) (c : Copy) (T : List Word) : Prop where
  tree : Tree c.vm.mem J.new T
  nodup : T.Nodup
  tables : ∀ t ∈ T, page t ∈ c.vm.allocs
  /-- The upper half is empty yet. -/
  upper : ∀ i : Fin 512, 256 ≤ i.val → c.vm.mem J.new i = 0
  /-- What is in use has not changed. -/
  kept : ∀ p ∈ J.used, c.vm.mem p = J.mem p
  absent : ∀ v < n, translate J.mem J.root v = none → translate c.vm.mem J.new v = none
  copied : ∀ v < n, ∀ p f, translate J.mem J.root v = some (p, f) →
    ∃ q, translate c.vm.mem J.new v = some (q, f) ∧ c.vm.mem q = J.mem p
  todo : ∀ v, n ≤ v → v < 2 ^ 36 → translate c.vm.mem J.new v = none
  spent : ∀ v < n, ∀ q f, translate c.vm.mem J.new v = some (q, f) → c.Spent q
  single : ∀ v < n, ∀ v' < n, ∀ q f f', translate c.vm.mem J.new v = some (q, f) →
    translate c.vm.mem J.new v' = some (q, f') → v = v'
  pool : ⟨c.pool, poolSize⟩ ∈ c.vm.allocs
  ptr : c.poolPtr ≤ poolSize
  /-- Every page taken is accounted for: a table, a page of the `pt_t`, a page
  mapped, or left in the pool. -/
  taken : ∀ b ∈ c.vm.allocs, ∀ p, b.Has p → p ∈ T ∨ J.head.Has p ∨
    (∃ v < n, ∃ f, translate c.vm.mem J.new v = some (p, f)) ∨ c.Rest p

section Copying

variable {J : CopyJob} {n : ℕ} {c : Copy} {T : List Word} {S S' : Word → Prop} {q : Word}

lemma Separate.pool_not_table {bs : List Frames} (hsep : Separate U bs) (htables : ∀ t ∈ T, page t ∈ bs)
    (hb : b ∈ bs) (hcount : b.count = poolSize) (hq : b.Has q) : q ∉ T := by
  intro hqT
  rw [← hsep.unique (htables q hqT) hb (page_has.mpr rfl) hq] at hcount
  have h1 : (1 : ℕ) = poolSize := hcount
  exact absurd h1 (by decide)

/-- The virtual pages below `n` in a memory: those the source maps are mapped to copies,
each on a page of its own with `S`, and the others are not mapped. -/
structure CopiedPages (J : CopyJob) (n : ℕ) (mem : Word → Fin 512 → Word) (S : Word → Prop) : Prop where
  absent : ∀ v < n, translate J.mem J.root v = none → translate mem J.new v = none
  copied : ∀ v < n, ∀ p f, translate J.mem J.root v = some (p, f) →
    ∃ q, translate mem J.new v = some (q, f) ∧ mem q = J.mem p
  spent : ∀ v < n, ∀ q f, translate mem J.new v = some (q, f) → S q
  single : ∀ v < n, ∀ v' < n, ∀ q f f', translate mem J.new v = some (q, f) →
    translate mem J.new v' = some (q, f') → v = v'

lemma Copying.pages (h : Copying J n c T) : CopiedPages J n c.vm.mem c.Spent := ⟨h.absent, h.copied, h.spent, h.single⟩

lemma CopiedPages.frame (h : CopiedPages J n mem S)
    (htr : ∀ v < n, translate mem' J.new v = translate mem J.new v) (hmem : ∀ q, S q → mem' q = mem q)
    (hS : ∀ q, S q → S' q) : CopiedPages J n mem' S' := by
  refine ⟨?_, ?_, ?_, ?_⟩
  · intro v hv hv0
    exact (htr v hv).trans (h.absent v hv hv0)
  · intro v hv p f hpf
    obtain ⟨q, hq, hcopy⟩ := h.copied v hv p f hpf
    exact ⟨q, (htr v hv).trans hq, (hmem q (h.spent v hv q f hq)).trans hcopy⟩
  · intro v hv q f hq
    exact hS q (h.spent v hv q f ((htr v hv).symm.trans hq))
  · intro v hv v' hv' q f f' hq hq'
    exact h.single v hv v' hv' q f f' ((htr v hv).symm.trans hq) ((htr v' hv').symm.trans hq')

lemma CopiedPages.succ (h : CopiedPages J n mem S)
    (hsrc : translate J.mem J.root n = some (p, f)) (hnew : translate mem J.new n = some (q, f))
    (hcopy : mem q = J.mem p) (hq : ¬ S q) (hS : ∀ r, S r → S' r) (hq' : S' q) : CopiedPages J (n + 1) mem S' := by
  -- the virtual pages below `n + 1` are those below `n`, and `n`
  have hlt : ∀ v, v < n + 1 → v = n ∨ v < n := fun v hv => by omega
  have hat : ∀ r f', translate mem J.new n = some (r, f') → r = q := by
    intro r f' hr
    rw [hnew, some.injEq, Prod.mk.injEq] at hr
    exact hr.1.symm
  refine ⟨?_, ?_, ?_, ?_⟩
  · intro v hv hv0
    rcases hlt v hv with rfl | hv
    · rw [hsrc] at hv0
      simp at hv0
    · exact h.absent v hv hv0
  · intro v hv p' f' hpf
    rcases hlt v hv with rfl | hv
    · rw [hsrc, some.injEq, Prod.mk.injEq] at hpf
      exact ⟨q, hpf.2 ▸ hnew, hpf.1 ▸ hcopy⟩
    · exact h.copied v hv p' f' hpf
  · intro v hv r f' hr
    rcases hlt v hv with rfl | hv
    · exact hat r f' hr ▸ hq'
    · exact hS r (h.spent v hv r f' hr)
  · intro v hv v' hv' r f1 f2 h1 h2
    rcases hlt v hv with rfl | hv <;> rcases hlt v' hv' with rfl | hv'
    · rfl
    · exact absurd (hat r f1 h1 ▸ h.spent v' hv' r f2 h2) hq
    · exact absurd (hat r f2 h2 ▸ h.spent v hv r f1 h1) hq
    · exact h.single v hv v' hv' r f1 f2 h1 h2

lemma Copying.skip (h : Copying J n c T) (hn : n ≤ n') (hn' : n' ≤ 2 ^ 36)
    (hnone : ∀ v, n ≤ v → v < n' → translate J.mem J.root v = none) : Copying J n' c T := by
  have hold : ∀ v < n', ∀ x, translate c.vm.mem J.new v = some x → v < n := by
    intro v hv x hx
    by_contra hlt
    rw [h.todo v (by omega) (by omega)] at hx
    simp at hx
  refine ⟨h.tree, h.nodup, h.tables, h.upper, h.kept, ?_, ?_, fun v hv => h.todo v (by omega), ?_, ?_, h.pool, h.ptr,
    ?_⟩
  · intro v hv hv0
    by_cases hlt : v < n
    · exact h.absent v hlt hv0
    · exact h.todo v (by omega) (by omega)
  · intro v hv p f hpf
    by_cases hlt : v < n
    · exact h.copied v hlt p f hpf
    · rw [hnone v (by omega) hv] at hpf
      simp at hpf
  · exact fun v hv q f hq => h.spent v (hold v hv _ hq) q f hq
  · exact fun v hv v' hv' q f f' hq hq' => h.single v (hold v hv _ hq) v' (hold v' hv' _ hq') q f f' hq hq'
  · intro b hb p hp
    rcases h.taken b hb p hp with h1 | h1 | ⟨v, hv, h1⟩ | h1
    · exact .inl h1
    · exact .inr (.inl h1)
    · exact .inr (.inr (.inl ⟨v, by omega, h1⟩))
    · exact .inr (.inr (.inr h1))

lemma Copying.refill (h : Copying J n c T) (hsep : Separate J.used (refill supply c).vm.allocs) :
    Copying J n (refill supply c) T ∧ (Vmm.refill supply c).poolPtr < poolSize := by
  unfold Vmm.refill at hsep ⊢
  by_cases hfull : c.poolPtr = poolSize
  · rw [if_pos hfull] at hsep ⊢
    -- the new block, and the memory with its pages zeroed
    obtain ⟨b, hb⟩ : ∃ b : Frames, b = ⟨supply c.vm.allocs.length, poolSize⟩ := ⟨_, rfl⟩
    have hsep' : Separate J.used (b :: c.vm.allocs) := hb ▸ hsep
    have hold := hsep'.of_append [b]
    have hnew := (pairwise_cons.mp hsep'.disjoint).1
    have hcount : b.count ≤ 2 ^ 52 := hsep'.count_le mem_cons_self
    have hsame : ∀ p, ¬ b.Has p → (pmmAlloc supply poolSize c.vm).2.mem p = c.vm.mem p := fun p hp => by
      rw [hb] at hp
      exact if_neg hp
    have hin : ∀ b' ∈ c.vm.allocs, ∀ p, b'.Has p → ¬ b.Has p := fun b' hb' p hp hp' => hnew b' hb' p hp' hp
    have hT : ∀ p ∈ T, (pmmAlloc supply poolSize c.vm).2.mem p = c.vm.mem p := fun p hp =>
      hsame p (hin _ (h.tables p hp) p (page_has.mpr rfl))
    have htr : ∀ v, translate (pmmAlloc supply poolSize c.vm).2.mem J.new v = translate c.vm.mem J.new v :=
      h.tree.translate_congr hT
    have hrest : ∀ p, b.Has p ↔ (Copy.mk (pmmAlloc supply poolSize c.vm).2 (pmmAlloc supply poolSize c.vm).1 0).Rest
        p := by
      intro p
      rw [Frames.has_iff hcount, hb]
      simp [Copy.Rest, pmmAlloc]
    have hspent : ∀ p, c.Spent p →
        (Copy.mk (pmmAlloc supply poolSize c.vm).2 (pmmAlloc supply poolSize c.vm).1 0).Spent p := by
      rintro p ⟨⟨b', hb', hc', hp⟩, -⟩
      exact ⟨⟨b', mem_cons_of_mem _ hb', hc', hp⟩, fun hr => hin b' hb' p hp ((hrest p).mpr hr)⟩
    have hpages := h.pages.frame (fun v _ => htr v)
      (fun q hq => hq.1.elim fun b' hb' => hsame q (hin b' hb'.1 q hb'.2.2)) hspent
    refine ⟨⟨h.tree.congr hT, h.nodup, fun t ht => mem_cons_of_mem _ (h.tables t ht), ?_, ?_, hpages.absent,
      hpages.copied, fun v hv hv' => (htr v).trans (h.todo v hv hv'), hpages.spent, hpages.single, mem_cons_self,
      Nat.zero_le _, ?_⟩, Nat.succ_pos _⟩
    · intro i hi
      rw [show (pmmAlloc supply poolSize c.vm).2.mem J.new = _ from hT J.new h.tree.root_mem, h.upper i hi]
    · intro p hp
      exact (hsame p fun hb' => hsep'.unused b mem_cons_self p hb' hp).trans (h.kept p hp)
    · intro b' hb' p hp
      rcases mem_cons.mp hb' with rfl | hb'
      · exact .inr (.inr (.inr ((hrest p).mp (hb ▸ hp))))
      · rcases h.taken b' hb' p hp with h1 | h1 | ⟨v, hv, f, h1⟩ | ⟨k, hk, hk', -⟩
        · exact .inl h1
        · exact .inr (.inl h1)
        · exact .inr (.inr (.inl ⟨v, hv, f, (htr v).trans h1⟩))
        · omega
  · rw [if_neg hfull]
    exact ⟨h, by have := h.ptr; omega⟩

lemma Copy.next_page (hptr : c.poolPtr < poolSize) : (Frames.mk c.pool poolSize).Has (pageAt c.pool c.poolPtr) :=
  (Frames.has_iff (show poolSize ≤ 2 ^ 52 by decide)).mpr ⟨_, hptr, rfl⟩

lemma Copy.Spent.advance (hallocs : ∀ b ∈ c.vm.allocs, b ∈ st'.allocs) {r : Word} (h : c.Spent r) :
    (Copy.mk st' c.pool (c.poolPtr + 1)).Spent r := by
  obtain ⟨⟨b, hb, hc, hr⟩, hnr⟩ := h
  exact ⟨⟨b, hallocs b hb, hc, hr⟩, fun ⟨k, hk, hk', he⟩ => hnr ⟨k, Nat.le_of_succ_le hk, hk', he⟩⟩

lemma Copy.spent_next (hptr : c.poolPtr < poolSize) (hpool : ⟨c.pool, poolSize⟩ ∈ st'.allocs) :
    (Copy.mk st' c.pool (c.poolPtr + 1)).Spent (pageAt c.pool c.poolPtr) := by
  refine ⟨⟨_, hpool, rfl, Copy.next_page hptr⟩, fun ⟨k, hk, hk', he⟩ => ?_⟩
  have hk'' : k < 4096 := hk'
  have hptr' : c.poolPtr < 4096 := hptr
  have := pageAt_inj (by omega) (by omega) he
  exact absurd (this ▸ hk) (Nat.not_succ_le_self _)

/-- **One more page is copied**: into the next page of the pool, which is then
mapped for the virtual page `n`. -/
lemma Copying.copyPage (hsrc : Source J.used J.mem J.root) (h : Copying J n c T) (hptr : c.poolPtr < poolSize)
    (hn : n < 2 ^ 35) (htr : translate J.mem J.root n = some (p, f))
    (hf : f &&& vmmAddrMask = 0 ∧ f ||| vmmPresent = f) {nw : List Word}
    (took : Took nw (memcpyPages (pageAt c.pool c.poolPtr) p 1 c.vm) st')
    (spec : ∀ T, (nw ++ T).Nodup → Tree (memcpyPages (pageAt c.pool c.poolPtr) p 1 c.vm).mem J.new T →
      MapsPage J.new T nw n (pageAt c.pool c.poolPtr ||| f ||| vmmPresent)
        (memcpyPages (pageAt c.pool c.poolPtr) p 1 c.vm).mem st'.mem) (hsep : Separate J.used st'.allocs) :
    Copying J (n + 1) ⟨st', c.pool, c.poolPtr + 1⟩ (nw ++ T) := by
  have hhas := Copy.next_page hptr
  have hrest : c.Rest (pageAt c.pool c.poolPtr) := ⟨_, le_rfl, hptr, rfl⟩
  generalize hq : pageAt c.pool c.poolPtr = q at *
  rw [memcpyPages_one] at spec
  have hallocs : st'.allocs = nw.map page ++ c.vm.allocs := took.allocs
  rw [hallocs] at hsep
  have hsep0 : Separate J.used c.vm.allocs := hsep.of_append _
  -- the page is new to everything
  have hqU : q ∉ J.used := hsep0.unused _ h.pool q hhas
  have hqT : q ∉ T := hsep0.pool_not_table h.tables h.pool rfl hhas
  have htables : ∀ t ∈ nw ++ T, page t ∈ nw.map page ++ c.vm.allocs := by
    intro t ht
    rcases mem_append.mp ht with ht | ht
    · exact mem_append_left _ (mem_map_of_mem ht)
    · exact mem_append_right _ (h.tables t ht)
  have hpool : ∀ b ∈ c.vm.allocs, b.count = poolSize → ∀ r, b.Has r → r ∉ nw ++ T := fun b hb hc r hr =>
    hsep.pool_not_table htables (mem_append_right _ hb) hc hr
  have hspentq : ∀ r, c.Spent r → r ≠ q ∧ r ∉ nw ++ T := by
    rintro r ⟨⟨b, hb, hc, hr⟩, hnr⟩
    exact ⟨fun he => hnr (he ▸ hrest), hpool b hb hc r hr⟩
  have hT : ∀ r ∈ T, update c.vm.mem q (c.vm.mem p) r = c.vm.mem r := by
    intro r hr
    refine update_of_ne ?_ _ _
    rintro rfl
    exact hqT hr
  have hnd := hsep.nodup_pages (fun t ht => .inr (h.tables t ht)) h.nodup
  obtain ⟨g, htr', hroot⟩ := spec T hnd (h.tree.congr hT)
  have haligned : q &&& vmmFlagMask = 0 := hq ▸ (hsep0.range _ h.pool).pageAt hptr
  have hnew : translate st'.mem J.new n = some (q, f) := by
    rw [htr' n (by omega), if_pos rfl, target_entry haligned hf.1, hf.2]
  have hother : ∀ v < 2 ^ 36, v ≠ n → translate st'.mem J.new v = translate c.vm.mem J.new v := fun v hv hne => by
    rw [htr' v hv, if_neg hne, h.tree.translate_congr hT]
  have hmem : ∀ r, r ∉ nw ++ T → r ≠ q → st'.mem r = c.vm.mem r := fun r hr hne =>
    (g.frame r hr).trans (update_of_ne hne _ _)
  have hmemq : st'.mem q = J.mem p := by
    rw [g.frame q (hpool _ h.pool rfl q hhas), update_self, h.kept p (hsrc.targets n hn p f htr)]
  have hmono : ∀ b ∈ c.vm.allocs, b ∈ st'.allocs := fun b hb => hallocs ▸ mem_append_right _ hb
  have hspentnew : (Copy.mk st' c.pool (c.poolPtr + 1)).Spent q := hq ▸ Copy.spent_next hptr (hmono _ h.pool)
  have hkept := h.pages.frame (fun v hv => hother v (by omega) (by omega))
    (fun r hr => hmem r (hspentq r hr).2 (hspentq r hr).1) fun _ => id
  have hpages := hkept.succ htr hnew hmemq (fun hs => (hspentq q hs).1 rfl) (fun _ => .advance hmono) hspentnew
  refine ⟨g.tree, hnd, fun t ht => hallocs ▸ htables t ht, ?_, ?_, hpages.absent, hpages.copied, ?_, hpages.spent,
    hpages.single, hmono _ h.pool, hptr, ?_⟩
  · intro i hi
    have hne : i ≠ (offsets n).pml4Off := by
      rintro rfl
      simp only [offsets, Fin.val_ofNat] at hi
      omega
    rw [hroot i hne, hT J.new h.tree.root_mem, h.upper i hi]
  · intro r hr
    refine (hmem r (fun hr' => ?_) fun he => hqU (he ▸ hr)).trans (h.kept r hr)
    exact hsep.unused _ (htables r hr') r (page_has.mpr rfl) hr
  · intro v hv hv'
    rw [hother v hv' (by omega)]
    exact h.todo v (by omega) hv'
  · intro b hb r hr
    rw [hallocs] at hb
    rcases mem_append.mp hb with hb | hb
    · obtain ⟨t, ht, rfl⟩ := mem_map.mp hb
      exact .inl (page_has.mp hr ▸ mem_append_left _ ht)
    rcases h.taken b hb r hr with h1 | h1 | ⟨v, hv, f', h1⟩ | ⟨k, hk, hk', h1⟩
    · exact .inl (mem_append_right _ h1)
    · exact .inr (.inl h1)
    · exact .inr (.inr (.inl ⟨v, by omega, f', (hother v (by omega) (by omega)).trans h1⟩))
    · by_cases hkp : k = c.poolPtr
      · refine .inr (.inr (.inl ⟨n, by omega, f, ?_⟩))
        rw [h1, hkp, hq]
        exact hnew
      · exact .inr (.inr (.inr ⟨k, by show c.poolPtr + 1 ≤ k; omega, hk', h1⟩))

/-! ### The four loops -/

def Idle (J : CopyJob) (c : Copy) : Prop := c.vm.held = J.held ∧ c.vm.frees = J.frees

def CopiedTo (J : CopyJob) (n : ℕ) (c : Copy) : Prop := ∃ T, Copying J n c T

/-- A part of the loops returns, and it copies the pages from `n` to `n'` if `W`
holds of the source. -/
def Round (J : CopyJob) (W : Prop) (n n' : ℕ) (f : Copy → Option Copy) : Prop :=
  ∀ c, Idle J c → ∃ c', f c = some c' ∧ Idle J c' ∧ (Separate J.used c'.vm.allocs →
    Separate J.used c.vm.allocs ∧ (W → CopiedTo J n c → CopiedTo J n' c'))

lemma Round.mono {W' : Prop} {f : Copy → Option Copy} (h : Round J W n n' f) (hW : W' → W) : Round J W' n n' f := by
  intro c hc
  obtain ⟨c', h', hc', hI⟩ := h c hc
  exact ⟨c', h', hc', fun hG => ⟨(hI hG).1, fun w => (hI hG).2 (hW w)⟩⟩

lemma Round.loop {a : ℕ → ℕ} {m : ℕ} {f : Copy → ℕ → Option Copy}
    (h : ∀ l < m, Round J W (a l) (a (l + 1)) fun c => f c l) :
    Round J W (a 0) (a m) fun c => (List.range m).foldlM f c := by
  intro c hc
  obtain ⟨c', h', hc', hI⟩ := Machine.counted_loop (H := Idle J) (G := fun c => Separate J.used c.vm.allocs)
    (I := fun l c => W → CopiedTo J (a l) c) m (fun l hl c hc => by
      obtain ⟨c', h', hc', hI⟩ := h l hl c hc
      exact ⟨c', h', hc', fun hG => ⟨(hI hG).1, fun hcop w => (hI hG).2 w (hcop w)⟩⟩) c hc
  exact ⟨c', h', hc', fun hG => ⟨(hI hG).1, fun w hcop => (hI hG).2 (fun _ => hcop) w⟩⟩

lemma Round.descend {i : Fin 512} {f : Word → Copy → Option Copy} (hn : n ≤ n') (hn' : n' ≤ 2 ^ 36)
    (hused : W → p ∈ J.used)
    (hnone : W → nextTable (J.mem p i) = none → ∀ v, n ≤ v → v < n' → translate J.mem J.root v = none)
    (hsome : ∀ q, Round J (W ∧ nextTable (J.mem p i) = some q) n n' (f q)) :
    Round J W n n' fun c => match vmmGetOrNull c.vm.mem p i with
      | none => some c
      | some q => f q c := by
  intro c hc
  dsimp only
  cases hq : vmmGetOrNull c.vm.mem p i with
  | none =>
    refine ⟨c, rfl, hc, fun hG => ⟨hG, fun w ⟨T, h⟩ => ⟨T, h.skip hn hn' (hnone w ?_)⟩⟩⟩
    rw [← h.kept p (hused w)]
    exact hq
  | some q =>
    obtain ⟨c', h', hc', hI⟩ := hsome q c hc
    refine ⟨c', h', hc', fun hG => ⟨(hI hG).1, fun w hcop => (hI hG).2 ⟨w, ?_⟩ hcop⟩⟩
    obtain ⟨T, h⟩ := hcop
    rw [← h.kept p (hused w)]
    exact hq

lemma refill_idle (supply : ℕ → Word) (h : Idle J c) : Idle J (Vmm.refill supply c) := by
  unfold Vmm.refill
  split
  · exact h
  · exact h

lemma refill_separate (h : Separate U (Vmm.refill supply c).vm.allocs) : Separate U c.vm.allocs := by
  unfold Vmm.refill at h
  split at h
  · exact h.of_append [_]
  · exact h

section Loops

variable {i j k l : ℕ}

lemma Source.table (hsrc : Source J.used J.mem J.root) (hi : i < 256) {path : List (Fin 512)}
    (hlen : path.length ≤ 2) (hp : walk nextTable J.mem J.root (Fin.ofNat 512 i :: path) = some p) : p ∈ J.used := by
  refine hsrc.tables (Fin.ofNat 512 i :: path) p (Nat.succ_le_succ hlen) ?_ hp
  simp only [Lower, head?_cons, mem_some_iff, forall_eq', Fin.val_ofNat]
  omega

section

variable (hs : Supplied supply)
include hs

lemma copyPt_round (hsrc : Source J.used J.mem J.root) (hfree : J.new ∉ J.held) (hi : i < 256)
    (hj : j < 512) (hk : k < 512) (hl : l < 512) (pt : Word) :
    Round J (walk nextTable J.mem J.root [Fin.ofNat 512 i, Fin.ofNat 512 j, Fin.ofNat 512 k] = some pt)
      (vpnOf i j k l) (vpnOf i j k (l + 1)) fun c => copyPt supply J.new pt i j k c l := by
  have hn : vpnOf i j k l < 2 ^ 35 := by
    unfold vpnOf
    omega
  rw [vpnOf_succ]
  intro c hc
  simp only [copyPt]
  by_cases habs : c.vm.mem pt (Fin.ofNat 512 l) &&& 1 = 0
  · rw [if_pos habs]
    refine ⟨c, rfl, hc, fun hG => ⟨hG, fun hpt ⟨T, h⟩ => ⟨T, h.skip (Nat.le_succ _) (by omega) fun v hv hv' => ?_⟩⟩⟩
    rw [h.kept pt (hsrc.table hi (by simp) hpt)] at habs
    rw [show v = vpnOf i j k l by omega, translate_vpnOf hj hk hl hpt]
    exact if_pos habs
  · rw [if_neg habs]
    have hidle := refill_idle supply hc
    generalize hr : Vmm.refill supply c = c1 at *
    have hfree1 : J.new ∉ (memcpyPages (pageAt c1.pool c1.poolPtr)
        (c1.vm.mem pt (Fin.ofNat 512 l) &&& vmmAddrMask) 1 c1.vm).held := hidle.1 ▸ hfree
    obtain ⟨st', hmap, nw, took, spec⟩ := vmmMap_one hs hfree1 (vmmEntriesToVirtAddr i j k l)
      (pageAt c1.pool c1.poolPtr)
      ((memcpyPages (pageAt c1.pool c1.poolPtr) (c1.vm.mem pt (Fin.ofNat 512 l) &&& vmmAddrMask) 1 c1.vm).mem pt
        (Fin.ofNat 512 l) &&& vmmFlagMask)
    refine ⟨⟨st', c1.pool, c1.poolPtr + 1⟩, ?_, ⟨took.held.trans hidle.1, took.frees.trans hidle.2⟩, fun hG => ?_⟩
    · exact (congrArg (Option.map _) hmap).trans rfl
    have hsep1 : Separate J.used c1.vm.allocs :=
      (took.allocs ▸ hG : Separate J.used (nw.map page ++ c1.vm.allocs)).of_append _
    have hsep0 : Separate J.used (Vmm.refill supply c).vm.allocs := hr.symm ▸ hsep1
    refine ⟨refill_separate hsep0, fun hpt ⟨T, h⟩ => ?_⟩
    obtain ⟨h1, hptr⟩ := h.refill hsep0
    rw [hr] at h1 hptr
    have hptU := hsrc.table hi (by simp) hpt
    have hq : pt ≠ pageAt c1.pool c1.poolPtr := fun he =>
      hsep1.unused _ h1.pool _ (Copy.next_page hptr) (he ▸ hptU)
    rw [h.kept pt hptU] at habs
    rw [memcpyPages_one, update_of_ne hq, h1.kept pt hptU, vpn_vmmEntriesToVirtAddr (by omega) hj hk hl,
      ← memcpyPages_one] at spec
    rw [h1.kept pt hptU] at took
    have htarget : translate J.mem J.root (vpnOf i j k l) = some (J.mem pt (Fin.ofNat 512 l) &&& vmmAddrMask,
        J.mem pt (Fin.ofNat 512 l) &&& vmmFlagMask) := (translate_vpnOf hj hk hl hpt).trans (if_neg habs)
    have hflags := target_flags ((translate_vpnOf hj hk hl hpt).symm.trans htarget)
    exact ⟨_, h1.copyPage hsrc hptr hn htarget hflags.2.2 took spec hG⟩

lemma copyLarge_round (hfree : J.new ∉ J.held) (addr pd : Word) (k : Fin 512)
    (hlarge : W → J.mem pd k &&& vmmLarge = 0) (hused : W → pd ∈ J.used) (c : Copy) (hc : Idle J c)
    (hbit : c.vm.mem pd k &&& vmmLarge ≠ 0) : ∃ c', ((vmmMapHuge supply J.new addr (pmmAlloc supply 0x200 c.vm).1 1
        ((memcpyPages (pmmAlloc supply 0x200 c.vm).1 ((pmmAlloc supply 0x200 c.vm).2.mem pd k &&& vmmAddrMask) 0x200
          (pmmAlloc supply 0x200 c.vm).2).mem pd k &&& vmmFlagMask)
        (memcpyPages (pmmAlloc supply 0x200 c.vm).1 ((pmmAlloc supply 0x200 c.vm).2.mem pd k &&& vmmAddrMask) 0x200
          (pmmAlloc supply 0x200 c.vm).2)).map fun r => (⟨r.2, c.pool, c.poolPtr⟩ : Copy)) = some c' ∧ Idle J c' ∧
      (Separate J.used c'.vm.allocs → Separate J.used c.vm.allocs ∧ (W → CopiedTo J n c → CopiedTo J n' c')) := by
  generalize hvm : memcpyPages (pmmAlloc supply 0x200 c.vm).1
    ((pmmAlloc supply 0x200 c.vm).2.mem pd k &&& vmmAddrMask) 0x200 (pmmAlloc supply 0x200 c.vm).2 = vm
  have hheld : vm.held = c.vm.held := hvm ▸ rfl
  have hfrees : vm.frees = c.vm.frees := hvm ▸ rfl
  have hallocs : vm.allocs = ⟨supply c.vm.allocs.length, 0x200⟩ :: c.vm.allocs := hvm ▸ rfl
  obtain ⟨st1, h1, hcall⟩ := vmmMapAdvanced_one hs (hheld ▸ hc.1 ▸ hfree : J.new ∉ vm.held) addr
    (pmmAlloc supply 0x200 c.vm).1 (vm.mem pd k &&& vmmFlagMask) true
  obtain ⟨nw, took⟩ := vmmMapPage_took h1
  have took' := took.unlock
  refine ⟨_, (congrArg (Option.map _) hcall).trans rfl,
    ⟨(took'.held.trans hheld).trans hc.1, (took'.frees.trans hfrees).trans hc.2⟩, fun hG => ⟨?_, fun w ⟨T, h⟩ => ?_⟩⟩
  · have hall : (st1.unlock J.new).allocs = nw.map page ++ ([⟨supply c.vm.allocs.length, 0x200⟩] ++ c.vm.allocs) :=
      took'.allocs.trans (by rw [hallocs]; rfl)
    exact ((hall ▸ hG : Separate J.used (nw.map page ++ ([_] ++ c.vm.allocs))).of_append _).of_append _
  · rw [h.kept pd (hused w)] at hbit
    exact absurd (hlarge w) hbit

section

variable (hsrc : Source J.used J.mem J.root) (hfree : J.new ∉ J.held)
include hsrc hfree

lemma copyPd_round (hi : i < 256)
    (hj : j < 512) (hk : k < 512) (pd : Word) :
    Round J (walk nextTable J.mem J.root [Fin.ofNat 512 i, Fin.ofNat 512 j] = some pd)
      (vpnOf i j k 0) (vpnOf i j (k + 1) 0) fun c => copyPd supply J.new pd i j c k := by
  have hnext : vpnOf i j (k + 1) 0 = vpnOf i j k 512 := by
    unfold vpnOf
    omega
  have hsmall : walk nextTable J.mem J.root [Fin.ofNat 512 i, Fin.ofNat 512 j] = some pd →
      J.mem pd (Fin.ofNat 512 k) &&& vmmLarge = 0 := by
    intro hpd
    refine hsrc.small [Fin.ofNat 512 i, Fin.ofNat 512 j] _ _ rfl ?_ (by rw [entry, hpd, map_some])
    simp only [Lower, head?_cons, mem_some_iff, forall_eq', Fin.val_ofNat]
    omega
  have hused : walk nextTable J.mem J.root [Fin.ofNat 512 i, Fin.ofNat 512 j] = some pd → pd ∈ J.used :=
    hsrc.table hi (by simp)
  have hdescend : Round J (walk nextTable J.mem J.root [Fin.ofNat 512 i, Fin.ofNat 512 j] = some pd)
      (vpnOf i j k 0) (vpnOf i j (k + 1) 0) fun c => match vmmGetOrNull c.vm.mem pd (Fin.ofNat 512 k) with
        | none => some c
        | some pt => (List.range 512).foldlM (copyPt supply J.new pt i j k) c := by
    refine Round.descend ?_ ?_ hused ?_ ?_
    · unfold vpnOf
      omega
    · unfold vpnOf
      omega
    · intro hpd hnone v hv hv'
      refine translate_none hpd hnone ⟨[], ?_⟩
      simp only [vpnOf] at hv hv'
      simp only [PtOffset.path, offsets, cons_append, nil_append, List.cons.injEq, Fin.ext_iff, and_true, Fin.val_ofNat]
      omega
    · intro pt
      rw [hnext]
      refine (Round.loop fun l hl => copyPt_round hs hsrc hfree hi hj hk hl pt).mono ?_
      rintro ⟨hpd, hpt⟩
      rw [show [Fin.ofNat 512 i, Fin.ofNat 512 j, Fin.ofNat 512 k] = [Fin.ofNat 512 i, Fin.ofNat 512 j] ++
        [Fin.ofNat 512 k] from rfl, walk_snoc, hpd, bind_some, hpt]
  intro c hc
  by_cases hbit : c.vm.mem pd (Fin.ofNat 512 k) &&& vmmLarge = 0
  · simp only [copyPd, if_pos hbit]
    exact hdescend c hc
  · simp only [copyPd, if_neg hbit]
    exact copyLarge_round hs hfree _ pd _ hsmall hused c hc hbit

lemma copyPdp_round (hi : i < 256)
    (hj : j < 512) (pdp : Word) : Round J (walk nextTable J.mem J.root [Fin.ofNat 512 i] = some pdp)
      (vpnOf i j 0 0) (vpnOf i (j + 1) 0 0) fun c => copyPdp supply J.new pdp i c j := by
  have hnext : vpnOf i (j + 1) 0 0 = vpnOf i j 512 0 := by
    unfold vpnOf
    omega
  refine Round.descend ?_ ?_ (hsrc.table hi (by simp)) ?_ ?_
  · unfold vpnOf
    omega
  · unfold vpnOf
    omega
  · intro hpdp hnone v hv hv'
    refine translate_none hpdp hnone ⟨[(offsets v).pdOff], ?_⟩
    simp only [vpnOf] at hv hv'
    simp only [PtOffset.path, offsets, cons_append, nil_append, List.cons.injEq, Fin.ext_iff, and_true, Fin.val_ofNat]
    omega
  · intro pd
    rw [hnext]
    refine (Round.loop fun k hk => copyPd_round hs hsrc hfree hi hj hk pd).mono ?_
    rintro ⟨hpdp, hpd⟩
    rw [show [Fin.ofNat 512 i, Fin.ofNat 512 j] = [Fin.ofNat 512 i] ++ [Fin.ofNat 512 j] from rfl, walk_snoc,
      hpdp, bind_some, hpd]

lemma copyEntry_round
    (hi : i < 256) : Round J True (vpnOf i 0 0 0) (vpnOf (i + 1) 0 0 0) fun c => copyEntry supply J.root J.new c i := by
  have hnext : vpnOf (i + 1) 0 0 0 = vpnOf i 512 0 0 := by
    unfold vpnOf
    omega
  refine Round.descend ?_ ?_ (fun _ => hsrc.tables [] J.root (by simp) (by simp [Lower]) rfl) ?_ ?_
  · unfold vpnOf
    omega
  · unfold vpnOf
    omega
  · intro _ hnone v hv hv'
    refine translate_none (walk_nil nextTable J.mem J.root) hnone
      ⟨[(offsets v).pdpOff, (offsets v).pdOff], ?_⟩
    simp only [vpnOf] at hv hv'
    simp only [PtOffset.path, offsets, cons_append, nil_append, List.cons.injEq, Fin.ext_iff, and_true, Fin.val_ofNat]
    omega
  · intro pdp
    rw [hnext]
    refine (Round.loop fun j hj => copyPdp_round hs hsrc hfree hi hj pdp).mono ?_
    rintro ⟨-, hpdp⟩
    rw [walk_cons, hpdp]
    rfl

lemma copyEntries_round :
    Round J True 0 (2 ^ 35) fun c => (List.range 256).foldlM (copyEntry supply J.root J.new) c :=
  Round.loop (a := fun i => vpnOf i 0 0 0) fun _ hi => copyEntry_round hs hsrc hfree hi

end

end

end Loops

end Copying

/-! ### Before and after the loops -/

lemma copyUpper_frame (pml4 new : Word) : ∀ (l : List ℕ) (st st' : Vm),
    l.foldl (fun st i => st.store new (Fin.ofNat 512 i) (st.mem pml4 (Fin.ofNat 512 i))) st = st' →
    st'.allocs = st.allocs ∧ st'.frees = st.frees ∧ st'.held = st.held
  | [], _, _, h => h ▸ ⟨rfl, rfl, rfl⟩
  | i :: l, st, st', h =>
    copyUpper_frame pml4 new l (st.store new (Fin.ofNat 512 i) (st.mem pml4 (Fin.ofNat 512 i))) st' h

lemma copyUpper_mem (hne : pml4 ≠ new) : ∀ (l : List ℕ) (st st' : Vm),
    l.foldl (fun st i => st.store new (Fin.ofNat 512 i) (st.mem pml4 (Fin.ofNat 512 i))) st = st' →
    ∀ p i, st'.mem p i = if p = new ∧ ∃ j ∈ l, i = Fin.ofNat 512 j then st.mem pml4 i else st.mem p i
  | [], st, st', h, p, i => by
    subst h
    simp
  | j :: l, st, st', h, p, i => by
    rw [foldl_cons] at h
    have hsrc : (st.store new (Fin.ofNat 512 j) (st.mem pml4 (Fin.ofNat 512 j))).mem pml4 = st.mem pml4 :=
      write_table_ne _ _ _ hne
    rw [copyUpper_mem hne l _ st' h p i, hsrc]
    by_cases hp : p = new ∧ ∃ j' ∈ l, i = Fin.ofNat 512 j'
    · obtain ⟨hp, j', hj', rfl⟩ := hp
      rw [if_pos ⟨hp, j', hj', rfl⟩, if_pos ⟨hp, j', mem_cons_of_mem _ hj', rfl⟩]
    · rw [if_neg hp]
      by_cases hw : p = new ∧ i = Fin.ofNat 512 j
      · obtain ⟨rfl, rfl⟩ := hw
        rw [if_pos ⟨rfl, j, mem_cons_self, rfl⟩]
        exact write_self _ _ _ _
      · rw [if_neg]
        · exact write_of_ne _ _ hw
        · rintro ⟨rfl, j', hj', rfl⟩
          rcases mem_cons.mp hj' with rfl | hj'
          · exact hw ⟨rfl, rfl⟩
          · exact hp ⟨rfl, j', hj', rfl⟩

lemma copyUpper_spec (hne : pml4 ≠ new) (st : Vm) :
    (∀ p i, (copyUpper pml4 new st).mem p i = if p = new ∧ 256 ≤ i.val then st.mem pml4 i else st.mem p i) ∧
      (copyUpper pml4 new st).allocs = st.allocs ∧ (copyUpper pml4 new st).frees = st.frees ∧
      (copyUpper pml4 new st).held = st.held := by
  refine ⟨fun p i => ?_, copyUpper_frame pml4 new _ st _ rfl⟩
  have hiff : (∃ j ∈ List.range' 256 256, i = Fin.ofNat 512 j) ↔ 256 ≤ i.val := by
    constructor
    · rintro ⟨j, hj, rfl⟩
      rw [mem_range'_1] at hj
      rw [Fin.val_ofNat]
      omega
    · intro hi
      refine ⟨i.val, ?_, by simp⟩
      rw [mem_range'_1]
      omega
  rw [copyUpper, copyUpper_mem hne _ st _ rfl p i]
  simp only [hiff]

lemma Tree.lower_congr (hT : Tree mem root T) (h : ∀ p i, ¬ (p = root ∧ 256 ≤ i.val) → mem' p i = mem p i)
    {path : List (Fin 512)} (hlower : Lower path) (hlen : path.length ≤ 3) :
    walk nextTable mem' root path = walk nextTable mem root path := by
  refine walk_frame nextTable path fun before i hpre p hp => h p i ?_
  have hlt := length_lt_of_snoc_prefix hpre
  rintro ⟨rfl, hi⟩
  cases before with
  | nil =>
    obtain ⟨rest, rfl⟩ := hpre
    have := hlower i (by simp)
    omega
  | cons j before => exact hT.ne_root (by simp) (by omega) hp rfl

lemma lower_offsets (hv : v < 2 ^ 35) : Lower (offsets v).path := by
  simp only [Lower, PtOffset.path, offsets, head?_cons, mem_some_iff, forall_eq', Fin.val_ofNat]
  omega

lemma Tree.translate_lower (hT : Tree mem root T) (h : ∀ p i, ¬ (p = root ∧ 256 ≤ i.val) → mem' p i = mem p i)
    (hv : v < 2 ^ 35) : translate mem' root v = translate mem root v := by
  unfold translate entry
  rw [hT.lower_congr h (lower_offsets hv) le_rfl]
  cases hp : walk nextTable mem root (offsets v).path with
  | none => rfl
  | some p =>
    have hne := hT.ne_root (by simp [PtOffset.path]) le_rfl hp
    rw [map_some, map_some, h p _ fun hr => hne hr.1]

section Start

variable {supply : ℕ → Word} {U : Set Word} {root : Word} {st : Vm}

lemma kmallocPt_spec (st : Vm) (h : supply st.allocs.length ≠ 0) :
    ∃ st', kmallocPt supply st = (supply st.allocs.length + 0x1000, st') ∧
      st'.allocs = ⟨supply st.allocs.length, 2⟩ :: st.allocs ∧ st'.frees = st.frees ∧ st'.held = st.held ∧
      ∀ p, ¬ (Frames.mk (supply st.allocs.length) 2).Has p → st'.mem p = st.mem p := by
  refine ⟨_, if_neg h, rfl, rfl, rfl, fun p hp => ?_⟩
  have hne : p ≠ supply st.allocs.length := by
    rintro rfl
    exact hp ((Frames.has_iff (show (2 : ℕ) ≤ 2 ^ 52 by decide)).mpr ⟨0, Nat.zero_lt_two, (pageAt_zero _).symm⟩)
  calc _ = (pmmAlloc supply 2 st).2.mem p := (write_table_ne _ _ _ hne).trans (write_table_ne _ _ _ hne)
    _ = st.mem p := if_neg hp

structure Started (supply : ℕ → Word) (root : Word) (st : Vm) (c : Copy) : Prop where
  allocs : c.vm.allocs = [page (supply 2), ⟨supply 1, 2⟩, ⟨supply 0, poolSize⟩]
  held : c.vm.held = (root :: st.held).filter (· ≠ supply 2)
  frees : c.vm.frees = st.frees
  pool : c.pool = supply 0 ∧ c.poolPtr = 0
  frame : ∀ p, (∀ b ∈ c.vm.allocs, ¬ b.Has p) → c.vm.mem p = st.mem p
  empty : ¬ (Frames.mk (supply 1) 2).Has (supply 2) → c.vm.mem (supply 2) = fun _ => 0

lemma copyStart_started (hs : Supplied supply) (hlog : st.allocs = []) (hfree : root ∉ st.held) :
    ∃ c, copyStart supply root st = some (supply 2, c) ∧ Started supply root st c := by
  have hpt : (Frames.mk (supply 1) 2).Has (supply 1 + 0x1000) :=
    (Frames.has_iff (show (2 : ℕ) ≤ 2 ^ 52 by decide)).mpr ⟨1, Nat.one_lt_two, rfl⟩
  have hlock : (pmmAlloc supply poolSize st).2.lock root = some { (pmmAlloc supply poolSize st).2 with
      held := root :: st.held } := if_neg hfree
  obtain ⟨st1, h1⟩ : ∃ st1 : Vm, st1 = { (pmmAlloc supply poolSize st).2 with held := root :: st.held } := ⟨_, rfl⟩
  have hall1 : st1.allocs = [⟨supply 0, poolSize⟩] := by simp [h1, pmmAlloc, hlog]
  have hmem1 : ∀ p, ¬ (Frames.mk (supply 0) poolSize).Has p → st1.mem p = st.mem p := fun p hp => by
    simp [h1, pmmAlloc, hlog, hp]
  obtain ⟨st2, h2, hall2, hfr2, hheld2, hmem2⟩ := kmallocPt_spec st1 (hs st1.allocs.length).1
  simp only [hall1, length_cons, length_nil, Nat.zero_add] at h2 hall2 hmem2
  have hnew : pmmAlloc supply 1 st2 = (supply 2, { st2 with
      mem := update st2.mem (supply 2) fun _ => 0, allocs := page (supply 2) :: st2.allocs }) := by
    rw [pmmAlloc_one, hall2]
    rfl
  refine ⟨⟨{ st2 with
      mem := write (update st2.mem (supply 2) fun _ => 0) (supply 1 + 0x1000) 0 (supply 2)
      allocs := page (supply 2) :: st2.allocs
      held := st2.held.filter (· ≠ supply 2) }, supply 0, 0⟩, ?_, by rw [hall2], by rw [hheld2, h1],
    by rw [hfr2, h1]; rfl, ⟨rfl, rfl⟩, fun p hp => ?_, fun hne => ?_⟩
  · simp only [copyStart]
    rw [hlock, ← h1, map_some, h2]
    dsimp only
    rw [hnew]
    simp only [pmmAlloc, hlog, Vm.poke, length_nil]
  · simp only [hall2, mem_cons, not_mem_nil, or_false, forall_eq_or_imp, forall_eq, page_has] at hp
    have hpt' : p ≠ supply 1 + 0x1000 := by
      rintro rfl
      exact hp.2.1 hpt
    show write (update st2.mem (supply 2) fun _ => 0) (supply 1 + 0x1000) 0 (supply 2) p = st.mem p
    rw [write_table_ne _ _ _ hpt', update_of_ne hp.1, hmem2 p hp.2.1, hmem1 p hp.2.2]
  · have hpt' : supply 2 ≠ supply 1 + 0x1000 := fun h => hne (h ▸ hpt)
    show write (update st2.mem (supply 2) fun _ => 0) (supply 1 + 0x1000) 0 (supply 2) (supply 2) = _
    rw [write_table_ne _ _ _ hpt', update_self]

def copyJob (supply : ℕ → Word) (U : Set Word) (root : Word) (st : Vm) : CopyJob :=
  ⟨U, st.mem, root, supply 2, ⟨supply 1, 2⟩, (root :: st.held).filter (· ≠ supply 2), st.frees⟩

lemma Started.copying (h : Started supply root st c) (hsep : Separate U c.vm.allocs) :
    Copying (copyJob supply U root st) 0 c [supply 2] := by
  have hempty : ∀ i, c.vm.mem (supply 2) i = 0 := by
    have hne : ¬ (Frames.mk (supply 1) 2).Has (supply 2) := by
      have hdis := hsep.disjoint
      rw [h.allocs] at hdis
      exact (pairwise_cons.mp hdis).1 _ mem_cons_self _ (page_has.mpr rfl)
    intro i
    rw [h.empty hne]
  have hnone : ∀ v, translate c.vm.mem (supply 2) v = none := fun v =>
    translate_none (walk_nil nextTable c.vm.mem (supply 2)) (by rw [hempty]; exact nextTable_zero)
      ⟨[(offsets v).pdpOff, (offsets v).pdOff], rfl⟩
  refine ⟨Tree.empty hempty, by simp, ?_, fun i _ => hempty i, fun p hp => h.frame p fun b hb hb' =>
    hsep.unused b hb p hb' hp, by omega, by omega, fun v _ _ => hnone v, by omega, by omega, ?_, ?_, ?_⟩
  · simp [h.allocs]
  · rw [h.allocs, h.pool.1]
    simp
  · rw [h.pool.2]
    exact Nat.zero_le _
  · intro b hb p hp
    rw [h.allocs] at hb
    simp only [mem_cons, not_mem_nil, or_false] at hb
    rcases hb with rfl | rfl | rfl
    · exact .inl (by simp [page_has.mp hp])
    · exact .inr (.inl hp)
    · obtain ⟨k, hk, rfl⟩ := (Frames.has_iff (show poolSize ≤ 2 ^ 52 by decide)).mp hp
      exact .inr (.inr (.inr ⟨k, by rw [h.pool.2]; exact Nat.zero_le _, hk, by rw [h.pool.1]⟩))

end Start

/-! ### The copy -/

/-- The lower half of `new` is a copy of that of `root`. -/
structure Copied (U : Set Word) (root new : Word) (head : Frames) (st st' : Vm) : Prop where
  absent : ∀ v < 2 ^ 35, translate st.mem root v = none → translate st'.mem new v = none
  /-- The same flags, on a page that was not in use and holds what the source page
  held. -/
  copied : ∀ v < 2 ^ 35, ∀ p f, translate st.mem root v = some (p, f) →
    ∃ q, translate st'.mem new v = some (q, f) ∧ st'.mem q = st.mem p ∧ q ∉ U
  /-- A page is used for one virtual page. -/
  single : ∀ v < 2 ^ 35, ∀ v' < 2 ^ 35, ∀ q f f', translate st'.mem new v = some (q, f) →
    translate st'.mem new v' = some (q, f') → v = v'
  upper : ∀ i : Fin 512, 256 ≤ i.val → st'.mem new i = st.mem root i
  unchanged : ∀ p ∈ U, st'.mem p = st.mem p
  /-- A page taken is a page of the `pt_t`, a table, mapped once, or given back. -/
  accounted : ∀ b ∈ st'.allocs, ∀ p, b.Has p → head.Has p ∨
    (∃ path, path.length ≤ 3 ∧ Lower path ∧ walk nextTable st'.mem new path = some p) ∨
    (∃ v < 2 ^ 35, (∃ f, translate st'.mem new v = some (p, f)) ∧
      ∀ v' < 2 ^ 35, (∃ f, translate st'.mem new v' = some (p, f)) → v' = v) ∨
    ∃ b' ∈ st'.frees, b'.Has p
  /-- A page given back is not mapped. -/
  freed : ∀ b ∈ st'.frees, ∀ p, b.Has p → ∀ v < 2 ^ 35, ∀ f, translate st'.mem new v ≠ some (p, f)
  unlocked : root ∉ st'.held

lemma Copy.rest_iff (hptr : c.poolPtr ≤ poolSize) (p : Word) :
    (Frames.mk (pageAt c.pool c.poolPtr) (poolSize - c.poolPtr)).Has p ↔ c.Rest p := by
  have hcount : poolSize - c.poolPtr ≤ 2 ^ 52 := (Nat.sub_le _ _).trans (by decide)
  rw [Frames.has_iff hcount]
  constructor
  · rintro ⟨k, hk, rfl⟩
    have hk' : k < poolSize - c.poolPtr := hk
    exact ⟨c.poolPtr + k, by omega, by omega, (pageAt_pageAt _ _ _)⟩
  · rintro ⟨k, hk, hk', rfl⟩
    refine ⟨k - c.poolPtr, by show k - c.poolPtr < poolSize - c.poolPtr; omega, ?_⟩
    rw [pageAt_pageAt, Nat.add_sub_cancel' hk]

lemma Copying.table_path {J : CopyJob} (h : Copying J n c T) {t : Word} (ht : t ∈ T) :
    ∃ path, path.length ≤ 3 ∧ Lower path ∧ walk nextTable c.vm.mem J.new path = some t := by
  obtain ⟨path, hlen, hpath⟩ := h.tree.reached t ht
  refine ⟨path, hlen, ?_, hpath⟩
  cases path with
  | nil => simp [Lower]
  | cons i path =>
    simp only [Lower, head?_cons, mem_some_iff, forall_eq']
    by_contra hi
    rw [walk_cons, h.upper i (by omega)] at hpath
    simp at hpath

lemma Copying.finish {supply : ℕ → Word} {st : Vm} (h : Copying (copyJob supply U root st) (2 ^ 35) c T)
    (hidle : Idle (copyJob supply U root st) c) (hroot : root ∈ U) (hfrees : st.frees = []) (hfree : root ∉ st.held)
    (hsep : Separate U c.vm.allocs) :
    Copied U root (supply 2) ⟨supply 1, 2⟩ st ((copyUpper root (supply 2) (c.vm.pmmFree
      ⟨c.pool + BitVec.ofNat 64 (c.poolPtr * 0x1000), poolSize - c.poolPtr⟩)).unlock root) := by
  have hnewU : ∀ t ∈ T, t ∉ U := fun t ht => hsep.unused _ (h.tables t ht) t (page_has.mpr rfl)
  have hnewT : supply 2 ∈ T := h.tree.root_mem
  have hne : root ≠ supply 2 := fun he => hnewU _ hnewT (he ▸ hroot)
  generalize hb : (⟨c.pool + BitVec.ofNat 64 (c.poolPtr * 0x1000), poolSize - c.poolPtr⟩ : Frames) = b
  have hrest : ∀ p, b.Has p ↔ c.Rest p := by
    rw [← hb]
    exact Copy.rest_iff h.ptr
  obtain ⟨hupper, hallocs, hfr, hheld⟩ := copyUpper_spec hne (c.vm.pmmFree b)
  generalize hst : (copyUpper root (supply 2) (c.vm.pmmFree b)).unlock root = st'
  have hmem : ∀ p i, st'.mem p i = if p = supply 2 ∧ 256 ≤ i.val then c.vm.mem root i else c.vm.mem p i := by
    rw [← hst, Vm.unlock_mem]
    exact hupper
  have hall' : st'.allocs = c.vm.allocs := by
    rw [← hst, Vm.unlock_allocs, hallocs]
    rfl
  have hfr' : st'.frees = [b] := by
    rw [← hst, Vm.unlock_frees, hfr, Vm.pmmFree, hidle.2]
    exact congrArg _ hfrees
  have hheld' : st'.held = ((root :: st.held).filter (· ≠ supply 2)).erase root := by
    rw [← hst, Vm.unlock_held, hheld]
    exact congrArg (List.erase · root) hidle.1
  have hlower : ∀ p i, ¬ (p = supply 2 ∧ 256 ≤ i.val) → st'.mem p i = c.vm.mem p i := fun p i hp => by
    rw [hmem p i, if_neg hp]
  have htr : ∀ v < 2 ^ 35, translate st'.mem (supply 2) v = translate c.vm.mem (supply 2) v := fun v hv =>
    h.tree.translate_lower hlower hv
  have hpage : ∀ p, p ≠ supply 2 → st'.mem p = c.vm.mem p := fun p hp =>
    funext fun i => hlower p i fun he => hp he.1
  have hpool : ∀ q, c.Spent q → q ≠ supply 2 ∧ q ∉ U := by
    rintro q ⟨⟨b', hb', hcount, hhas⟩, -⟩
    exact ⟨fun he => hsep.pool_not_table h.tables hb' hcount hhas (he ▸ hnewT), hsep.unused b' hb' q hhas⟩
  have hpages := h.pages.frame htr (fun q hq => hpage q (hpool q hq).1) fun _ => id
  refine ⟨hpages.absent, ?_, hpages.single, ?_, ?_, ?_, ?_, ?_⟩
  · intro v hv p f hpf
    obtain ⟨q, hq, hqmem⟩ := hpages.copied v hv p f hpf
    exact ⟨q, hq, hqmem, (hpool q (hpages.spent v hv q f hq)).2⟩
  · intro i hi
    rw [hmem, if_pos ⟨rfl, hi⟩]
    exact congrFun (h.kept root hroot) i
  · intro p hp
    rw [hpage p fun he => hnewU _ hnewT (he ▸ hp)]
    exact h.kept p hp
  · intro b' hb' p hp
    rcases h.taken b' (hall' ▸ hb') p hp with h1 | h1 | ⟨v, hv, f, h1⟩ | h1
    · obtain ⟨path, hlen, hlow, hpath⟩ := h.table_path h1
      exact .inr (.inl ⟨path, hlen, hlow, (h.tree.lower_congr hlower hlow hlen).trans hpath⟩)
    · exact .inl h1
    · have h2 := (htr v hv).trans h1
      exact .inr (.inr (.inl ⟨v, hv, ⟨f, h2⟩, fun v' hv' ⟨f', h3⟩ => hpages.single v' hv' v hv p f' f h3 h2⟩))
    · exact .inr (.inr (.inr ⟨b, by simp [hfr'], (hrest p).mpr h1⟩))
  · intro b' hb' p hp v hv f hpf
    rw [hfr', mem_singleton] at hb'
    exact (hpages.spent v hv p f hpf).2 ((hrest p).mp (hb' ▸ hp))
  · rw [hheld', filter_cons_of_pos (by simpa using hne), erase_cons_head]
    exact fun hmem => hfree (mem_of_mem_filter hmem)

/-- **The copy of an address space is a copy, and shares no page with it**, if the lower half of the source holds 4
KiB pages only. `U` are the pages in use; the pages the allocator hands out are not. -/
theorem copy_is_isolated (supply : ℕ → Word) (hs : Supplied supply) (U : Set Word) (root : Word) (st : Vm)
    (hlog : st.allocs = []) (hfrees : st.frees = []) (hfree : root ∉ st.held) (hsrc : Source U st.mem root) :
    ∃ new st', vmmCopyPml4 supply root st = some (new, st') ∧
      (Separate U st'.allocs → Copied U root new ⟨supply 1, 2⟩ st st') := by
  have hroot : root ∈ U := hsrc.tables [] root (by simp) (by simp [Lower]) rfl
  have hloops : Round (copyJob supply U root st) True 0 (2 ^ 35)
      fun c => (List.range 256).foldlM (copyEntry supply root (supply 2)) c :=
    copyEntries_round hs hsrc (by simp [copyJob])
  obtain ⟨c0, hstart, hS⟩ := copyStart_started hs hlog hfree
  obtain ⟨c, hloop, hidle, hcopy⟩ := hloops c0 ⟨hS.held, hS.frees⟩
  refine ⟨supply 2, (copyUpper root (supply 2) (c.vm.pmmFree
    ⟨c.pool + BitVec.ofNat 64 (c.poolPtr * 0x1000), poolSize - c.poolPtr⟩)).unlock root, ?_, fun hsep => ?_⟩
  · rw [vmmCopyPml4, hstart, bind_some]
    exact congrArg (Option.map _) hloop
  · have hallocs : Separate U c.vm.allocs := by
      rw [Vm.unlock_allocs, copyUpper, (copyUpper_frame root (supply 2) _ _ _ rfl).1] at hsep
      exact hsep
    obtain ⟨hsep0, hcopy⟩ := hcopy hallocs
    obtain ⟨T, h⟩ := hcopy trivial ⟨_, hS.copying hsep0⟩
    exact h.finish hidle hroot hfrees hfree hallocs

def farBlocks (k : ℕ) : Word := BitVec.ofNat 64 (0x1000000 * (k % 8 + 1))

lemma farBlocks_supplied : Supplied farBlocks := by
  intro k
  have h : ∀ i < 8, BitVec.ofNat 64 (0x1000000 * (i + 1)) ≠ 0 ∧
      BitVec.ofNat 64 (0x1000000 * (i + 1)) &&& vmmFlagMask = 0 := by decide
  exact h (k % 8) (Nat.mod_lt _ (by decide))

def onePage : Vm where
  mem p i := if p = 0x5000 then 42 else if i ≠ 0 then 0 else if p = 0x1000 then 0x2007 else if p = 0x2000 then 0x3007
    else if p = 0x3000 then 0x4007 else if p = 0x4000 then 0x5007 else 0
  allocs := []
  frees := []
  held := []
  stores := []

def lowPages : Set Word := { p | p.toNat < 0x1000000 }

lemma onePage_source : Source lowPages onePage.mem 0x1000 := by
  have hlow : ∀ p i, onePage.mem p i &&& vmmAddrMask ∈ lowPages := by
    intro p i
    simp only [onePage]
    split_ifs <;> (unfold lowPages; decide)
  have htarget : ∀ path i p f, (entry nextTable onePage.mem 0x1000 path i).bind target = some (p, f) →
      p ∈ lowPages := by
    intro path i p f h
    obtain ⟨e, he, htgt⟩ := bind_eq_some_iff.mp h
    obtain ⟨pt, -, rfl⟩ := map_eq_some_iff.mp he
    exact (target_flags htgt).1 ▸ hlow pt i
  refine ⟨fun path p _ _ hp => ?_, fun v _ p f h => htarget _ _ p f h, fun path i e _ _ he => ?_⟩
  · rcases eq_nil_or_concat path with rfl | ⟨before, i, rfl⟩
    · cases hp
      unfold lowPages
      decide
    · rw [concat_eq_append, walk_snoc, bind_eq_some_iff] at hp
      obtain ⟨r, -, hr⟩ := hp
      unfold nextTable at hr
      split at hr
      · simp at hr
      · exact some.inj hr ▸ hlow r i
  · obtain ⟨pd, -, rfl⟩ := map_eq_some_iff.mp he
    simp only [onePage]
    split_ifs <;> decide

lemma Frames.has_bounds (hb : PhysRange b.addr b.count) (hp : b.Has p) :
    b.addr.toNat ≤ p.toNat ∧ p.toNat < b.addr.toNat + b.count * 0x1000 := by
  obtain ⟨-, hend⟩ := hb
  obtain ⟨k, hk, rfl⟩ := (Frames.has_iff (by omega)).mp hp
  simp only [pageAt, BitVec.toNat_add, BitVec.toNat_ofNat]
  omega

theorem copy_is_isolated_one : ∃ new st', vmmCopyPml4 farBlocks 0x1000 onePage = some (new, st') ∧
      ∃ q, translate st'.mem new 0 = some (q, 7) ∧ st'.mem q = onePage.mem 0x5000 ∧ q ∉ lowPages := by
  obtain ⟨new, st', h, hcopy⟩ := copy_is_isolated farBlocks farBlocks_supplied lowPages 0x1000 onePage rfl rfl
    (by simp [onePage]) onePage_source
  have hlog : (vmmCopyPml4 farBlocks 0x1000 onePage).map (fun r => r.2.allocs) = some [page 0x6000000,
      page 0x5000000, page 0x4000000, page 0x3000000, ⟨0x2000000, 2⟩, ⟨0x1000000, 4096⟩] := by decide +kernel
  simp only [h, map_some, some.injEq] at hlog
  have hrange : ∀ b ∈ st'.allocs, PhysRange b.addr b.count := by
    rw [hlog]
    unfold PhysRange
    decide
  have hsep : Separate lowPages st'.allocs := by
    refine ⟨hrange, ?_, fun b hb p hp hlow => ?_⟩
    · have hbounds : st'.allocs.Pairwise fun b b' => b'.addr.toNat + b'.count * 0x1000 ≤ b.addr.toNat := by
        rw [hlog]
        decide
      refine hbounds.imp_of_mem fun hb hb' hle p hp hp' => ?_
      have h1 := Frames.has_bounds (hrange _ hb) hp
      have h2 := Frames.has_bounds (hrange _ hb') hp'
      omega
    · have hstart : ∀ b ∈ st'.allocs, 0x1000000 ≤ b.addr.toNat := by
        rw [hlog]
        decide
      have h1 := Frames.has_bounds (hrange b hb) hp
      have h2 := hstart b hb
      have h3 : p.toNat < 0x1000000 := hlow
      omega
  exact ⟨new, st', h, (hcopy hsep).copied 0 (by decide) 0x5000 7 (by decide +kernel)⟩

end WivOS.Vmm
