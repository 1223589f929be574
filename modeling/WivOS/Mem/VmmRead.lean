/-
# Reading through a page table

`vmm_read` of `kernel/mem/vmm.c` copies a range of virtual memory into a buffer, page by page. If the range starts
inside a page, it copies the bytes up to its end, but moves on by a whole page, so the bytes behind do not come to the
buffer (`read_skips_bytes`). Of each entry only the low 12 bits are stripped: with the `NX` bit the copy faults. The
buffer is memory without end; a fault or an endless loop is `none`.
-/
import WivOS.Mem.VmmLookup
import WivOS.Utils.Memory

namespace WivOS.Vmm

open Option Machine

open Utils (Byte)

/-! ### The call -/

def physByte (mem : Word → Fin 512 → Word) (a : Word) : Byte :=
  (mem (a &&& ~~~0xFFF#64) (Fin.ofNat 512 (a.toNat % 0x1000 / 8))).extractLsb' (8 * (a.toNat % 8)) 8

/-- `memcpy` of `n` bytes from a physical address to the buffer, from byte `pos` on. With
bit 63 set, the address is not one of the direct map. -/
def copyOut (mem : Word → Fin 512 → Word) (buf : ℕ → Byte) (pos : ℕ) (src : Word) (n : ℕ) : Option (ℕ → Byte) :=
  if n ≠ 0 ∧ src &&& vmmNx ≠ 0 then none
  else some fun i => if pos ≤ i ∧ i < pos + n then physByte mem (src + BitVec.ofNat 64 (i - pos)) else buf i

structure ReadAt where
  addr : Word
  size : ℕ
  pos : ℕ

/-- A round, once the walk has found an entry: the buffer, and where the loop goes on, if
it does. Both branches of the source do this with the size of their page. -/
def Mapping.read (m : Mapping) (mem : Word → Fin 512 → Word) (r : ReadAt) (buf : ℕ → Byte) :
    Option ((ℕ → Byte) × Option ReadAt) :=
  let left := m.size - (m.offset r.addr).toNat
  (copyOut mem buf r.pos ((m.entry &&& ~~~0xFFF#64) + m.offset r.addr) (if r.size > left then left else r.size)).map
    fun buf => (buf, if r.size ≤ left then none else
      some ⟨(r.addr &&& ~~~m.mask) + BitVec.ofNat 64 m.size, (r.size + 2 ^ 64 - m.size) % 2 ^ 64, r.pos + m.size⟩)

def vmmReadPage (mem : Word → Fin 512 → Word) (root : Word) (r : ReadAt) (buf : ℕ → Byte) :
    Option ((ℕ → Byte) × Option ReadAt) :=
  walkTo mem root r.addr (some (buf, none)) fun m => m.read mem r buf

def vmmReadLoop (mem : Word → Fin 512 → Word) (root : Word) : ℕ → ReadAt → (ℕ → Byte) → Option (ℕ → Byte)
  | 0, _, _ => none
  | fuel + 1, r, buf => (vmmReadPage mem root r buf).bind fun a =>
    a.2.elim (some a.1) fun next => vmmReadLoop mem root fuel next a.1

def vmmRead (root addr : Word) (size : ℕ) (buf : ℕ → Byte) (st : Vm) : Option ((ℕ → Byte) × Vm) :=
  (st.lock root).bind fun st =>
    (vmmReadLoop st.mem root (2 ^ 52 + 2) ⟨addr, size, 0⟩ buf).map fun buf => (buf, st.unlock root)

/-! ### Addresses within a page -/

lemma Mapping.offset_toNat (m : Mapping) (addr : Word) : (m.offset addr).toNat = addr.toNat % m.size := by
  unfold Mapping.offset Mapping.mask Mapping.size
  rw [BitVec.toNat_and]
  split
  · exact Nat.and_two_pow_sub_one_eq_mod _ 21
  · exact Nat.and_two_pow_sub_one_eq_mod _ 12

lemma Mapping.size_eq (m : Mapping) : (m.large = true ∧ m.size = 0x200000) ∨ (m.large = false ∧ m.size = 0x1000) := by
  unfold Mapping.size
  cases m.large <;> simp

lemma Mapping.offset_lt (m : Mapping) (addr : Word) : (m.offset addr).toNat < m.size := by
  rw [m.offset_toNat]
  refine Nat.mod_lt _ ?_
  rcases m.size_eq with ⟨-, h⟩ | ⟨-, h⟩ <;> omega

variable {addr root : Word} {i : ℕ} {mem : Word → Fin 512 → Word} {m : Mapping} {buf buf' : ℕ → Byte} {r : ReadAt}

lemma Mapping.offset_eq_zero (m : Mapping) : m.offset addr = 0 ↔ addr.toNat % m.size = 0 := by
  rw [← m.offset_toNat, BitVec.toNat_eq]
  rfl

lemma Mapping.offset_add (m : Mapping) (h : (m.offset addr).toNat + i < m.size) :
    m.offset (addr + BitVec.ofNat 64 i) = m.offset addr + BitVec.ofNat 64 i := by
  apply BitVec.eq_of_toNat_eq
  rw [m.offset_toNat] at h
  rw [BitVec.toNat_add, m.offset_toNat, m.offset_toNat, BitVec.toNat_add, BitVec.toNat_ofNat]
  rcases m.size_eq with ⟨-, hs⟩ | ⟨-, hs⟩
  · rw [hs] at h ⊢
    omega
  · rw [hs] at h ⊢
    omega

lemma leafEntry_large {v v' : ℕ} (h : leafEntry mem root v = some m) (hlarge : m.large = true)
    (hv : v / 512 = v' / 512) : leafEntry mem root v' = some m := by
  have h1 : (offsets v').pml4Off = (offsets v).pml4Off := by
    simp only [offsets, Fin.ext_iff, Fin.val_ofNat]
    omega
  have h2 : (offsets v').pdpOff = (offsets v).pdpOff := by
    simp only [offsets, Fin.ext_iff, Fin.val_ofNat]
    omega
  have h3 : (offsets v').pdOff = (offsets v).pdOff := by
    simp only [offsets, Fin.ext_iff, Fin.val_ofNat]
    omega
  unfold leafEntry pageDirectory at h ⊢
  rw [h1, h2, h3]
  cases hpd : Radix.walk nextTable mem root [(offsets v).pml4Off, (offsets v).pdpOff] with
  | none => rw [hpd] at h; cases h
  | some pd =>
    rw [hpd, bind_some] at h
    rw [bind_some]
    split at h
    · rename_i hbit
      rw [if_pos hbit]
      exact h
    · obtain ⟨pt, -, rfl⟩ := map_eq_some_iff.mp h
      cases hlarge

lemma leafEntry_add (h : leafEntry mem root (vpn addr) = some m) (hi : (m.offset addr).toNat + i < m.size) :
    leafEntry mem root (vpn (addr + BitVec.ofNat 64 i)) = some m := by
  rw [m.offset_toNat] at hi
  rcases m.size_eq with ⟨hlarge, hs⟩ | ⟨-, hs⟩
  · refine leafEntry_large h hlarge ?_
    rw [hs] at hi
    simp only [vpn, BitVec.toNat_add, BitVec.toNat_ofNat]
    omega
  · rw [hs] at hi
    have hv : vpn (addr + BitVec.ofNat 64 i) = vpn addr := by
      simp only [vpn, BitVec.toNat_add, BitVec.toNat_ofNat]
      omega
    rw [hv, h]

lemma add_ofNat_add (addr : Word) (n i : ℕ) :
    addr + BitVec.ofNat 64 n + BitVec.ofNat 64 i = addr + BitVec.ofNat 64 (n + i) := by
  rw [BitVec.add_assoc, BitVec.ofNat_add]

def byteAt (mem : Word → Fin 512 → Word) (root addr : Word) : Option Byte :=
  (lookup mem root (vpn addr)).map fun m => physByte mem (m.phys addr)

lemma byteAt_add (h : lookup mem root (vpn addr) = some m) (hi : (m.offset addr).toNat + i < m.size) :
    lookup mem root (vpn (addr + BitVec.ofNat 64 i)) = some m ∧
      byteAt mem root (addr + BitVec.ofNat 64 i) = some (physByte mem (m.phys addr + BitVec.ofNat 64 i)) := by
  obtain ⟨hleaf, hvalid⟩ := lookup_eq_some.mp h
  have hsame := lookup_eq_some.mpr ⟨leafEntry_add hleaf hi, hvalid⟩
  refine ⟨hsame, ?_⟩
  rw [byteAt, hsame, map_some, Mapping.phys, m.offset_add hi, ← BitVec.add_assoc]
  rfl

/-! ### One round -/

lemma copyOut_zero (mem : Word → Fin 512 → Word) (buf : ℕ → Byte) (pos : ℕ) (src : Word) :
    copyOut mem buf pos src 0 = some buf := by
  rw [copyOut, if_neg fun h => h.1 rfl]
  congr 1
  funext i
  exact if_neg (by omega)

lemma Mapping.Valid.source_eq (h : m.Valid) (addr : Word) :
    (m.entry &&& ~~~0xFFF#64) + m.offset addr = m.strip addr := by
  refine BitVec.add_eq_or_of_and_eq_zero _ _ ?_
  have hnx : m.entry &&& vmmNx &&& m.mask = 0 := by
    rw [BitVec.and_assoc, BitVec.and_comm vmmNx, m.mask_and_nx]
    exact BitVec.and_zero
  have hlow : m.entry &&& ~~~0xFFF#64 &&& m.mask = 0 := by
    rw [strip_low, BitVec.and_or_distrib_right, hnx]
    exact (BitVec.or_zero).trans h.base_and_mask
  rw [Mapping.offset, BitVec.and_comm addr, ← BitVec.and_assoc, hlow]
  exact BitVec.zero_and

structure Reads (mem : Word → Fin 512 → Word) (root addr : Word) (size pos : ℕ) (buf buf' : ℕ → Byte) : Prop where
  read : ∀ i < size, byteAt mem root (addr + BitVec.ofNat 64 i) = some (buf' (pos + i))
  frame : ∀ j, j < pos ∨ pos + size ≤ j → buf' j = buf j

lemma Reads.nothing (mem : Word → Fin 512 → Word) (root addr : Word) (pos : ℕ) (buf : ℕ → Byte) :
    Reads mem root addr 0 pos buf buf := ⟨fun i hi => by omega, fun _ _ => rfl⟩

lemma Reads.append {n size pos : ℕ} {buf1 buf2 : ℕ → Byte} (h1 : Reads mem root addr n pos buf buf1)
    (h2 : Reads mem root (addr + BitVec.ofNat 64 n) (size - n) (pos + n) buf1 buf2) (hn : n ≤ size) :
    Reads mem root addr size pos buf buf2 := by
  refine ⟨fun i hi => ?_, fun j hj => ?_⟩
  · rcases Nat.lt_or_ge i n with hlt | hge
    · rw [h1.read i hlt, h2.frame (pos + i) (Or.inl (by omega))]
    · have h := h2.read (i - n) (by omega)
      rw [add_ofNat_add, Nat.add_sub_cancel' hge, Nat.add_assoc pos, Nat.add_sub_cancel' hge] at h
      exact h
  · rw [h2.frame j (by omega), h1.frame j (by omega)]

lemma read_chunk (h : lookup mem root (vpn r.addr) = some m) (hnx : m.entry &&& vmmNx = 0) (buf : ℕ → Byte) :
    ∃ buf', m.read mem r buf = some (buf', if r.size ≤ m.size - (m.offset r.addr).toNat then none else
        some ⟨(r.addr &&& ~~~m.mask) + BitVec.ofNat 64 m.size, (r.size + 2 ^ 64 - m.size) % 2 ^ 64, r.pos + m.size⟩) ∧
      Reads mem root r.addr (min r.size (m.size - (m.offset r.addr).toNat)) r.pos buf buf' := by
  have hvalid := (lookup_eq_some.mp h).2
  have hsrc : (m.entry &&& ~~~0xFFF#64) + m.offset r.addr = m.phys r.addr :=
    (hvalid.source_eq _).trans ((hvalid.strip_eq_iff _).mpr hnx)
  have hn : (if r.size > m.size - (m.offset r.addr).toNat then m.size - (m.offset r.addr).toNat else r.size) =
      min r.size (m.size - (m.offset r.addr).toNat) := by
    split <;> omega
  have hno : ¬ (min r.size (m.size - (m.offset r.addr).toNat) ≠ 0 ∧ m.phys r.addr &&& vmmNx ≠ 0) := by
    rw [← hsrc, hvalid.source_eq, m.strip_and_nx]
    exact fun hbad => hbad.2 hnx
  refine ⟨_, by rw [Mapping.read, hn, hsrc, copyOut, if_neg hno, map_some], fun i hi => ?_, fun j hj => ?_⟩
  · rw [(byteAt_add h (by omega)).2, if_pos ⟨by omega, by omega⟩, Nat.add_sub_cancel_left]
  · exact if_neg (by omega)

lemma read_nx (h : lookup mem root (vpn r.addr) = some m) (hnx : m.entry &&& vmmNx ≠ 0) (hpos : 0 < r.size)
    (buf : ℕ → Byte) : m.read mem r buf = none := by
  have hvalid := (lookup_eq_some.mp h).2
  have hlt := m.offset_lt r.addr
  have hn : (if r.size > m.size - (m.offset r.addr).toNat then m.size - (m.offset r.addr).toNat else r.size) ≠ 0 := by
    split <;> omega
  have hcopy : copyOut mem buf r.pos (m.strip r.addr) (if r.size > m.size - (m.offset r.addr).toNat then
      m.size - (m.offset r.addr).toNat else r.size) = none := if_pos ⟨hn, by rwa [m.strip_and_nx]⟩
  rw [Mapping.read, hvalid.source_eq, hcopy]
  rfl

/-! ### The loop -/

/-- No page of the range has the `NX` bit. -/
def NoNx (mem : Word → Fin 512 → Word) (root addr : Word) (size : ℕ) : Prop :=
  ∀ i < size, ∀ m, lookup mem root (vpn (addr + BitVec.ofNat 64 i)) = some m → m.entry &&& vmmNx = 0

/-- The range starts with its first page, or ends in it. -/
def FirstChunk (mem : Word → Fin 512 → Word) (root addr : Word) (size : ℕ) : Prop :=
  ∀ m, lookup mem root (vpn addr) = some m → m.offset addr = 0 ∨ size ≤ m.size - (m.offset addr).toNat

lemma readLoop_succ (mem : Word → Fin 512 → Word) (root : Word) (fuel : ℕ) (r : ReadAt) (buf : ℕ → Byte) :
    vmmReadLoop mem root (fuel + 1) r buf =
      ((leafEntry mem root (vpn r.addr)).elim (some (buf, none)) fun m => m.read mem r buf).bind fun a =>
        a.2.elim (some a.1) fun next => vmmReadLoop mem root fuel next a.1 := by
  rw [vmmReadLoop, vmmReadPage, walkTo_eq]

lemma readLoop_nothing (mem : Word → Fin 512 → Word) (root : Word) (fuel : ℕ) (hr : r.size = 0) (buf : ℕ → Byte) :
    vmmReadLoop mem root (fuel + 1) r buf = some buf := by
  rw [readLoop_succ]
  cases leafEntry mem root (vpn r.addr) with
  | none => rfl
  | some m =>
    have hread : m.read mem r buf = some (buf, none) := by
      rw [Mapping.read, hr, if_neg (Nat.not_lt_zero _), copyOut_zero, map_some, if_pos (Nat.zero_le _)]
    rw [elim_some, hread]
    rfl

section

variable (h : lookup mem root (vpn addr) = some m) (hoff : m.offset addr = 0)
include h hoff

lemma FirstChunk.next (size : ℕ) :
    FirstChunk mem root (addr + BitVec.ofNat 64 m.size) size := by
  intro m' h'
  refine Or.inl (m'.offset_eq_zero.mpr ?_)
  have hzero := m.offset_eq_zero.mp hoff
  rw [BitVec.toNat_add, BitVec.toNat_ofNat]
  rcases m.size_eq with ⟨hl, hs⟩ | ⟨hl, hs⟩
  · rw [hs] at hzero ⊢
    rcases m'.size_eq with ⟨-, hs'⟩ | ⟨-, hs'⟩ <;> rw [hs'] <;> omega
  · rw [hs] at hzero ⊢
    rcases m'.size_eq with ⟨hl', hs'⟩ | ⟨-, hs'⟩
    · -- a large page behind a small one: not in the same page directory entry
      rw [hs']
      by_contra hne
      have hv : vpn (addr + BitVec.ofNat 64 m.size) / 512 = vpn addr / 512 := by
        rw [hs]
        simp only [vpn, BitVec.toNat_add, BitVec.toNat_ofNat]
        omega
      have hsame := leafEntry_large (lookup_eq_some.mp h').1 hl' hv
      rw [(lookup_eq_some.mp h).1, some.injEq] at hsame
      rw [hsame, hl'] at hl
      cases hl
    · rw [hs']
      omega

lemma NoNx.next_iff {size : ℕ}
    (hnx : m.entry &&& vmmNx = 0) (hsize : m.size ≤ size) :
    NoNx mem root addr size ↔ NoNx mem root (addr + BitVec.ofNat 64 m.size) (size - m.size) := by
  constructor
  · intro hno i hi m' hm'
    rw [add_ofNat_add] at hm'
    exact hno (m.size + i) (by omega) m' hm'
  · intro hno i hi m' hm'
    rcases Nat.lt_or_ge i m.size with hlt | hge
    · rw [(byteAt_add h (by rw [hoff]; exact (Nat.zero_add i).symm ▸ hlt)).1, some.injEq] at hm'
      rwa [← hm']
    · refine hno (i - m.size) (by omega) m' ?_
      rw [add_ofNat_add, Nat.add_sub_cancel' hge, hm']

end

lemma next_eq (hoff : m.offset r.addr = 0) (hlt : r.size < 2 ^ 64) (hsize : m.size ≤ r.size) :
    (⟨(r.addr &&& ~~~m.mask) + BitVec.ofNat 64 m.size, (r.size + 2 ^ 64 - m.size) % 2 ^ 64, r.pos + m.size⟩ : ReadAt) =
      ⟨r.addr + BitVec.ofNat 64 m.size, r.size - m.size, r.pos + m.size⟩ := by
  have haddr : r.addr &&& ~~~m.mask = r.addr := by
    have hboth : (r.addr &&& m.mask) ||| (r.addr &&& ~~~m.mask) = r.addr := by
      rw [← BitVec.and_or_distrib_left, BitVec.or_not_self, BitVec.and_allOnes]
    rw [show r.addr &&& m.mask = 0 from hoff] at hboth
    exact (BitVec.zero_or).symm.trans hboth
  have hleft : (r.size + 2 ^ 64 - m.size) % 2 ^ 64 = r.size - m.size := by
    omega
  rw [haddr, hleft]

lemma readLoop_spec : ∀ (fuel : ℕ) (r : ReadAt) (buf : ℕ → Byte), r.size / 0x1000 < fuel → r.size < 2 ^ 64 →
    (∀ i < r.size, lookup mem root (vpn (r.addr + BitVec.ofNat 64 i)) ≠ none) → FirstChunk mem root r.addr r.size →
    (NoNx mem root r.addr r.size → ∃ buf', vmmReadLoop mem root fuel r buf = some buf' ∧
      Reads mem root r.addr r.size r.pos buf buf') ∧
    (¬ NoNx mem root r.addr r.size → vmmReadLoop mem root fuel r buf = none)
  | 0, _, _, hf, _, _, _ => by omega
  | fuel + 1, r, buf, hf, hlt, hmapped, hfirst => by
    rcases Nat.eq_zero_or_pos r.size with h0 | hpos
    · rw [readLoop_nothing mem root fuel h0]
      refine ⟨fun _ => ⟨buf, rfl, h0 ▸ Reads.nothing _ _ _ _ _⟩, fun hnot => absurd (fun i hi => ?_) hnot⟩
      omega
    obtain ⟨m, hm⟩ := ne_none_iff_exists'.mp (hmapped 0 hpos)
    rw [show r.addr + BitVec.ofNat 64 0 = r.addr from BitVec.add_zero _] at hm
    have hleaf := (lookup_eq_some.mp hm).1
    have hoff := m.offset_lt r.addr
    rw [readLoop_succ, hleaf, elim_some]
    by_cases hnx : m.entry &&& vmmNx = 0
    · obtain ⟨buf1, hread, hchunk⟩ := read_chunk hm hnx buf
      rw [hread, bind_some]
      by_cases hlast : r.size ≤ m.size - (m.offset r.addr).toNat
      · rw [if_pos hlast]
        rw [Nat.min_eq_left hlast] at hchunk
        refine ⟨fun _ => ⟨buf1, rfl, hchunk⟩, fun hnot => absurd (fun i hi m' hm' => ?_) hnot⟩
        rw [(byteAt_add hm (by omega)).1, some.injEq] at hm'
        rwa [← hm']
      · -- the page is read from its front to its end
        have hzero := (hfirst m hm).resolve_right hlast
        have hwhole : m.size - (m.offset r.addr).toNat = m.size := by rw [hzero]; rfl
        rw [hwhole] at hlast hchunk
        have hsize : m.size ≤ r.size := by omega
        rw [hwhole, if_neg hlast, next_eq hzero hlt hsize]
        rw [Nat.min_eq_right hsize] at hchunk
        have hpage : 0x1000 ≤ m.size := by
          rcases m.size_eq with ⟨-, hs⟩ | ⟨-, hs⟩ <;> omega
        obtain ⟨hgood, hbad⟩ := readLoop_spec fuel
          ⟨r.addr + BitVec.ofNat 64 m.size, r.size - m.size, r.pos + m.size⟩ buf1 (by dsimp only; omega)
          (by dsimp only; omega)
          (fun i hi => by rw [add_ofNat_add]; exact hmapped _ (by dsimp only at hi; omega)) (FirstChunk.next hm hzero _)
        rw [NoNx.next_iff hm hzero hnx hsize]
        refine ⟨fun hno => ?_, hbad⟩
        obtain ⟨buf2, hrest, hreads⟩ := hgood hno
        exact ⟨buf2, hrest, hchunk.append hreads hsize⟩
    · rw [read_nx hm hnx hpos, bind_none]
      refine ⟨fun hno => absurd (hno 0 hpos m ?_) hnx, fun _ => rfl⟩
      rw [show r.addr + BitVec.ofNat 64 0 = r.addr from BitVec.add_zero _]
      exact hm

lemma copyOut_frame {pos n : ℕ} {src : Word} (h : copyOut mem buf pos src n = some buf') {j : ℕ} (hj : j < pos) :
    buf' j = buf j := by
  unfold copyOut at h
  split at h
  · cases h
  · rw [← some.inj h]
    exact if_neg (by omega)

lemma read_some {next : Option ReadAt} (h : m.read mem r buf = some (buf', next)) :
    (∀ j < r.pos, buf' j = buf j) ∧ ∀ r', next = some r' → r'.pos = r.pos + m.size := by
  obtain ⟨buf1, hcopy, ha⟩ := map_eq_some_iff.mp h
  obtain ⟨rfl, rfl⟩ := Prod.mk.inj ha
  refine ⟨fun j hj => copyOut_frame hcopy hj, fun r' hr' => ?_⟩
  split at hr'
  · cases hr'
  · rw [← some.inj hr']

lemma readLoop_frame : ∀ (fuel : ℕ) (r : ReadAt) (buf buf' : ℕ → Byte),
    vmmReadLoop mem root fuel r buf = some buf' → ∀ j < r.pos, buf' j = buf j
  | 0, _, _, _, h, _, _ => by cases h
  | fuel + 1, r, buf, buf', h, j, hj => by
    rw [readLoop_succ] at h
    cases hleaf : leafEntry mem root (vpn r.addr) with
    | none =>
      rw [hleaf] at h
      cases h
      rfl
    | some m =>
      rw [hleaf, elim_some, bind_eq_some_iff] at h
      obtain ⟨⟨buf1, next⟩, hread, h⟩ := h
      obtain ⟨hsame, hnext⟩ := read_some hread
      cases next with
      | none =>
        cases h
        exact hsame j hj
      | some next =>
        have hpos := hnext next rfl
        exact (readLoop_frame fuel next buf1 buf' h j (by omega)).trans (hsame j hj)

lemma readLoop_skips {fuel : ℕ} (h : lookup mem root (vpn r.addr) = some m) (hoff : m.offset r.addr ≠ 0)
    (hsize : m.size - (m.offset r.addr).toNat < r.size) (hrun : vmmReadLoop mem root (fuel + 1) r buf = some buf') :
    buf' (r.pos + (m.size - (m.offset r.addr).toNat)) = buf (r.pos + (m.size - (m.offset r.addr).toNat)) := by
  have hlt := m.offset_lt r.addr
  have hpos : 0 < (m.offset r.addr).toNat := Nat.pos_of_ne_zero fun h0 => hoff (BitVec.eq_of_toNat_eq h0)
  rw [readLoop_succ, (lookup_eq_some.mp h).1, elim_some] at hrun
  by_cases hnx : m.entry &&& vmmNx = 0
  · obtain ⟨buf1, hread, hchunk⟩ := read_chunk h hnx buf
    rw [hread, if_neg (by omega), bind_some] at hrun
    rw [readLoop_frame fuel _ buf1 buf' hrun _ (by dsimp only; omega)]
    exact hchunk.frame _ (Or.inr (by omega))
  · rw [read_nx h hnx (by omega)] at hrun
    cases hrun

lemma vmmRead_eq {st : Vm} (hfree : root ∉ st.held) (addr : Word) (size : ℕ) :
    ∃ fuel, 2 ^ 52 ≤ fuel ∧ ∀ buf, vmmRead root addr size buf st =
      (vmmReadLoop st.mem root (fuel + 1) ⟨addr, size, 0⟩ buf).map fun buf => (buf, st) := by
  have hlock : st.lock root = some { st with held := root :: st.held } := if_neg hfree
  have hunlock : Vm.unlock { st with held := root :: st.held } root = st := by
    rw [Vm.unlock, List.erase_cons_head]
  refine ⟨2 ^ 52 + 1, by omega, fun buf => ?_⟩
  rw [vmmRead, hlock, bind_some, hunlock]

/-- **`vmm_read` reads a mapped range**, whatever the buffer holds, exactly if the range
starts with its first page or ends in it, and no page of it has the `NX` bit. -/
theorem read_range (st : Vm) (root addr : Word) (size : ℕ) (hfree : root ∉ st.held) (hlt : size < 2 ^ 64)
    (hmapped : ∀ i < size, lookup st.mem root (vpn (addr + BitVec.ofNat 64 i)) ≠ none) :
    (∀ buf, ∃ buf', vmmRead root addr size buf st = some (buf', st) ∧
      (∀ i < size, byteAt st.mem root (addr + BitVec.ofNat 64 i) = some (buf' i)) ∧ ∀ j, size ≤ j → buf' j = buf j) ↔
      FirstChunk st.mem root addr size ∧ NoNx st.mem root addr size := by
  obtain ⟨fuel, hfuel, hcall⟩ := vmmRead_eq hfree addr size
  have hrounds : size / 0x1000 < fuel + 1 := by omega
  constructor
  · intro hall
    have hfirst : FirstChunk st.mem root addr size := by
      intro m hm
      by_contra hnot
      rw [not_or, Nat.not_le] at hnot
      obtain ⟨hoff, hsize⟩ := hnot
      -- a buffer that holds another byte than the one to be read behind the chunk
      obtain ⟨m', hm'⟩ := ne_none_iff_exists'.mp (hmapped _ hsize)
      generalize hb : physByte st.mem (m'.phys (addr + BitVec.ofNat 64 (m.size - (m.offset addr).toNat))) = b
      obtain ⟨buf', hret, hread, -⟩ := hall fun _ => ~~~b
      rw [hcall, map_eq_some_iff] at hret
      obtain ⟨buf'', hloop, hbuf⟩ := hret
      obtain rfl := (Prod.mk.inj hbuf).1
      have hskip := readLoop_skips (r := ⟨addr, size, 0⟩) hm hoff hsize hloop
      have hbyte := hread _ hsize
      rw [byteAt, hm', map_some, hb, some.injEq] at hbyte
      rw [Nat.zero_add] at hskip
      rw [hskip] at hbyte
      have hne : ∀ b : Byte, b ≠ ~~~b := by decide
      exact hne b hbyte
    refine ⟨hfirst, ?_⟩
    by_contra hnx
    obtain ⟨buf', hret, -⟩ := hall fun _ => 0
    rw [hcall, (readLoop_spec (fuel + 1) ⟨addr, size, 0⟩ _ hrounds hlt hmapped hfirst).2 hnx] at hret
    cases hret
  · rintro ⟨hfirst, hnx⟩ buf
    obtain ⟨buf', hloop, hreads⟩ := (readLoop_spec (fuel + 1) ⟨addr, size, 0⟩ buf hrounds hlt hmapped hfirst).1 hnx
    refine ⟨buf', by rw [hcall, hloop]; rfl, fun i hi => ?_, fun j hj => ?_⟩
    · have h := hreads.read i hi
      rwa [Nat.zero_add] at h
    · exact hreads.frame j (Or.inr (by rwa [Nat.zero_add]))

theorem read_range_two : ∃ st, run (MapOp.step eightPages 0x1000) emptyVm [twoPages] = some st ∧
    ∀ buf, ∃ buf', vmmRead 0x1000 0x1FF800 4 buf st = some (buf', st) ∧
      (∀ i < 4, byteAt st.mem 0x1000 (0x1FF800 + BitVec.ofNat 64 i) = some (buf' i)) ∧ ∀ j, 4 ≤ j → buf' j = buf j := by
  obtain ⟨st, hrun, hfree, hfirst⟩ : ∃ st, run (MapOp.step eightPages 0x1000) emptyVm [twoPages] = some st ∧
      (0x1000 : Word) ∉ st.held ∧ lookup st.mem 0x1000 (vpn 0x1FF800) = some ⟨0xA003, false⟩ :=
    exists_run _ (by decide +kernel)
  have hsize : (Mapping.offset ⟨0xA003, false⟩ 0x1FF800).toNat + 4 ≤ Mapping.size ⟨0xA003, false⟩ := by decide
  have hlookup : ∀ i < 4, lookup st.mem 0x1000 (vpn (0x1FF800 + BitVec.ofNat 64 i)) = some ⟨0xA003, false⟩ :=
    fun i hi => (byteAt_add hfirst (by omega)).1
  refine ⟨st, hrun, (read_range st 0x1000 0x1FF800 4 hfree (by decide) fun i hi h => ?_).mpr
    ⟨fun m hm => ?_, fun i hi m hm => ?_⟩⟩
  · rw [hlookup i hi] at h
    cases h
  · rw [hfirst, some.injEq] at hm
    rw [← hm]
    exact Or.inr (by decide)
  · rw [hlookup i hi, some.injEq] at hm
    rw [← hm]
    decide

/-- Two pages are mapped, to memory full of zeros. Of the 4 KiB from the middle of the
first on, the second half does not come to the buffer. -/
theorem read_skips_bytes : ∃ st, run (MapOp.step eightPages 0x1000) emptyVm [.map 0x1000 0xA000 2 3] = some st ∧
    lookup st.mem 0x1000 (vpn 0x1800) = some ⟨0xA003, false⟩ ∧
    lookup st.mem 0x1000 (vpn 0x2000) = some ⟨0xB003, false⟩ ∧ byteAt st.mem 0x1000 0x2000 = some 0 ∧
    (vmmRead 0x1000 0x1800 0x1000 (fun _ => 0xFF) st).map (fun r => (r.1 0x7FF, r.1 0x800)) = some (0, 0xFF) :=
  exists_run _ (by decide +kernel)

end WivOS.Vmm
