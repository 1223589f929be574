/-
# Directories on a FAT32 volume

A directory is a chain of clusters with the entries of its items: deleted entries, and files with the parts of a long
name, last part first, in front of the entry itself. The loop of `Fs/Fat32.lean` goes over them up to the first
cluster it cannot leave: at its end it looks at the 32 bytes behind it, and stops if they start with a zero.
-/
import WivOS.Fs.Fat32

namespace WivOS.Fat32

open Function List Loop Option

/-! ### The entries of a directory -/

def partCount (s : Bytes) : ℕ := (s.length + 12) / 13

def filled (s : Bytes) (k : ℕ) : UInt8 := (s ++ [0]).getD k 0xFF

/-- `parts` are the entries of the long name `s`: the last part first, each with its number
(and 0x40 on the last), and thirteen characters of the name. -/
structure LongName (s : Bytes) (parts : List Entry) : Prop where
  nonempty : s ≠ []
  length : s.length ≤ 255
  clean : 0 ∉ s
  count : parts.length = partCount s
  order : ∀ j e, parts[j]? = some e → e 0 = UInt8.ofNat (partCount s - j) ||| (if j = 0 then 0x40 else 0)
  kind : ∀ e ∈ parts, attributeOf e = 0x0F
  chars : ∀ j e, parts[j]? = some e → ∀ k < 13, (partChars e)[k]? = some (filled s (13 * (partCount s - j - 1) + k))

structure Record where
  long : Option Bytes
  parts : List Entry
  short : Entry

structure Record.Good (r : Record) : Prop where
  unnamed : r.long = none → r.parts = []
  named : ∀ s, r.long = some s → LongName s r.parts
  used : r.short 0 ≠ 0
  kept : r.short 0 ≠ 0xE5
  ends : attributeOf r.short ≠ 0x0F

inductive Item where
  | deleted (e : Entry)
  | file (r : Record)

def Item.slots : Item → List Entry
  | .deleted e => [e]
  | .file r => r.parts ++ [r.short]

def Item.Good : Item → Prop
  | .deleted e => e 0 = 0xE5
  | .file r => r.Good

def slotCount (items : List Item) : ℕ := (items.flatMap Item.slots).length

structure Dir where
  chain : List ℕ
  items : List Item

def Dir.slots (d : Dir) : List Entry := d.items.flatMap Item.slots

/-- Directory `d` is stored on the volume, from `cluster` on. The links are the lower 28 bits
of the table. The entries end with a zero byte or with the chain. -/
structure Stored (v : Volume) (cluster : ℕ) (d : Dir) : Prop where
  size : 0 < v.sectorsPerCluster
  start : d.chain[0]? = some cluster
  valid : ∀ x ∈ d.chain, 2 ≤ x ∧ x < 0x0FFFFFF8 ∧ x < v.fatLength / 4
  next : ∀ t x y, d.chain[t]? = some x → d.chain[t + 1]? = some y → v.fat x % 2 ^ 28 = y
  last : ∀ t x, d.chain[t]? = some x → d.chain[t + 1]? = none → 0x0FFFFFF8 ≤ v.fat x % 2 ^ 28
  slots : ∀ p e, d.slots[p]? = some e → ∃ x, d.chain[p / v.slots]? = some x ∧ v.disk (v.address x (p % v.slots)) = e
  ended : ∀ x, d.chain[d.slots.length / v.slots]? = some x →
    v.disk (v.address x (d.slots.length % v.slots)) 0 = 0
  good : ∀ item ∈ d.items, item.Good

/-- The loop gets from cluster `t` of the directory to the next one: what lies behind the
cluster on the disk does not start with a zero byte, and the link has its upper bits clear. -/
def Crossable (v : Volume) (d : Dir) (t : ℕ) : Prop :=
  ∀ x y, d.chain[t]? = some x → d.chain[t + 1]? = some y → v.disk (v.address x v.slots) 0 ≠ 0 ∧ v.fat x = y

/-- The loop gets to entry `p` of the directory. -/
def Reached (v : Volume) (d : Dir) (p : ℕ) : Prop := ∀ t, (t + 1) * v.slots ≤ p → Crossable v d t

variable {st : NameBuffer × Bool} {e : Entry} {p j x t : ℕ} {r : Record} {d : Dir} {pre rest : List Item}
  {name0 : NameBuffer}

lemma Reached.mono {v : Volume} {q : ℕ} (h : Reached v d q) (hpq : p ≤ q) : Reached v d p :=
  fun t ht => h t (Nat.le_trans ht hpq)

lemma Stored.slots_pos {v : Volume} {c : ℕ} (h : Stored v c d) : 0 < v.slots :=
  Nat.mul_pos h.size (by decide)

/-! ### Reading a long name -/

def collect : List Entry → NameBuffer × Bool → Option (NameBuffer × Bool)
  | [], st => some st
  | e :: parts, st => (longFileName e st.1 st.2).bind (collect parts)

lemma order_byte : ∀ k < 21, 0 < k → ∀ last : Bool,
    ((UInt8.ofNat k ||| (if last then 0x40 else 0)) &&& 0x1F) - 1 = UInt8.ofNat (k - 1) ∧
    ((UInt8.ofNat k ||| (if last then 0x40 else 0)) &&& 0x40 ≠ 0 ↔ last = true) ∧
    (UInt8.ofNat k ||| (if last then 0x40 else 0)) ≠ 0 ∧ (UInt8.ofNat k ||| (if last then 0x40 else 0)) ≠ 0xE5 := by
  decide

lemma partCount_bounds {s : Bytes} (hne : s ≠ []) (hlen : s.length ≤ 255) : 0 < partCount s ∧ partCount s < 21 := by
  have hpos := length_pos_iff.mpr hne
  unfold partCount
  omega

lemma LongName.order_byte {s : Bytes} {parts : List Entry} (h : LongName s parts) (hj : parts[j]? = some e) :
    j < partCount s ∧ ((e 0 &&& 0x1F) - 1).toNat = partCount s - j - 1 ∧ (e 0 &&& 0x40 ≠ 0 ↔ j = 0) ∧ e 0 ≠ 0 ∧
      e 0 ≠ 0xE5 := by
  obtain ⟨hpos, hlt⟩ := partCount_bounds h.nonempty h.length
  have hjlt : j < partCount s := by
    rw [← h.count]
    exact (List.getElem?_eq_some_iff.mp hj).1
  obtain ⟨hindex, hlast, hne, hkept⟩ := Fat32.order_byte (partCount s - j) (by omega) (by omega) (decide (j = 0))
  have horder := h.order j e hj
  rw [show (if j = 0 then (0x40 : UInt8) else 0) = (if decide (j = 0) = true then 0x40 else 0) by simp] at horder
  rw [← horder] at hindex hlast hne hkept
  refine ⟨hjlt, ?_, by rw [hlast, decide_eq_true_eq], hne, hkept⟩
  rw [hindex, UInt8.toNat_ofNat']
  omega

structure Collected (s : Bytes) (name₀ : NameBuffer) (j : ℕ) (st : NameBuffer × Bool) : Prop where
  ready : st.2 = true
  chars : ∀ k, 13 * (partCount s - j) ≤ k → k < 13 * partCount s → st.1 k = some (filled s k)
  rest : ∀ k, 13 * partCount s ≤ k → st.1 k = if k = 14 * (partCount s - 1) then some 0 else name₀ k

lemma writeName_part (name : NameBuffer) (offset : ℕ) (e : Entry) (k : ℕ) : writeName name offset (partChars e) k =
    if offset ≤ k ∧ k < offset + 13 then (partChars e)[k - offset]? else name k := rfl

lemma LongName.read {s : Bytes} {parts : List Entry} (h : LongName s parts) (hj : parts[j]? = some e)
    (name : NameBuffer) (ready : Bool) : longFileName e name ready =
      some (writeName (if j = 0 then update name (14 * (partCount s - 1)) (some 0) else name)
        (13 * (partCount s - j - 1)) (partChars e), j = 0 || ready) := by
  obtain ⟨hpos, hlt⟩ := partCount_bounds h.nonempty h.length
  obtain ⟨hjlt, hnat, hlast, -, -⟩ := h.order_byte hj
  simp only [longFileName, hnat]
  rw [if_neg (by omega)]
  by_cases hj0 : j = 0
  · subst hj0
    rw [if_pos (hlast.mpr rfl), if_pos rfl]
    simp only [Nat.sub_zero, Nat.mul_comm _ 14, Nat.mul_comm _ 13, decide_true, Bool.true_or]
  · rw [if_neg (fun hne => hj0 (hlast.mp hne)), if_neg hj0]
    simp only [Nat.mul_comm _ 13, hj0, decide_false, Bool.false_or]

lemma Collected.part {s : Bytes} {parts : List Entry} (h : LongName s parts)
    (hj : parts[j]? = some e) (hst : if j = 0 then st.1 = name0 else Collected s name0 j st) :
    ∃ st', longFileName e st.1 st.2 = some st' ∧ Collected s name0 (j + 1) st' := by
  have hjlt : j < partCount s := by
    rw [← h.count]
    exact (List.getElem?_eq_some_iff.mp hj).1
  have hchars := h.chars j e hj
  refine ⟨_, h.read hj st.1 st.2, ?_, fun k hk hlt => ?_, fun k hk => ?_⟩
  · by_cases hj0 : j = 0
    · simp [hj0]
    · rw [if_neg hj0] at hst
      simp [hst.ready]
  · -- in the new part, or in one that was read before
    dsimp only
    rw [writeName_part]
    by_cases hnew : 13 * (partCount s - j - 1) ≤ k ∧ k < 13 * (partCount s - j - 1) + 13
    · rw [if_pos hnew, hchars (k - 13 * (partCount s - j - 1)) (by omega)]
      congr 2
      omega
    · rw [if_neg hnew]
      by_cases hj0 : j = 0
      · omega
      · rw [if_neg hj0] at hst
        rw [if_neg hj0]
        exact hst.chars k (by omega) hlt
  · dsimp only
    rw [writeName_part, if_neg (by omega)]
    by_cases hj0 : j = 0
    · rw [if_pos hj0] at hst
      rw [if_pos hj0, hst, update_apply]
    · rw [if_neg hj0] at hst
      rw [if_neg hj0]
      exact hst.rest k hk

lemma collect_from {s : Bytes} {parts : List Entry} (h : LongName s parts) (name0 : NameBuffer) :
    ∀ (rest : List Entry) (j : ℕ) (st : NameBuffer × Bool), parts.drop j = rest → j + rest.length = partCount s →
    (if j = 0 then st.1 = name0 else Collected s name0 j st) →
    ∃ st', collect rest st = some st' ∧ (if partCount s = 0 then st'.1 = name0 else Collected s name0 (partCount s) st')
  | [], j, st, _, hj, hst => by
    rw [length_nil, Nat.add_zero] at hj
    subst hj
    exact ⟨st, rfl, hst⟩
  | e :: rest, j, st, hdrop, hj, hst => by
    have he : parts[j]? = some e := by
      rw [← head?_drop, hdrop]
      rfl
    obtain ⟨st1, hread, hst1⟩ := Collected.part h he hst
    have hdrop1 : parts.drop (j + 1) = rest := by
      rw [← drop_drop, hdrop]
      rfl
    obtain ⟨st', hcollect, hst'⟩ := collect_from h name0 rest (j + 1) st1 hdrop1
      (by rw [← hj, length_cons]; omega) (by rw [if_neg (Nat.succ_ne_zero j)]; exact hst1)
    refine ⟨st', ?_, hst'⟩
    rw [collect, hread]
    exact hcollect

/-- **The parts of a long name** leave it in the buffer. -/
lemma collect_longName {s : Bytes} {parts : List Entry} (h : LongName s parts) (name0 : NameBuffer) (ready0 : Bool) :
    ∃ st, collect parts (name0, ready0) = some st ∧ Collected s name0 (partCount s) st := by
  obtain ⟨st, hst, hcol⟩ := collect_from h name0 parts 0 (name0, ready0) rfl
    (by rw [Nat.zero_add]; exact h.count) (by rw [if_pos rfl])
  rw [if_neg (Nat.pos_iff_ne_zero.mp (partCount_bounds h.nonempty h.length).1)] at hcol
  exact ⟨st, hst, hcol⟩

/-- The code ends the name `s` with a zero of its own: its length is no multiple of
thirteen, or it is 182, where `index * 14` happens to be the place. -/
def Terminated (s : Bytes) : Prop := s.length % 13 ≠ 0 ∨ s.length = 182

instance (s : Bytes) : Decidable (Terminated s) := inferInstanceAs (Decidable (_ ∨ _))

/-- The buffer spells `s`. -/
def Spells (name : NameBuffer) (s : Bytes) : Prop := ∀ k b, (s ++ [0])[k]? = some b → name k = some b

lemma Collected.spells {s : Bytes} (hne : s ≠ []) (h : Collected s name0 (partCount s) st)
    (hterm : Terminated s ∨ name0 s.length = some 0) : Spells st.1 s := by
  have hpos := length_pos_iff.mpr hne
  have hcount : s.length ≤ 13 * partCount s ∧ 13 * partCount s < s.length + 13 := by
    unfold partCount
    omega
  have hfilled : ∀ k < 13 * partCount s, st.1 k = some (filled s k) := fun k hk => h.chars k (by omega) hk
  intro k b hk
  have hkb : filled s k = b := by
    rw [filled, getD_eq_getElem?_getD, hk]
    rfl
  have hkl : k < s.length + 1 := by
    have hlt := (List.getElem?_eq_some_iff.mp hk).1
    rwa [length_append] at hlt
  by_cases hin : k < 13 * partCount s
  · rw [hfilled k hin, hkb]
  · -- the name fills its parts, and `k` is the byte behind it
    have hks : k = s.length := by omega
    subst hks
    rw [getElem?_append_right (Nat.le_refl _), Nat.sub_self] at hk
    cases hk
    rw [h.rest _ (by omega)]
    split
    · rfl
    · rcases hterm with (hmod | h182) | hzero
      · omega
      · omega
      · exact hzero

lemma Collected.unspelled {s : Bytes} (hne : s ≠ []) (h : Collected s unsetName (partCount s) st)
    (hterm : ¬ Terminated s) : (∀ k < s.length, st.1 k = s[k]?) ∧ st.1 s.length = none := by
  have hpos := length_pos_iff.mpr hne
  have hcount : s.length = 13 * partCount s := by
    unfold partCount
    unfold Terminated at hterm
    omega
  constructor
  · intro k hk
    rw [h.chars k (by omega) (by omega), filled, getD_eq_getElem?_getD, getElem?_append_left hk,
      getElem?_eq_getElem hk]
    rfl
  · rw [h.rest _ (by omega), if_neg]
    · rfl
    · unfold Terminated at hterm
      omega

lemma Spells.nameEq {name : NameBuffer} {s q : Bytes} (h : Spells name s) (hs : 0 ∉ s) (hq : 0 ∉ q) :
    nameEq name q = true ↔ q = s := by
  rw [nameEq_iff]
  constructor
  · intro hname
    -- up to the first zero of either, both are what the buffer holds
    have hagree : ∀ (k : ℕ) (b c : UInt8), (q ++ [0])[k]? = some b → (s ++ [0])[k]? = some c → b = c := by
      intro k b c hb hc
      exact some.inj ((hname k b hb).symm.trans (h k c hc))
    have hend : ∀ l : Bytes, (l ++ [0])[l.length]? = some 0 := fun l => by
      rw [getElem?_append_right (Nat.le_refl _), Nat.sub_self]
      rfl
    have hin : ∀ (l : Bytes) (k : ℕ) (hk : k < l.length), (l ++ [0])[k]? = some (l.get ⟨k, hk⟩) := fun l k hk => by
      rw [getElem?_append_left hk, getElem?_eq_getElem hk]
      rfl
    have hlen : q.length = s.length := by
      rcases Nat.lt_trichotomy q.length s.length with hlt | heq | hgt
      · have hz := hagree q.length _ _ (hend q) (hin s _ hlt)
        exact absurd (hz ▸ get_mem s ⟨_, hlt⟩) hs
      · exact heq
      · have hz := hagree s.length _ _ (hin q _ hgt) (hend s)
        exact absurd (hz ▸ get_mem q ⟨_, hgt⟩) hq
    refine ext_get hlen fun k hk hk' => ?_
    exact hagree k _ _ (hin q k hk) (hin s k hk')
  · rintro rfl
    exact h

/-! ### Going over a directory -/

def At (v : Volume) (d : Dir) (p : ℕ) (s : Cursor) : Prop :=
  (d.chain[p / v.slots]? = some s.cluster ∧ s.i = p % v.slots ∧ Reached v d p) ∨
  ∃ t, p = (t + 1) * v.slots ∧ d.chain[t]? = some s.cluster ∧ s.i = v.slots ∧ ∀ u < t, Crossable v d u

def On (v : Volume) (d : Dir) (p : ℕ) (s : Cursor) : Prop := d.chain[p / v.slots]? = some s.cluster ∧ s.i = p % v.slots

section Scan

variable {ρ : Type*} {v : Volume} {c : ℕ} {d : Dir} {finish : ρ} {cross : Cursor → Round Cursor ρ}
  {short : Cursor → Entry → Round Cursor ρ} {s : Cursor}

lemma readFatEntry_chain (hd : Stored v c d) (hx : x ∈ d.chain) (i : ℕ) :
    v.readFatEntry x i = if v.disk (v.address x i) 0 = 0 then none else some (v.disk (v.address x i)) := by
  obtain ⟨h2, hmax, -⟩ := hd.valid x hx
  rw [Volume.readFatEntry, if_neg (by omega)]

lemma scanRound_none (h : v.readFatEntry s.cluster s.i = none) :
    scanRound v finish cross short s = .done finish := by
  simp only [scanRound, h]

lemma getNextCluster_chain (hd : Stored v c d) {y : ℕ} (hx : d.chain[t]? = some x) (hy : d.chain[t + 1]? = some y) :
    v.getNextCluster x = if v.fat x = y then y else 0 := by
  obtain ⟨-, -, hlen⟩ := hd.valid x (mem_of_getElem? hx)
  obtain ⟨-, hmax, -⟩ := hd.valid y (mem_of_getElem? hy)
  have hnext := hd.next t x y hx hy
  rw [Volume.getNextCluster, if_neg (by omega)]
  by_cases hfat : v.fat x = y
  · rw [if_pos hfat, if_neg (by omega), hfat]
  · rw [if_neg hfat, if_pos (by omega)]

lemma getNextCluster_last (hd : Stored v c d) (hx : d.chain[t]? = some x) (hy : d.chain[t + 1]? = none) :
    v.getNextCluster x = 0 := by
  obtain ⟨-, -, hlen⟩ := hd.valid x (mem_of_getElem? hx)
  have hlast := hd.last t x hx hy
  rw [Volume.getNextCluster, if_neg (by omega), if_pos (by omega)]

lemma Stored.start_at (hd : Stored v c d) (hc : s.cluster = c) (hi : s.i = 0) : At v d 0 s := by
  refine Or.inl ⟨?_, ?_, fun t ht => ?_⟩
  · rw [Nat.zero_div, hc]
    exact hd.start
  · rw [Nat.zero_mod, hi]
  · have hpos : 0 < (t + 1) * v.slots := Nat.mul_pos (Nat.succ_pos t) hd.slots_pos
    exact absurd ht (Nat.not_le.mpr hpos)

variable (hcross : ∀ s, cross s = .next s ∨ (s.cluster = 0 ∧ cross s = .done finish))
include hcross

lemma ends_cross (hs : s.cluster ≠ 0) {r : ρ} :
    After (scanRound v finish cross short) (cross s) r ↔ Ends (scanRound v finish cross short) s r := by
  rcases hcross s with h | ⟨h, -⟩
  · rw [h]
    rfl
  · exact absurd h hs

lemma ends_cross_zero (hs : s.cluster = 0) {r : ρ} :
    After (scanRound v finish cross short) (cross s) r ↔ r = finish := by
  rcases hcross s with h | ⟨-, h⟩
  · have hnone : v.readFatEntry s.cluster s.i = none := by
      rw [hs, Volume.readFatEntry, if_pos (by omega)]
    rw [h]
    exact ends_done (scanRound_none hnone)
  · rw [h]
    rfl

lemma ends_boundary (hd : Stored v c d) (hx : d.chain[t]? = some s.cluster) (hi : s.i = v.slots)
    (r : ρ) : Ends (scanRound v finish cross short) s r ↔ (Crossable v d t ∧ ∃ y, d.chain[t + 1]? = some y ∧
        Ends (scanRound v finish cross short) { s with cluster := y, i := 0 } r) ∨
      ((¬ Crossable v d t ∨ d.chain[t + 1]? = none) ∧ r = finish) := by
  have hread := readFatEntry_chain hd (mem_of_getElem? hx) v.slots
  cases hy : d.chain[t + 1]? with
  | none =>
    have hfinish : Ends (scanRound v finish cross short) s r ↔ r = finish := by
      by_cases hzero : v.disk (v.address s.cluster v.slots) 0 = 0
      · rw [if_pos hzero] at hread
        exact ends_done (scanRound_none (by rw [hi]; exact hread))
      · rw [if_neg hzero] at hread
        rw [ends_iff]
        simp only [scanRound, hi, hread, if_true]
        exact ends_cross_zero hcross (getNextCluster_last hd hx hy)
    simp [hfinish]
  | some y =>
    have hnext := getNextCluster_chain hd hx hy
    have hy0 : y ≠ 0 := by
      obtain ⟨h2, -⟩ := hd.valid y (mem_of_getElem? hy)
      omega
    by_cases hok : v.disk (v.address s.cluster v.slots) 0 ≠ 0 ∧ v.fat s.cluster = y
    · have hcr : Crossable v d t := by
        intro x' y' hx' hy'
        rw [hx] at hx'
        rw [hy] at hy'
        cases hx'
        cases hy'
        exact hok
      rw [if_neg hok.1] at hread
      rw [if_pos hok.2] at hnext
      rw [ends_iff]
      simp only [scanRound, hi, hread, if_true, hnext]
      rw [ends_cross hcross hy0]
      simp [hcr]
    · have hcr : ¬ Crossable v d t := fun h => hok (h _ _ hx hy)
      have hfinish : Ends (scanRound v finish cross short) s r ↔ r = finish := by
        by_cases hzero : v.disk (v.address s.cluster v.slots) 0 = 0
        · rw [if_pos hzero] at hread
          exact ends_done (scanRound_none (by rw [hi]; exact hread))
        · rw [if_neg hzero] at hread
          rw [if_neg (fun hfat => hok ⟨hzero, hfat⟩)] at hnext
          rw [ends_iff]
          simp only [scanRound, hi, hread, if_true, hnext]
          exact ends_cross_zero hcross rfl
      simp [hfinish, hcr]

omit hcross in
lemma On.next (hd : Stored v c d) (h : On v d p s) (hr : Reached v d p) (name : NameBuffer)
    (ready : Bool) : At v d (p + 1) { s with i := s.i + 1, name, ready } := by
  obtain ⟨hx, hi⟩ := h
  have hN := hd.slots_pos
  have hdiv := Nat.div_add_mod p v.slots
  have hmod := Nat.mod_lt p hN
  by_cases hend : p % v.slots + 1 = v.slots
  · refine Or.inr ⟨p / v.slots, ?_, hx, ?_, fun u hu => hr u ?_⟩
    · rw [Nat.succ_mul, Nat.mul_comm]
      omega
    · exact (congrArg (· + 1) hi).trans hend
    · have hle : (u + 1) * v.slots ≤ p / v.slots * v.slots := Nat.mul_le_mul_right _ hu
      rw [Nat.mul_comm (p / v.slots)] at hle
      omega
  · have hq : (p + 1) / v.slots = p / v.slots := by
      rw [Nat.succ_div_of_not_dvd]
      intro hdvd
      have hzero := Nat.mod_eq_zero_of_dvd hdvd
      rw [Nat.add_mod, Nat.mod_eq_of_lt (by omega : 1 < v.slots), Nat.mod_eq_of_lt (by omega)] at hzero
      omega
    have hm : (p + 1) % v.slots = p % v.slots + 1 := by
      rw [Nat.add_mod, Nat.mod_eq_of_lt (by omega : 1 < v.slots), Nat.mod_eq_of_lt (by omega)]
    refine Or.inl ⟨?_, ?_, fun t ht => hr t ?_⟩
    · rw [hq]
      exact hx
    · rw [hm]
      exact congrArg (· + 1) hi
    · by_contra hlt
      have heq : (t + 1) * v.slots = p + 1 := by omega
      rw [← heq, Nat.mul_mod_left] at hm
      omega

lemma At.on (hd : Stored v c d) (h : At v d p s) (hr : Reached v d p) (he : d.slots[p]? = some e) :
    ∃ x i, On v d p { s with cluster := x, i := i } ∧
      ∀ r, Ends (scanRound v finish cross short) s r ↔
        Ends (scanRound v finish cross short) { s with cluster := x, i := i } r := by
  rcases h with ⟨hx, hi, -⟩ | ⟨t, hp, hx, hi, -⟩
  · exact ⟨s.cluster, s.i, ⟨hx, hi⟩, fun r => Iff.rfl⟩
  · obtain ⟨y, hy, -⟩ := hd.slots p e he
    have hdiv : p / v.slots = t + 1 := by
      rw [hp, Nat.mul_div_cancel _ hd.slots_pos]
    have hmod : p % v.slots = 0 := by
      rw [hp, Nat.mul_mod_left]
    have hcr := hr t (Nat.le_of_eq hp.symm)
    refine ⟨y, 0, ⟨hy, hmod.symm⟩, fun r => ?_⟩
    rw [hdiv] at hy
    rw [ends_boundary hcross hd hx hi r]
    simp [hcr, hy]

lemma At.blocked (hd : Stored v c d) (h : At v d p s) (hr : ¬ Reached v d p) (r : ρ) :
    Ends (scanRound v finish cross short) s r ↔ r = finish := by
  rcases h with ⟨-, -, hreach⟩ | ⟨t, hp, hx, hi, hbefore⟩
  · exact absurd hreach hr
  · have hcr : ¬ Crossable v d t := by
      intro hcr
      refine hr fun u hu => ?_
      rw [hp] at hu
      have hut : u + 1 ≤ t + 1 := Nat.le_of_mul_le_mul_right hu hd.slots_pos
      rcases Nat.lt_or_eq_of_le hut with hlt | heq
      · exact hbefore u (by omega)
      · rw [Nat.succ.inj heq]
        exact hcr
    rw [ends_boundary hcross hd hx hi r]
    simp [hcr]

lemma At.ended (hd : Stored v c d) (h : At v d d.slots.length s) (r : ρ) :
    Ends (scanRound v finish cross short) s r ↔ r = finish := by
  have hover : ∀ s' : Cursor, d.chain[d.slots.length / v.slots]? = some s'.cluster → s'.i = d.slots.length % v.slots →
      (Ends (scanRound v finish cross short) s' r ↔ r = finish) := by
    intro s' hx hi
    refine ends_done (scanRound_none ?_)
    rw [readFatEntry_chain hd (mem_of_getElem? hx), hi, if_pos (hd.ended _ hx)]
  rcases h with ⟨hx, hi, -⟩ | ⟨t, hp, hx, hi, -⟩
  · exact hover s hx hi
  · rw [ends_boundary hcross hd hx hi r]
    have hdiv : d.slots.length / v.slots = t + 1 := by
      rw [hp, Nat.mul_div_cancel _ hd.slots_pos]
    have hmod : d.slots.length % v.slots = 0 := by
      rw [hp, Nat.mul_mod_left]
    constructor
    · rintro (⟨-, y, hy, hends⟩ | ⟨-, hr⟩)
      · rw [hover _ (by rw [hdiv]; exact hy) hmod.symm] at hends
        exact hends
      · exact hr
    · intro hr
      by_cases hcr : Crossable v d t
      · cases hy : d.chain[t + 1]? with
        | none => exact Or.inr ⟨Or.inr rfl, hr⟩
        | some y => exact Or.inl ⟨hcr, y, rfl, (hover _ (by rw [hdiv]; exact hy) hmod.symm).mpr hr⟩
      · exact Or.inr ⟨Or.inl hcr, hr⟩

omit hcross in
lemma On.read (hd : Stored v c d) (h : On v d p s) (he : d.slots[p]? = some e) (hused : e 0 ≠ 0) :
    v.readFatEntry s.cluster s.i = some e ∧ s.i ≠ v.slots := by
  obtain ⟨hx, hi⟩ := h
  obtain ⟨x, hx', hdisk⟩ := hd.slots p e he
  rw [hx] at hx'
  cases hx'
  constructor
  · rw [readFatEntry_chain hd (mem_of_getElem? hx), hi, hdisk, if_neg hused]
  · rw [hi]
    exact Nat.ne_of_lt (Nat.mod_lt p hd.slots_pos)

omit hcross in
lemma slot_of_drop {rest : List Entry} (h : d.slots.drop p = e :: rest) : d.slots[p]? = some e := by
  rw [← head?_drop, h]
  rfl

lemma At.deleted (hd : Stored v c d) (h : At v d p s) (hr : Reached v d p) (he : d.slots[p]? = some e)
    (hdel : e 0 = 0xE5) : ∃ s', At v d (p + 1) s' ∧ s'.path = s.path ∧ s'.name = s.name ∧
      s'.ready = s.ready ∧ ∀ r, Ends (scanRound v finish cross short) s r ↔
        Ends (scanRound v finish cross short) s' r := by
  obtain ⟨x, i, hon, hends⟩ := h.on hcross hd hr he
  obtain ⟨hread, hi⟩ := hon.read hd he (by rw [hdel]; decide)
  refine ⟨_, hon.next hd hr s.name s.ready, rfl, rfl, rfl, fun r => (hends r).trans (ends_next ?_)⟩
  simp only [scanRound, hread, if_neg hi, hdel, if_true]

lemma At.parts (hd : Stored v c d) : ∀ (parts rest : List Entry) (p : ℕ) (s : Cursor) (st : NameBuffer × Bool),
    d.slots.drop p = parts ++ rest → (∀ e ∈ parts, e 0 ≠ 0 ∧ e 0 ≠ 0xE5 ∧ attributeOf e = 0x0F) →
    collect parts (s.name, s.ready) = some st → At v d p s →
    (Reached v d (p + parts.length) → ∃ s', At v d (p + parts.length) s' ∧ s'.path = s.path ∧ (s'.name, s'.ready) = st ∧
      ∀ r, Ends (scanRound v finish cross short) s r ↔ Ends (scanRound v finish cross short) s' r) ∧
    (¬ Reached v d (p + parts.length) → ∀ r, Ends (scanRound v finish cross short) s r ↔ r = finish)
  | [], rest, p, s, st, _, _, hcol, h => by
    cases hcol
    exact ⟨fun _ => ⟨s, h, rfl, rfl, fun r => Iff.rfl⟩, fun hr => h.blocked hcross hd hr⟩
  | e :: parts, rest, p, s, st, hdrop, hkind, hcol, h => by
    by_cases hr : Reached v d p
    case neg => exact ⟨fun hr' => absurd (hr'.mono (Nat.le_add_right _ _)) hr, fun _ => h.blocked hcross hd hr⟩
    obtain ⟨hused, hkept, hattr⟩ := hkind e mem_cons_self
    have he : d.slots[p]? = some e := slot_of_drop hdrop
    obtain ⟨x, i, hon, hends⟩ := h.on hcross hd hr he
    obtain ⟨hread, hi⟩ := hon.read hd he hused
    rw [collect] at hcol
    obtain ⟨st1, hlong, hcol1⟩ := bind_eq_some_iff.mp hcol
    have hnext := hon.next hd hr st1.1 st1.2
    have hstep : ∀ r, Ends (scanRound v finish cross short) s r ↔ Ends (scanRound v finish cross short)
        { s with cluster := x, i := i + 1, name := st1.1, ready := st1.2 } r := by
      intro r
      refine (hends r).trans (ends_next ?_)
      simp only [scanRound, hread, if_neg hi, if_neg hkept, if_pos hattr, hlong]
    have hdrop1 : d.slots.drop (p + 1) = parts ++ rest := by
      rw [← drop_drop, hdrop]
      rfl
    obtain ⟨hreach, hblock⟩ := At.parts hd parts rest (p + 1) _ st hdrop1
      (fun e' he' => hkind e' (mem_cons_of_mem e he'))
      hcol1 hnext
    rw [length_cons, ← Nat.add_assoc, Nat.add_right_comm]
    constructor
    · intro hr'
      obtain ⟨s', hat, hpath, hst, hends'⟩ := hreach hr'
      exact ⟨s', hat, hpath, hst, fun r => (hstep r).trans (hends' r)⟩
    · intro hr' r
      exact (hstep r).trans (hblock hr' r)

omit hcross in
lemma Record.Good.parts (h : r.Good) : ∀ e ∈ r.parts, e 0 ≠ 0 ∧ e 0 ≠ 0xE5 ∧ attributeOf e = 0x0F := by
  intro e he
  cases hlong : r.long with
  | none =>
    rw [h.unnamed hlong] at he
    cases he
  | some s =>
    have hL := h.named s hlong
    obtain ⟨j, hj⟩ := mem_iff_getElem?.mp he
    obtain ⟨-, -, -, hne, hkept⟩ := hL.order_byte hj
    exact ⟨hne, hkept, hL.kind e he⟩

lemma At.file (hd : Stored v c d) (hg : r.Good) {rest : List Entry}
    (hdrop : d.slots.drop p = r.parts ++ r.short :: rest) (hcol : collect r.parts (s.name, s.ready) = some st)
    (h : At v d p s) :
    (Reached v d (p + r.parts.length) → ∃ s', On v d (p + r.parts.length) s' ∧ s'.path = s.path ∧
      (s'.name, s'.ready) = st ∧
      ∀ res, Ends (scanRound v finish cross short) s res ↔
        After (scanRound v finish cross short) (short s' r.short) res) ∧
    (¬ Reached v d (p + r.parts.length) → ∀ res, Ends (scanRound v finish cross short) s res ↔ res = finish) := by
  obtain ⟨hreach, hblock⟩ := At.parts hcross hd r.parts (r.short :: rest) p s st hdrop hg.parts hcol h
  refine ⟨fun hr => ?_, hblock⟩
  obtain ⟨s1, hat, hpath, hst, hends⟩ := hreach hr
  have hshort : d.slots.drop (p + r.parts.length) = r.short :: rest := by
    rw [← drop_drop, hdrop, drop_left]
  have he := slot_of_drop hshort
  obtain ⟨x, i, hon, hends'⟩ := hat.on hcross hd hr he
  obtain ⟨hread, hi⟩ := hon.read hd he hg.used
  refine ⟨_, hon, hpath, hst, fun res => (hends res).trans ((hends' res).trans ?_)⟩
  rw [ends_iff]
  simp only [scanRound, hread, if_neg hi, if_neg hg.kept, if_neg hg.ends]

end Scan

/-! ### Items -/

def blank (fresh : Bool) : NameBuffer := if fresh then unsetName else zeroName

def noFile (items : List Item) : Bool := items.all fun
  | .deleted _ => true
  | .file _ => false

def Item.lead : Item → ℕ
  | .deleted _ => 0
  | .file r => r.parts.length

lemma slotCount_append (a b : List Item) : slotCount (a ++ b) = slotCount a + slotCount b := by
  rw [slotCount, flatMap_append, length_append]
  rfl

lemma slotCount_singleton (item : Item) : slotCount [item] = item.lead + 1 := by
  cases item with
  | deleted e => rfl
  | file r =>
    rw [slotCount, flatMap_singleton, Item.slots, length_append]
    rfl

lemma slots_drop (h : d.items = pre ++ rest) :
    d.slots.drop (slotCount pre) = rest.flatMap Item.slots := by
  rw [Dir.slots, h, flatMap_append, slotCount, drop_left]

lemma slots_drop_file (h : d.items = pre ++ .file r :: rest) :
    d.slots.drop (slotCount pre) = r.parts ++ r.short :: rest.flatMap Item.slots := by
  rw [slots_drop h, flatMap_cons, Item.slots, append_assoc]
  rfl

lemma Record.Good.collect (h : r.Good) (name0 : NameBuffer) : ∃ st, collect r.parts (name0, false) = some st ∧
    (r.long = none → st = (name0, false)) ∧ ∀ s, r.long = some s → Collected s name0 (partCount s) st := by
  cases hlong : r.long with
  | none =>
    rw [h.unnamed hlong]
    exact ⟨_, rfl, fun _ => rfl, nofun⟩
  | some s =>
    obtain ⟨st, hst, hcol⟩ := collect_longName (h.named s hlong) name0 false
    refine ⟨st, hst, nofun, fun s' hs' => ?_⟩
    cases hs'
    exact hcol

section Scan

variable {ρ : Type*} {v : Volume} {c : ℕ} {d : Dir} {finish : ρ} {cross : Cursor → Round Cursor ρ}
  {short : Cursor → Entry → Round Cursor ρ}

def PassedBy (short : Cursor → Entry → Round Cursor ρ) (path : Bytes) (fresh : Bool) (r : Record) : Prop :=
  ∀ s st, collect r.parts (blank fresh, false) = some st → s.path = path → (s.name, s.ready) = st →
    short s r.short = .next { s with i := s.i + 1, name := zeroName, ready := false }

variable (hcross : ∀ s, cross s = .next s ∨ (s.cluster = 0 ∧ cross s = .done finish))
include hcross

lemma At.item (hd : Stored v c d) {item : Item} {pre rest : List Item} {fresh : Bool} {s : Cursor}
    (hitems : d.items = pre ++ item :: rest) (h : At v d (slotCount pre) s) (hready : s.ready = false)
    (hname : s.name = blank fresh)
    (hpass : ∀ r, item = .file r → Reached v d (slotCount pre + item.lead) → PassedBy short s.path fresh r) :
    (Reached v d (slotCount pre + item.lead) → ∃ s', At v d (slotCount (pre ++ [item])) s' ∧ s'.path = s.path ∧
      s'.ready = false ∧ s'.name = blank (fresh && noFile [item]) ∧
      ∀ res, Ends (scanRound v finish cross short) s res ↔ Ends (scanRound v finish cross short) s' res) ∧
    (¬ Reached v d (slotCount pre + item.lead) → ∀ res, Ends (scanRound v finish cross short) s res ↔
      res = finish) := by
  have hgood : item.Good := hd.good item (by rw [hitems]; exact mem_append_right _ mem_cons_self)
  rw [slotCount_append, slotCount_singleton, ← Nat.add_assoc]
  cases item with
  | deleted e =>
    refine ⟨fun hr => ?_, fun hr => h.blocked hcross hd hr⟩
    obtain ⟨s', hat, hpath, hname', hready', hends⟩ := h.deleted hcross hd hr (slot_of_drop (slots_drop hitems)) hgood
    refine ⟨s', hat, hpath, hready'.trans hready, ?_, hends⟩
    rw [hname', hname]
    simp [noFile]
  | file r =>
    obtain ⟨st, hcol, -, -⟩ := hgood.collect (blank fresh)
    obtain ⟨hreach, hblock⟩ := h.file hcross hd hgood (slots_drop_file hitems) (by rw [hname, hready]; exact hcol)
    refine ⟨fun hr => ?_, hblock⟩
    obtain ⟨s', hon, hpath, hst, hends⟩ := hreach hr
    have hround := hpass r rfl hr s' st hcol hpath hst
    refine ⟨_, hon.next hd hr zeroName false, hpath, rfl, ?_, fun res => ?_⟩
    · simp [noFile, blank]
    · rw [hends res, hround]
      rfl

lemma pass_items (hd : Stored v c d) : ∀ (mid pre rest : List Item) (fresh : Bool) (s : Cursor),
    d.items = pre ++ (mid ++ rest) → At v d (slotCount pre) s → s.ready = false → s.name = blank fresh →
    (∀ before r after, mid = before ++ .file r :: after → PassedBy short s.path (fresh && noFile before) r) →
    Reached v d (slotCount (pre ++ mid)) →
    ∃ s', At v d (slotCount (pre ++ mid)) s' ∧ s'.path = s.path ∧ s'.ready = false ∧
      s'.name = blank (fresh && noFile mid) ∧
      ∀ res, Ends (scanRound v finish cross short) s res ↔ Ends (scanRound v finish cross short) s' res
  | [], pre, rest, fresh, s, _, h, hready, hname, _, _ => by
    refine ⟨s, ?_, rfl, hready, ?_, fun res => Iff.rfl⟩
    · rw [append_nil]
      exact h
    · rw [hname]
      simp [noFile]
  | item :: mid, pre, rest, fresh, s, hitems, h, hready, hname, hpass, hr => by
    have hsplit : pre ++ item :: mid = (pre ++ [item]) ++ mid := by simp
    have hr1 : Reached v d (slotCount pre + item.lead) := by
      refine hr.mono ?_
      rw [hsplit, slotCount_append, slotCount_append, slotCount_singleton]
      omega
    obtain ⟨s1, h1, hpath1, hready1, hname1, hends1⟩ := (h.item hcross hd hitems hready hname (fun r hr' _ => by
      have := hpass [] r mid (by rw [hr']; rfl)
      simpa [noFile] using this)).1 hr1
    have hitems1 : d.items = (pre ++ [item]) ++ (mid ++ rest) := by
      rw [hitems]
      simp
    rw [hsplit] at hr ⊢
    obtain ⟨s', h', hpath', hready', hname', hends'⟩ :=
      pass_items hd mid (pre ++ [item]) rest _ s1 hitems1 h1 hready1 hname1 (fun before r after hmid => by
        have := hpass (item :: before) r after (by rw [hmid]; rfl)
        rw [hpath1]
        simpa [noFile, Bool.and_assoc] using this) hr
    refine ⟨s', h', hpath'.trans hpath1, hready', ?_, fun res => (hends1 res).trans (hends' res)⟩
    rw [hname']
    simp [noFile, Bool.and_assoc]

end Scan

end WivOS.Fat32
