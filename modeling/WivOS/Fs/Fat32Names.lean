/-
# The name buffers of the FAT32 directory functions

`fat32_finddir` and `fat32_readdir` put the parts of a long name into `entry_name`, 512 bytes, at offsets computed from
a byte of the disk, and `fat32_readdir` copies the result to `d_name`, 1024 bytes. The stores stay in the buffers
exactly if every part has a number, a long name that is copied has a terminator, and an entry without one has a
character in its field, or the search below it ends right before it (`names_in_bounds`).
-/
import WivOS.Fs.Fat32

namespace WivOS.Fat32

open Function List Loop Option

/-! ### What the loop finds -/

inductive Sight where
  | finished
  | boundary
  | deleted
  | part (e : Entry)
  | short (e : Entry)

def Volume.sight (v : Volume) (s : Cursor) : Sight :=
  match v.readFatEntry s.cluster s.i with
  | none => .finished
  | some e =>
    if s.i = v.slots then .boundary
    else if e 0 = 0xE5 then .deleted
    else if attributeOf e = 0x0F then .part e
    else .short e

lemma scanRound_sight {ρ : Type*} (v : Volume) (finish : ρ) (cross : Cursor → Round Cursor ρ)
    (short : Cursor → Entry → Round Cursor ρ) (s : Cursor) : scanRound v finish cross short s = match v.sight s with
      | .finished => .done finish
      | .boundary => cross { s with cluster := v.getNextCluster s.cluster, i := 0 }
      | .deleted => .next { s with i := s.i + 1 }
      | .part e => match longFileName e s.name s.ready with
        | none => .fault
        | some (name, ready) => .next { s with i := s.i + 1, name, ready }
      | .short e => short s e := by
  unfold scanRound Volume.sight
  cases v.readFatEntry s.cluster s.i with
  | none => rfl
  | some e =>
    dsimp only
    split
    · rfl
    · split
      · rfl
      · split <;> rfl

/-! ### The parts of a long name -/

def partIndex (e : Entry) : ℕ := ((e 0 &&& 0x1F) - 1).toNat

def nameWrites (e : Entry) : List ℕ :=
  (if e 0 &&& 0x40 ≠ 0 then [partIndex e * 14] else []) ++ (List.range 13).map (partIndex e * 13 + ·)

def Numbered (e : Entry) : Prop := e 0 &&& 0x1F ≠ 0

lemma Numbered.partIndex {e : Entry} (h : Numbered e) : partIndex e < 31 := by
  have hle : (e 0 &&& 0x1F).toNat ≤ 31 := by
    rw [UInt8.toNat_and]
    exact Nat.and_le_right
  have hpos : (e 0 &&& 0x1F).toNat ≠ 0 := fun h0 => h (UInt8.toNat_inj.mp h0)
  have hone : (1 : UInt8) ≤ e 0 &&& 0x1F := UInt8.le_iff_toNat_le.mpr (Nat.one_le_iff_ne_zero.mpr hpos)
  have hsub : ((e 0 &&& 0x1F) - 1).toNat = (e 0 &&& 0x1F).toNat - 1 := UInt8.toNat_sub_of_le _ _ hone
  rw [Fat32.partIndex, hsub]
  omega

lemma partIndex_unnumbered {e : Entry} (h : ¬ Numbered e) : partIndex e = 255 := by
  rw [partIndex, not_not.mp h]
  rfl

lemma nameWrites_in_bounds (e : Entry) : (∀ k ∈ nameWrites e, k < 512) ↔ Numbered e := by
  constructor
  · intro h
    by_contra hzero
    have hmem : partIndex e * 13 + 0 ∈ nameWrites e :=
      mem_append_right _ (mem_map_of_mem (mem_range.mpr (by omega)))
    have hlt := h _ hmem
    rw [partIndex_unnumbered hzero] at hlt
    omega
  · intro h k hk
    have hindex := h.partIndex
    rcases mem_append.mp hk with hk | hk
    · split at hk
      · rw [mem_singleton.mp hk]
        omega
      · cases hk
    · obtain ⟨j, hj, rfl⟩ := mem_map.mp hk
      rw [mem_range] at hj
      omega

/-- What a call of `fat32_readdir` finds on its stack: `name k` is byte `k` from `entry_name` on, if the
call has not written it, and `below m` is byte `m + 1` below the entry, `none` where nothing is mapped.
The upper half of the address space has `2 ^ 47` bytes. -/
structure Frame where
  name : ℕ → UInt8
  below : ℕ → Option UInt8
  mapped : ∀ m, 2 ^ 47 ≤ m → below m = none

/-- The search for the last character goes on below the field and ends `m + 1` bytes below it. -/
def Frame.StopsAt (f : Frame) (m : ℕ) : Prop :=
  (∃ c, f.below m = some c ∧ nameChar c = true) ∧ ∀ j < m, ∃ c, f.below j = some c ∧ nameChar c = false

/-- The values of `lastCharacter` behind the search, a number of 64 bits. -/
def LastAt (f : Frame) (e : Entry) (last : ℕ) : Prop :=
  lastCharacter e 7 = some last ∨ lastCharacter e 7 = none ∧ ∃ m, f.StopsAt m ∧ last = 2 ^ 64 - 1 - m

/-- `strcpy` of `entry_name` writes byte `k`. -/
def CopyWrites (f : Frame) (name : NameBuffer) (k : ℕ) : Prop := ∀ j < k, (name j).getD (f.name j) ≠ 0

/-- The code for a short name writes byte `k`: a `memcpy`, and four bytes if there is an extension. -/
def ShortWrites (f : Frame) (e : Entry) (k : ℕ) : Prop :=
  ∃ last, LastAt f e last ∧
    (k < (last + 1) % 2 ^ 64 ∨ [e 8, e 9, e 10].all nameChar = true ∧ ∃ j < 4, k = (last + 1 + j) % 2 ^ 64)

/-- `fat32_readdir` at an entry that ends a name writes byte `k` from `d_name` on. -/
def DirentWrites (f : Frame) (s : Cursor) (e : Entry) (k : ℕ) : Prop :=
  k < 1024 ∨ if s.ready then CopyWrites f s.name k else ShortWrites f e k

/-- The name fits: a long name has a terminator, and a short one a character in its field, or the search
for one ends right below the field or never. -/
def NameFits (f : Frame) (s : Cursor) (e : Entry) : Prop :=
  if s.ready then ∃ j < 1024, (s.name j).getD (f.name j) = 0
  else (∃ k ≤ 7, nameChar (e k) = true) ∨ ∀ m, f.StopsAt m → m = 0

lemma copyWrites_in_bounds (f : Frame) (name : NameBuffer) :
    (∀ k, CopyWrites f name k → k < 1024) ↔ ∃ j < 1024, (name j).getD (f.name j) = 0 := by
  constructor
  · intro h
    by_contra hnone
    have hall : CopyWrites f name 1024 := fun j hj h0 => hnone ⟨j, hj, h0⟩
    exact Nat.lt_irrefl _ (h 1024 hall)
  · rintro ⟨j, hj, h0⟩ k hk
    by_contra hge
    exact hk j (by omega) h0

lemma lastCharacter_le {e : Entry} {last : ℕ} : ∀ {n : ℕ}, lastCharacter e n = some last → last ≤ n
  | 0, h => by
    rw [lastCharacter] at h
    split at h
    · exact (some.inj h).symm.le
    · cases h
  | n + 1, h => by
    rw [lastCharacter] at h
    split at h
    · exact (some.inj h).symm.le
    · exact Nat.le_succ_of_le (lastCharacter_le h)

lemma lastCharacter_eq_none (e : Entry) : ∀ n : ℕ, lastCharacter e n = none ↔ ∀ k ≤ n, nameChar (e k) = false
  | 0 => by
    rw [lastCharacter]
    constructor
    · intro h k hk
      rw [Nat.le_zero.mp hk]
      split at h
      · cases h
      · exact Bool.eq_false_iff.mpr ‹_›
    · intro h
      rw [if_neg (Bool.eq_false_iff.mp (h 0 (Nat.le_refl _)))]
  | n + 1 => by
    rw [lastCharacter]
    constructor
    · intro h k hk
      split at h
      · cases h
      · rcases Nat.lt_or_eq_of_le hk with hlt | rfl
        · exact (lastCharacter_eq_none e n).mp h k (Nat.le_of_lt_succ hlt)
        · exact Bool.eq_false_iff.mpr ‹_›
    · intro h
      rw [if_neg (Bool.eq_false_iff.mp (h (n + 1) (Nat.le_refl _)))]
      exact (lastCharacter_eq_none e n).mpr fun k hk => h k (Nat.le_succ_of_le hk)

lemma Frame.StopsAt.lt {f : Frame} {m : ℕ} (h : f.StopsAt m) : m < 2 ^ 47 := by
  by_contra hge
  obtain ⟨c, hc, -⟩ := h.1
  rw [f.mapped m (by omega)] at hc
  cases hc

lemma shortWrites_in_bounds (f : Frame) (e : Entry) :
    (∀ k, ShortWrites f e k → k < 1024) ↔ (∃ k ≤ 7, nameChar (e k) = true) ∨ ∀ m, f.StopsAt m → m = 0 := by
  constructor
  · intro h
    by_contra hnone
    obtain ⟨hfield, hbelow⟩ := not_or.mp hnone
    have hlast : lastCharacter e 7 = none :=
      (lastCharacter_eq_none e 7).mpr fun k hk => Bool.eq_false_iff.mpr fun hc => hfield ⟨k, hk, hc⟩
    obtain ⟨m, hm⟩ := Classical.not_forall.mp hbelow
    obtain ⟨hstop, hpos⟩ := Classical.not_imp.mp hm
    have hlt := hstop.lt
    have hwrites : ShortWrites f e 1024 := ⟨_, .inr ⟨hlast, m, hstop, rfl⟩, .inl (by omega)⟩
    exact Nat.lt_irrefl _ (h 1024 hwrites)
  · rintro hfits k ⟨last, hlast, hk⟩
    -- either the last character is in the field, or there is none and the copy is empty
    have hsmall : last ≤ 7 ∨ last = 2 ^ 64 - 1 := by
      rcases hlast with hlast | ⟨hnone, m, hstop, rfl⟩
      · exact .inl (lastCharacter_le hlast)
      · rcases hfits with ⟨j, hj, hc⟩ | hbelow
        · rw [(lastCharacter_eq_none e 7).mp hnone j hj] at hc
          cases hc
        · rw [hbelow m hstop]
          exact .inr rfl
    rcases hk with hk | ⟨-, j, hj, rfl⟩
    · rcases hsmall with h | rfl <;> omega
    · rcases hsmall with h | rfl <;> omega

lemma direntWrites_in_bounds (f : Frame) (s : Cursor) (e : Entry) :
    (∀ k, DirentWrites f s e k → k < 1024) ↔ NameFits f s e := by
  unfold DirentWrites NameFits
  split
  · rw [← copyWrites_in_bounds]
    exact ⟨fun h k hk => h k (.inr hk), fun h k hk => hk.elim id (h k)⟩
  · rw [← shortWrites_in_bounds]
    exact ⟨fun h k hk => h k (.inr hk), fun h k hk => hk.elim id (h k)⟩

/-! ### Whole calls -/

def FinddirInBounds (v : Volume) (path : Bytes) : Prop :=
  ∀ s e, Reaches (finddirRound v) (finddirStart v path) s → v.sight s = .part e → ∀ k ∈ nameWrites e, k < 512

/-- A call of `fat32_readdir` writes inside of `entry_name` and `d_name`. -/
structure ReaddirInBounds (v : Volume) (f : Frame) (cluster ino : ℕ) : Prop where
  entryName : ∀ s e, Reaches (readdirRound v) (readdirStart cluster ino) s → v.sight s = .part e →
    ∀ k ∈ nameWrites e, k < 512
  direntName : ∀ s e, Reaches (readdirRound v) (readdirStart cluster ino) s → v.sight s = .short e →
    ∀ k, DirentWrites f s e k → k < 1024

/-- **The name buffers hold** in a call exactly if each part of a long name that it comes to has a number
and, in `fat32_readdir`, the name that it stores fits. -/
theorem names_in_bounds (v : Volume) : (∀ path, FinddirInBounds v path ↔
      ∀ s e, Reaches (finddirRound v) (finddirStart v path) s → v.sight s = .part e → Numbered e) ∧
    ∀ f cluster ino, ReaddirInBounds v f cluster ino ↔ ∀ s e, Reaches (readdirRound v) (readdirStart cluster ino) s →
      (v.sight s = .part e → Numbered e) ∧ (v.sight s = .short e → NameFits f s e) := by
  refine ⟨fun path => ?_, fun f cluster ino => ?_⟩
  · exact ⟨fun h s e hs he => (nameWrites_in_bounds e).mp (h s e hs he),
      fun h s e hs he => (nameWrites_in_bounds e).mpr (h s e hs he)⟩
  · constructor
    · intro h s e hs
      exact ⟨fun he => (nameWrites_in_bounds e).mp (h.entryName s e hs he),
        fun he => (direntWrites_in_bounds f s e).mp (h.direntName s e hs he)⟩
    · intro h
      exact ⟨fun s e hs he => (nameWrites_in_bounds e).mpr ((h s e hs).1 he),
        fun s e hs he => (direntWrites_in_bounds f s e).mpr ((h s e hs).2 he)⟩

/-! ### Names that leave the buffers -/

def letterPart (order : UInt8) : Entry := fun k => if k = 0 then order else if k = 11 then 0x0F else 65

def partVolume (order : UInt8) : Volume where
  sectorsPerCluster := 1
  beginCluster := 0
  rootDirCluster := 2
  fatLength := 512
  fat := fun _ => 0x0FFFFFFF
  disk := fun k =>
    if k = 0 then letterPart order else if k = 1 then fun i => if i = 11 then 0x20 else 65 else fun _ => 0

def fullFrame : Frame where
  name := fun _ => 1
  below := fun _ => none
  mapped := fun _ _ => rfl

/-- **Names that leave the buffers.** With order byte 0x40, both functions write a zero 3570 bytes behind the start of
`entry_name`. A name of thirteen letters has no terminator in its part: the copy to `d_name` goes on behind the end.
-/
theorem names_out_of_bounds : (∀ path, ¬ FinddirInBounds (partVolume 0x40) path) ∧
    (∀ f, ¬ ReaddirInBounds (partVolume 0x40) f 2 0) ∧ ¬ ReaddirInBounds (partVolume 0x41) fullFrame 2 0 := by
  have hwrite : 3570 ∈ nameWrites (letterPart 0x40) := by decide
  refine ⟨fun path h => ?_, fun f h => ?_, fun h => ?_⟩
  · have hlt := h _ (letterPart 0x40) .refl rfl 3570 hwrite
    omega
  · have hlt := h.entryName _ (letterPart 0x40) .refl rfl 3570 hwrite
    omega
  · have hround : readdirRound (partVolume 0x41) (readdirStart 2 0) =
        .next ⟨2, 1, [], writeName (update unsetName 0 (some 0)) 0 (partChars (letterPart 0x41)), true⟩ := rfl
    have hcopy : CopyWrites fullFrame
        (writeName (update unsetName 0 (some 0)) 0 (partChars (letterPart 0x41))) 1024 := by
      intro j hj
      rcases Nat.lt_or_ge j 13 with hlt | hge
      · have hletters : ∀ j < 13, (writeName (update unsetName 0 (some 0)) 0
          (partChars (letterPart 0x41)) j).getD 1 ≠ 0 := by
          decide
        exact hletters j hlt
      · have hunset : writeName (update unsetName 0 (some 0)) 0 (partChars (letterPart 0x41)) j = none := by
          have hlen : (partChars (letterPart 0x41)).length = 13 := rfl
          rw [writeName, hlen, if_neg (by omega), update_of_ne (by omega)]
          rfl
        rw [hunset]
        exact (by decide : (1 : UInt8) ≠ 0)
    have hlt := h.direntName _ (fun i => if i = 11 then 0x20 else 65) (.single hround) rfl 1024 (.inr hcopy)
    omega

end WivOS.Fat32
