/-
# Write-back caches over a flat array

A cache holds copies of some blocks of a disk, in slots; a copy that was written
to is dirty. What the cache stores for a block is its copy, if a slot holds one,
and the block on disk otherwise (`Cache.view`). In a coherent cache no block is in
two slots and a clean copy equals the disk; then emptying a slot leaves the view
as it is, and setting one changes the view of the block it is set to only.

A flat array is indexed by machine words, and positions wrap around
(`Flat.read`, `Flat.write`). Blocks whose size divides the number of words make up
a flat array (`Flat.ofBlocks`), and an access inside one block is an access to
that block.
-/
import Mathlib.Data.BitVec

namespace WriteBack

open Function Option

structure Entry (B D : Type*) where
  block : B
  data : D
  dirty : Bool

structure Cache (ι B D : Type*) where
  slots : ι → Option (Entry B D)
  disk : B → D

namespace Cache

variable {ι B D : Type*} {c : Cache ι B D} {i : ι} {b : B} {e : Entry B D}

structure Coherent (c : Cache ι B D) : Prop where
  unique : ∀ i j e f, c.slots i = some e → c.slots j = some f → e.block = f.block → i = j
  clean : ∀ i e, c.slots i = some e → e.dirty = false → e.data = c.disk e.block

def Absent (c : Cache ι B D) (b : B) : Prop := ∀ i e, c.slots i = some e → e.block ≠ b

open Classical in
noncomputable def view (c : Cache ι B D) (b : B) : D :=
  if h : ∃ p : ι × Entry B D, c.slots p.1 = some p.2 ∧ p.2.block = b then h.choose.2.data else c.disk b

lemma Coherent.view_slot (hc : c.Coherent) (he : c.slots i = some e) : c.view e.block = e.data := by
  have h : ∃ p : ι × Entry B D, c.slots p.1 = some p.2 ∧ p.2.block = e.block := ⟨(i, e), he, rfl⟩
  obtain ⟨hslot, hblock⟩ := h.choose_spec
  have hi := hc.unique _ _ _ _ hslot he hblock
  rw [hi, he, some.injEq] at hslot
  rw [view, dif_pos h, ← hslot]

lemma view_absent (h : c.Absent b) : c.view b = c.disk b := by
  rw [view, dif_neg]
  rintro ⟨p, hp, hb⟩
  exact h p.1 p.2 hp hb

/-- The view is known from the slots, and from the disk where no slot holds the block. -/
lemma Coherent.view_eq (hc : c.Coherent) {v : B → D} (hslot : ∀ i e, c.slots i = some e → e.data = v e.block)
    (hdisk : ∀ b, c.Absent b → c.disk b = v b) : c.view = v := by
  funext b
  by_cases h : c.Absent b
  · rw [view_absent h, hdisk b h]
  · simp only [Absent, not_forall, not_not] at h
    obtain ⟨i, e, he, rfl⟩ := h
    rw [hc.view_slot he, hslot i e he]

section
variable [DecidableEq ι]

def set (c : Cache ι B D) (i : ι) (e : Entry B D) : Cache ι B D :=
  { c with slots := update c.slots i (some e) }

@[simp] lemma set_slots : (c.set i e).slots = update c.slots i (some e) := rfl

@[simp] lemma set_disk : (c.set i e).disk = c.disk := rfl

lemma slots_set {f : Entry B D} {j : ι} (h : (c.set i e).slots j = some f) :
    (j = i ∧ f = e) ∨ (j ≠ i ∧ c.slots j = some f) := by
  by_cases hj : j = i
  · subst hj
    rw [set_slots, update_self, some.injEq] at h
    exact .inl ⟨rfl, h.symm⟩
  · rw [set_slots, update_of_ne hj] at h
    exact .inr ⟨hj, h⟩

/-- A slot may be set to a block that no other slot holds; if it is set to a clean
copy, to what is on disk. -/
lemma Coherent.set (hc : c.Coherent) (hother : ∀ j f, j ≠ i → c.slots j = some f → f.block ≠ e.block)
    (hclean : e.dirty = false → e.data = c.disk e.block) : (c.set i e).Coherent := by
  refine ⟨fun j k f g hf hg hfg => ?_, fun j f hf hd => ?_⟩
  · rcases slots_set hf with ⟨hj, hfe⟩ | ⟨hj, hf⟩ <;> rcases slots_set hg with ⟨hk, hge⟩ | ⟨hk, hg⟩
    · rw [hj, hk]
    · exact absurd (hfg.symm.trans (congrArg Entry.block hfe)) (hother k g hk hg)
    · exact absurd (hfg.trans (congrArg Entry.block hge)) (hother j f hj hf)
    · exact hc.unique j k f g hf hg hfg
  · rcases slots_set hf with ⟨-, rfl⟩ | ⟨-, hf⟩
    · exact hclean hd
    · exact hc.clean j f hf hd

variable [DecidableEq B]

def evict (c : Cache ι B D) (i : ι) : Cache ι B D where
  slots := update c.slots i none
  disk := match c.slots i with
    | some e => if e.dirty then update c.disk e.block e.data else c.disk
    | none => c.disk

@[simp] lemma evict_slots : (c.evict i).slots = update c.slots i none := rfl

lemma slots_evict {j : ι} (h : (c.evict i).slots j = some e) : j ≠ i ∧ c.slots j = some e := by
  have hne : j ≠ i := by
    rintro rfl
    rw [evict_slots, update_self] at h
    exact absurd h nofun
  rw [evict_slots, update_of_ne hne] at h
  exact ⟨hne, h⟩

lemma disk_evict (h : ∀ e, c.slots i = some e → e.block ≠ b) : (c.evict i).disk b = c.disk b := by
  rw [evict]
  cases hi : c.slots i with
  | none => rfl
  | some e =>
    by_cases hd : e.dirty
    · simp only [hd, if_true, update_of_ne (h e hi).symm]
    · simp only [hd]
      rfl

lemma Coherent.evict (hc : c.Coherent) : (c.evict i).Coherent := by
  refine ⟨fun j k e f he hf hb => ?_, fun j e he hd => ?_⟩
  · exact hc.unique j k e f (slots_evict he).2 (slots_evict hf).2 hb
  · obtain ⟨hne, he⟩ := slots_evict he
    rw [disk_evict fun f hf hb => hne (hc.unique j i e f he hf hb.symm)]
    exact hc.clean j e he hd

lemma Coherent.view_evict (hc : c.Coherent) : (c.evict i).view = c.view := by
  refine hc.evict.view_eq (fun j e he => (hc.view_slot (slots_evict he).2).symm) fun b hb => ?_
  by_cases h : c.Absent b
  · rw [view_absent h, disk_evict fun e he => h i e he]
  · simp only [Absent, not_forall, not_not] at h
    obtain ⟨j, e, he, rfl⟩ := h
    -- the block was in the slot that is now empty: it has been written back, or it was clean
    have hj : j = i := by
      by_contra hne
      exact hb j e (by rw [evict_slots, update_of_ne hne, he]) rfl
    subst hj
    rw [hc.view_slot he, Cache.evict, he]
    by_cases hd : e.dirty
    · simp [hd]
    · simp only [hd]
      exact (hc.clean j e he (by simpa using hd)).symm

/-- Setting a slot that was empty, or held the same block, changes the view of that
block only. -/
lemma Coherent.view_set (hc : c.Coherent) (hother : ∀ j f, j ≠ i → c.slots j = some f → f.block ≠ e.block)
    (hclean : e.dirty = false → e.data = c.disk e.block) (hsame : ∀ f, c.slots i = some f → f.block = e.block) :
    (c.set i e).view = update c.view e.block e.data := by
  refine (hc.set hother hclean).view_eq (fun j f hf => ?_) fun b hb => ?_
  · rcases slots_set hf with ⟨-, rfl⟩ | ⟨hj, hf⟩
    · rw [update_self]
    · rw [update_of_ne (hother j f hj hf), hc.view_slot hf]
  · have hbe : b ≠ e.block := fun h => hb i e (by rw [set_slots, update_self]) h.symm
    have habs : c.Absent b := by
      intro j f hf hfb
      by_cases hj : j = i
      · subst hj
        exact hbe (hfb.symm.trans (hsame f hf))
      · exact hb j f (by rw [set_slots, update_of_ne hj, hf]) hfb
    rw [update_of_ne hbe, view_absent habs, set_disk]

lemma Coherent.write (hc : c.Coherent) (he : c.slots i = some e) (d : D) :
    (c.set i ⟨e.block, d, true⟩).Coherent ∧ (c.set i ⟨e.block, d, true⟩).view = update c.view e.block d := by
  have hother : ∀ j f, j ≠ i → c.slots j = some f → f.block ≠ e.block :=
    fun j f hj hf hb => hj (hc.unique j i f e hf he hb)
  refine ⟨hc.set hother fun h => absurd h nofun, hc.view_set hother (fun h => absurd h nofun) fun f hf => ?_⟩
  rw [he, some.injEq] at hf
  rw [hf]

def replace (c : Cache ι B D) (i : ι) (b : B) : Cache ι B D := (c.evict i).set i ⟨b, (c.evict i).disk b, false⟩

lemma Absent.evict (hb : c.Absent b) : (c.evict i).Absent b := fun j e he => hb j e (slots_evict he).2

lemma Coherent.replace (hc : c.Coherent) (hb : c.Absent b) : (c.replace i b).Coherent :=
  hc.evict.set (fun j f _ hf => hb.evict j f hf) fun _ => rfl

lemma Coherent.view_replace (hc : c.Coherent) (hb : c.Absent b) : (c.replace i b).view = c.view := by
  rw [Cache.replace, hc.evict.view_set (fun j f _ hf => hb.evict j f hf) (fun _ => rfl)]
  · rw [← view_absent hb.evict, update_eq_self, hc.view_evict]
  · intro f hf
    exact absurd rfl (slots_evict hf).1

/-- The slot may still hold its block when it is set, if that is back on the disk. -/
lemma set_eq_replace {c' : Cache ι B D} (hslots : c'.slots = c.slots) (hdisk : c'.disk = (c.evict i).disk) :
    c'.set i ⟨b, c'.disk b, false⟩ = c.replace i b := by
  simp only [Cache.set, Cache.replace, evict_slots, update_idem, hslots, hdisk]

lemma evict_disk_of_clean (h : ∀ e, c.slots i = some e → e.dirty = false) : (c.evict i).disk = c.disk := by
  rw [Cache.evict]
  cases hi : c.slots i with
  | none => rfl
  | some e => simp [h e hi]

lemma evict_disk_of_dirty (he : c.slots i = some e) (hd : e.dirty = true) :
    (c.evict i).disk = update c.disk e.block e.data := by
  simp [Cache.evict, he, hd]

end
end Cache

/-! ### Flat arrays -/

namespace Flat

variable {α : Type*} {w : ℕ}

def read (a : BitVec w → α) (pos : BitVec w) (n : ℕ) : List α :=
  (List.range n).map fun k => a (pos + BitVec.ofNat w k)

def write (a : BitVec w → α) (pos : BitVec w) (data : List α) : BitVec w → α :=
  fun p => (data[(p - pos).toNat]?).getD (a p)

lemma read_append (a : BitVec w → α) (pos : BitVec w) (m n : ℕ) :
    read a pos (m + n) = read a pos m ++ read a (pos + BitVec.ofNat w m) n := by
  simp only [read, List.range_add, List.map_append, List.map_map, Function.comp_def, BitVec.ofNat_add, BitVec.add_assoc]

@[simp] lemma write_nil (a : BitVec w → α) (pos : BitVec w) : write a pos [] = a := by
  funext p
  simp [write]

lemma write_append (a : BitVec w → α) (pos : BitVec w) {d e : List α} (h : (d ++ e).length ≤ 2 ^ w) :
    write (write a pos d) (pos + BitVec.ofNat w d.length) e = write a pos (d ++ e) := by
  funext p
  rw [List.length_append] at h
  simp only [write]
  have hp := (p - pos).isLt
  by_cases hd : (p - pos).toNat < d.length
  · -- before the second write: the position behind it is too far away
    have hsub : e.length ≤ (p - (pos + BitVec.ofNat w d.length)).toNat := by
      rw [← BitVec.sub_sub, BitVec.toNat_sub, BitVec.toNat_ofNat]
      rcases Nat.lt_or_ge d.length (2 ^ w) with hlt | hge
      · rw [Nat.mod_eq_of_lt hlt, Nat.mod_eq_of_lt] <;> omega
      · omega
    rw [List.getElem?_eq_none hsub, List.getElem?_append_left hd]
    rfl
  · have hsub : (p - (pos + BitVec.ofNat w d.length)).toNat = (p - pos).toNat - d.length := by
      rw [← BitVec.sub_sub, BitVec.toNat_sub_of_le, BitVec.toNat_ofNat, Nat.mod_eq_of_lt (by omega)]
      rw [BitVec.le_def, BitVec.toNat_ofNat, Nat.mod_eq_of_lt (by omega)]
      omega
    rw [hsub, List.getElem?_append_right (by omega), List.getElem?_eq_none (by omega : d.length ≤ _)]
    rfl

section
variable {n : ℕ} [NeZero n]

/-- The flat array made of the blocks `v`, of `n` elements each. -/
def ofBlocks (v : ℕ → Fin n → α) : BitVec w → α := fun p => v (p.toNat / n) (Fin.ofNat n p.toNat)

def splice (d : Fin n → α) (off : ℕ) (data : List α) : Fin n → α :=
  fun j => if off ≤ j then (data[j - off]?).getD (d j) else d j

variable {p : BitVec w} {m : ℕ}

omit [NeZero n] in
/-- The block a position lies in ends where the next one starts, or with the array. -/
lemma block_end_le (hn : n ∣ 2 ^ w) (p : BitVec w) : n * (p.toNat / n) + n ≤ 2 ^ w := by
  obtain ⟨k, hk⟩ := hn
  have hlt : p.toNat / n < k := Nat.div_lt_of_lt_mul (hk ▸ p.isLt)
  calc n * (p.toNat / n) + n = n * (p.toNat / n + 1) := (Nat.mul_succ _ _).symm
    _ ≤ n * k := Nat.mul_le_mul_left n hlt
    _ = 2 ^ w := hk.symm

lemma read_ofBlocks (hn : n ∣ 2 ^ w) (v : ℕ → Fin n → α) (hm : p.toNat % n + m ≤ n) :
    read (ofBlocks v) p m = (List.range m).map fun j => v (p.toNat / n) (Fin.ofNat n (p.toNat % n + j)) := by
  refine List.map_congr_left fun j hj => ?_
  have hj := List.mem_range.mp hj
  have hend := block_end_le hn p
  have hp := Nat.div_add_mod p.toNat n
  have hadd : (p + BitVec.ofNat w j).toNat = p.toNat + j := by
    rw [BitVec.toNat_add, BitVec.toNat_ofNat, Nat.add_mod_mod, Nat.mod_eq_of_lt (by omega)]
  have hdiv : (p.toNat + j) / n = p.toNat / n := by
    rw [← hp, Nat.add_assoc, Nat.mul_add_div (by omega), Nat.div_eq_of_lt (by omega : p.toNat % n + j < n)]
    rw [Nat.mul_add_div (by omega), Nat.mod_div_self]
  have hfin : Fin.ofNat n (p.toNat + j) = Fin.ofNat n (p.toNat % n + j) :=
    Fin.ext (Nat.mod_add_mod _ _ _).symm
  rw [ofBlocks, hadd, hdiv, hfin]

lemma write_ofBlocks (hn : n ∣ 2 ^ w) (v : ℕ → Fin n → α) {data : List α} (hm : p.toNat % n + data.length ≤ n) :
    write (ofBlocks v) p data = ofBlocks (update v (p.toNat / n) (splice (v (p.toNat / n)) (p.toNat % n) data)) := by
  funext q
  have hend := block_end_le hn p
  have hp := Nat.div_add_mod p.toNat n
  have hq := Nat.div_add_mod q.toNat n
  have hsub := BitVec.toNat_sub q p
  have hlq := q.isLt
  rw [write, ofBlocks, ofBlocks]
  by_cases hb : q.toNat / n = p.toNat / n
  · rw [hb, update_self, splice, Fin.val_ofNat]
    rw [hb] at hq
    by_cases hle : p.toNat % n ≤ q.toNat % n
    · have hoff : q.toNat - p.toNat = q.toNat % n - p.toNat % n := by omega
      rw [if_pos hle, BitVec.toNat_sub_of_le (BitVec.le_def.mpr (by omega)), hoff]
    · rw [if_neg hle, List.getElem?_eq_none]
      · rfl
      · rw [hsub, Nat.mod_eq_of_lt (by omega)]
        omega
  · rw [update_of_ne hb, List.getElem?_eq_none]
    · rfl
    · -- another block lies at least as far away as the data is long
      rcases Nat.lt_or_ge q.toNat p.toNat with hlt | hge
      · rw [hsub, Nat.mod_eq_of_lt (by omega)]
        omega
      · rw [BitVec.toNat_sub_of_le (BitVec.le_def.mpr hge)]
        have hlt : p.toNat / n < q.toNat / n :=
          lt_of_le_of_ne (Nat.div_le_div_right hge) (Ne.symm hb)
        have := Nat.mul_le_mul_left n hlt
        rw [Nat.mul_succ] at this
        omega

end
end Flat
end WriteBack
