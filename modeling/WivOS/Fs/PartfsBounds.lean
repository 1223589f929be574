/-
# Requests of a partition

The sizes of a request are cut modulo `2 ^ 64`, and `partfs_lseek` checks against the end of the partition on the disk.
A request in place lies in the partition exactly if the node is not behind its end and `offset + size` does not wrap
to something shorter (`requests_contained`, `request_outside`).
-/
import WivOS.Fs.Partfs

namespace WivOS.Partfs

open Option Machine

def Inside (part : Part) (a size : UInt64) : Prop := ∀ x, a.toNat ≤ x → x < a.toNat + size.toNat →
  part.firstLba.toNat * 512 ≤ x ∧ x < (part.firstLba.toNat + part.lbaCount.toNat) * 512

/-- What the call on partition `p` asks the device for lies in the partition. -/
def Contained (s : Disk) (p : ℕ) (c : Call) : Prop := Inside (s.parts p) s.deviceOffset c.size

def Part.Fits (part : Part) : Prop := (part.firstLba.toNat + part.lbaCount.toNat) * 512 < 2 ^ 63

/-- The node is in the partition or at its end, and the end of the transfer does not wrap to a
place in it. -/
def Bounded (part : Part) (offset size : UInt64) : Prop :=
  offset.toNat ≤ part.lbaCount.toNat * 512 ∧
    (offset.toNat + size.toNat < 2 ^ 64 ∨ part.lbaCount.toNat * 512 ≤ (offset + size).toNat)

section

variable {part : Part}

lemma toNat_sector (lba : UInt64) (h : lba.toNat * 512 < 2 ^ 64) : (lba * 0x200).toNat = lba.toNat * 512 := by
  have hsector : (0x200 : UInt64).toNat = 512 := by decide
  rw [UInt64.toNat_mul, hsector]
  exact Nat.mod_eq_of_lt h

lemma Part.Fits.toNat_length (h : part.Fits) : (part.lbaCount * 0x200).toNat = part.lbaCount.toNat * 512 := by
  have hlt : part.lbaCount.toNat * 512 < 2 ^ 64 :=
    Nat.lt_of_le_of_lt (Nat.mul_le_mul_right 512 (Nat.le_add_left _ _)) (Nat.lt_trans h (by decide))
  exact toNat_sector _ hlt

lemma Part.Fits.toNat_place (h : part.Fits) (offset : UInt64) :
    (part.firstLba * 0x200 + offset).toNat = (part.firstLba.toNat * 512 + offset.toNat) % 2 ^ 64 := by
  have hlt : part.firstLba.toNat * 512 < 2 ^ 64 :=
    Nat.lt_of_le_of_lt (Nat.mul_le_mul_right 512 (Nat.le_add_right _ _)) (Nat.lt_trans h (by decide))
  rw [UInt64.toNat_add, toNat_sector _ hlt]

lemma Part.Fits.toNat_clamp (h : part.Fits) (offset size : UInt64) : (part.clamp offset size).toNat =
    if part.lbaCount.toNat * 512 ≤ (offset + size).toNat
      then (2 ^ 64 - offset.toNat + part.lbaCount.toNat * 512) % 2 ^ 64
    else size.toNat := by
  unfold Part.clamp
  by_cases hcut : offset + size ≥ part.lbaCount * 0x200
  · have hle : part.lbaCount.toNat * 512 ≤ (offset + size).toNat := by
      rw [← h.toNat_length]
      exact UInt64.le_iff_toNat_le.mp hcut
    rw [if_pos hcut, if_pos hle, UInt64.toNat_sub, h.toNat_length]
  · have hle : ¬ part.lbaCount.toNat * 512 ≤ (offset + size).toNat := by
      rw [← h.toNat_length]
      exact fun hle => hcut (UInt64.le_iff_toNat_le.mpr hle)
    rw [if_neg hcut, if_neg hle]

/-- **The request of a call in place** lies in the partition exactly if it is bounded. -/
lemma clamp_contained_iff (hfit : part.Fits) (offset size : UInt64) :
    Inside part (part.firstLba * 0x200 + offset) (part.clamp offset size) ↔ Bounded part offset size := by
  have hplace := hfit.toNat_place offset
  have hclamp := hfit.toNat_clamp offset size
  have hoffset := offset.toNat_lt
  have hsize := size.toNat_lt
  have hsum : (offset + size).toNat = (offset.toNat + size.toNat) % 2 ^ 64 := UInt64.toNat_add ..
  unfold Inside Bounded
  unfold Part.Fits at hfit
  rw [hplace, hclamp]
  constructor
  · intro h
    have hin : offset.toNat ≤ part.lbaCount.toNat * 512 := by
      -- behind the end the size is never zero, and the first byte is outside
      by_contra hout
      have hfirst := h ((part.firstLba.toNat * 512 + offset.toNat) % 2 ^ 64) (Nat.le_refl _) (by
        split
        · omega
        · omega)
      omega
    refine ⟨hin, ?_⟩
    by_contra hwrap
    rw [not_or] at hwrap
    rw [if_neg hwrap.2] at h
    have hlast := h (part.firstLba.toNat * 512 + offset.toNat + size.toNat - 1) (by omega) (by omega)
    omega
  · rintro ⟨hin, hwrap⟩ x hlow hhigh
    split at hhigh
    · omega
    · omega

end

/-- **Requests of a partition.** In every run whose calls are in place, what a call asks the
device for lies in its partition exactly if its node is not behind the end of the partition and
the end of the transfer does not wrap. -/
theorem requests_contained {s₀ : Disk} (hidle : s₀.Idle) (events : List Event) (s : Disk)
    (hok : Along Disk.step Sequential s₀ events) (hrun : run Disk.step s₀ events = some s) {p : ℕ} {c : Call}
    (hcall : (s.parts p).call = some c) (hseek : c.seek = false) (hfit : (s.parts p).Fits) :
    Contained s p c ↔ Bounded (s.parts p) (s.offset c.node) c.asked := by
  have h := placed_run hidle events s hok hrun
  rw [Contained, h.device p c hcall hseek, h.size p c hcall, Disk.place, h.part p c hcall]
  exact clamp_contained_iff hfit _ _

theorem requests_contained_first : ∃ s c, run Disk.step twoNodes writeAndRead = some s ∧
    (s.parts 0).call = some c ∧ Contained s 0 c := by
  obtain ⟨s, hrun, hcall, hseek, hfit, hbounded⟩ : ∃ s, run Disk.step twoNodes writeAndRead = some s ∧
      (s.parts 0).call.isSome = true ∧ (s.parts 0).call.all (fun c => !c.seek) = true ∧
      (((s.parts 0).firstLba.toNat + (s.parts 0).lbaCount.toNat) * 512 < 2 ^ 63) ∧
      (s.parts 0).call.all (fun c => (s.offset c.node).toNat ≤ (s.parts 0).lbaCount.toNat * 512 ∧
        (s.offset c.node).toNat + c.asked.toNat < 2 ^ 64) = true := exists_run Disk.step (by decide +kernel)
  obtain ⟨c, hcall⟩ := isSome_iff_exists.mp hcall
  rw [hcall, all_some] at hseek hbounded
  have hb := of_decide_eq_true hbounded
  exact ⟨s, c, hrun, hcall, (requests_contained (fun _ => rfl) _ s writeAndRead_sequential hrun hcall
    (by simpa using hseek) hfit).mpr ⟨hb.1, Or.inl hb.2⟩⟩

/-- **A request outside of the partition.** The partition of 8 sectors behind the first one ends
at byte 4608 of the disk. `partfs_lseek` puts a node at 4100, behind its 4096 bytes, and a read
of one byte asks for almost `2 ^ 64` bytes from 4612 on. -/
theorem request_outside : twoNodes.Idle ∧ (twoNodes.parts 0).Fits ∧ ∃ s c,
    run Disk.step twoNodes [.lseek 0 4100 .set, .start 0 .read 1, .seek 0] = some s ∧
    (s.parts 0).call = some c ∧ c.seek = false ∧ s.deviceOffset = 4612 ∧ c.size.toNat = 2 ^ 64 - 4 ∧
    ¬ Contained s 0 c := by
  obtain ⟨s, hrun, hcall, hdevice, hend⟩ : ∃ s,
      run Disk.step twoNodes [.lseek 0 4100 .set, .start 0 .read 1, .seek 0] = some s ∧
      (s.parts 0).call.map (fun c => (c.seek, c.size.toNat)) = some (false, 2 ^ 64 - 4) ∧ s.deviceOffset = 4612 ∧
      ((s.parts 0).firstLba.toNat + (s.parts 0).lbaCount.toNat) * 512 = 4608 := exists_run Disk.step (by decide +kernel)
  obtain ⟨c, hcall, hc⟩ := map_eq_some_iff.mp hcall
  obtain ⟨hseek, hsize⟩ := Prod.mk.inj hc
  refine ⟨fun _ => rfl, by unfold Part.Fits; decide, s, c, hrun, hcall, hseek, hdevice, hsize, fun h => ?_⟩
  have hdev : s.deviceOffset.toNat = 4612 := by
    rw [hdevice]
    rfl
  have hfirst := (h s.deviceOffset.toNat (Nat.le_refl _) (by omega)).2
  omega

end WivOS.Partfs
