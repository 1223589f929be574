/-
# Rings

A ring of `size` slots holds the last items that were written to it, the `k`-th in slot
`k % size` (`Recent`).

Rings with a phase bit: a producer writes items into a ring of `size` slots, the `k`-th into slot
`k % size`, and marks each with a phase that flips every time round. A consumer
that waits for item `k`, with all items before it written and no more than a ring behind it,
knows from the phase of the slot whether the item is there
(`Ring.written_iff_phase`); it follows the producer by advancing its head and
flipping its phase where the ring ends (`succ_mod`, `phase_succ`).
-/
import Mathlib.Tactic.Common

namespace Ring

open Function List

variable {α : Type*} {size : ℕ}

lemma mod_ne {k c : ℕ} (hk : k < c) (hc : c < k + size) : k % size ≠ c % size := by
  intro heq
  have hd : size ∣ c - k := Nat.dvd_of_mod_eq_zero (Nat.sub_mod_eq_zero_of_mod_eq heq.symm)
  have := Nat.le_of_dvd (by omega) hd
  omega

def Recent {β : Type*} (size : ℕ) (R : β → α → Prop) (slots : ℕ → α) (items : List β) : Prop :=
  ∀ k x, items[k]? = some x → items.length ≤ k + size → R x (slots (k % size))

section

variable {β : Type*} {R S : β → α → Prop} {slots : ℕ → α} {items : List β}

lemma Recent.imp (h : Recent size R slots items) (himp : ∀ x ∈ items, ∀ y, R x y → S x y) :
    Recent size S slots items :=
  fun k x hk hle => himp x (mem_of_getElem? hk) _ (h k x hk hle)

lemma Recent.push (h : Recent size R slots items) {x : β} {y : α} (hxy : R x y) :
    Recent size R (update slots (items.length % size) y) (items ++ [x]) := by
  intro k z hk hle
  rw [length_append, length_singleton] at hle
  rcases Nat.lt_trichotomy k items.length with hlt | rfl | hgt
  · rw [getElem?_append_left hlt] at hk
    rw [update_of_ne (mod_ne hlt (by omega))]
    exact h k z hk (by omega)
  · rw [getElem?_concat_length] at hk
    rw [update_self, ← Option.some.inj hk]
    exact hxy
  · rw [getElem?_eq_none (by rw [length_append, length_singleton]; omega)] at hk
    cases hk

end

def phase (size k : ℕ) : Bool := k / size % 2 = 0

section

variable (hs : 0 < size) (k : ℕ)
include hs k

lemma succ_div_mod :
    (k % size + 1 = size → (k + 1) % size = 0 ∧ (k + 1) / size = k / size + 1) ∧
    (k % size + 1 ≠ size → (k + 1) % size = k % size + 1 ∧ (k + 1) / size = k / size) := by
  have hk : k + 1 = size * (k / size) + (k % size + 1) := by
    rw [← Nat.add_assoc, Nat.div_add_mod]
  have hlt := Nat.mod_lt k hs
  refine ⟨fun h => ?_, fun h => ?_⟩
  · rw [hk, h, Nat.mul_add_mod, Nat.mod_self, Nat.mul_add_div hs, Nat.div_self hs]
    exact ⟨rfl, rfl⟩
  · have hlt' : k % size + 1 < size := by omega
    rw [hk, Nat.mul_add_mod, Nat.mod_eq_of_lt hlt', Nat.mul_add_div hs, Nat.div_eq_of_lt hlt']
    exact ⟨rfl, rfl⟩

lemma succ_mod : (k + 1) % size = if k % size + 1 = size then 0 else k % size + 1 := by
  by_cases h : k % size + 1 = size
  · rw [if_pos h, ((succ_div_mod hs k).1 h).1]
  · rw [if_neg h, ((succ_div_mod hs k).2 h).1]

lemma phase_succ :
    phase size (k + 1) = if k % size + 1 = size then !phase size k else phase size k := by
  by_cases h : k % size + 1 = size
  · rw [if_pos h, phase, ((succ_div_mod hs k).1 h).2, phase, ← decide_not]
    exact decide_eq_decide.mpr (by omega)
  · rw [if_neg h, phase, ((succ_div_mod hs k).2 h).2, phase]

lemma phase_add_size : phase size (k + size) = !phase size k := by
  rw [phase, Nat.add_div_right k hs, phase, ← decide_not]
  exact decide_eq_decide.mpr (by omega)

end

lemma phase_of_lt {k : ℕ} (hk : k < size) : phase size k = true := by
  rw [phase, Nat.div_eq_of_lt hk]
  rfl

def filled (size : ℕ) (init item : ℕ → α) : ℕ → ℕ → α
  | 0 => init
  | c + 1 => update (filled size init item c) (c % size) (item c)

variable {init item : ℕ → α} {c k : ℕ}

/-- An item stays until the one a ring further is written. -/
lemma filled_of_lt (hk : k < c) (hc : c ≤ k + size) : filled size init item c (k % size) = item k := by
  induction c with
  | zero => omega
  | succ c ih =>
    rw [filled]
    by_cases h : k = c
    · rw [h, update_self]
    · rw [update_of_ne (mod_ne (by omega) (by omega)), ih (by omega) (by omega)]

lemma filled_of_le (hc : c ≤ k) (hk : k < size) : filled size init item c (k % size) = init (k % size) := by
  induction c with
  | zero => rfl
  | succ c ih =>
    have hne : k % size ≠ c % size := by
      rw [Nat.mod_eq_of_lt hk, Nat.mod_eq_of_lt (by omega)]
      omega
    rw [filled, update_of_ne hne, ih (by omega)]

/-- The slot of the item that is waited for has its phase if and only if the item
is there. -/
lemma written_iff_phase (hs : 0 < size) (bit : α → Bool) (hinit : ∀ i, bit (init i) = false)
    (hitem : ∀ k, bit (item k) = phase size k) (hkc : k ≤ c) (hck : c ≤ k + size) :
    bit (filled size init item c (k % size)) = phase size k ↔ k < c := by
  rcases Nat.lt_or_ge k c with hlt | hge
  · rw [filled_of_lt hlt hck, hitem]
    exact iff_of_true rfl hlt
  · refine iff_of_false ?_ (by omega)
    rcases Nat.lt_or_ge k size with hk | hk
    · -- the first time round the slot is as it was
      rw [filled_of_le hge hk, hinit, phase_of_lt hk]
      exact Bool.false_ne_true
    · obtain ⟨j, rfl⟩ := Nat.exists_eq_add_of_le' hk
      rw [Nat.add_mod_right, filled_of_lt (by omega) (by omega), hitem, phase_add_size hs]
      cases phase size j <;> exact nofun

end Ring
