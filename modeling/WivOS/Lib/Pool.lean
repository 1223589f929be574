/-
# A pool and its holders

Items are in a pool or with one of any number of holders, each in one place (`Apart`). A holder
and the pool may exchange items in any way (`Apart.exchange`); and there are no more items with a
few holders than there are items (`Apart.mul_length_le`).
-/
import Mathlib.Data.List.Nodup
import Mathlib.Data.List.Perm.Subperm

namespace Pool

open Function List

variable {α ι : Type*}

/-- No item is in two places, and all of them meet `P`. -/
structure Apart (P : α → Prop) (pool : List α) (held : ι → List α) : Prop where
  nodup : ∀ t, (pool ++ held t).Nodup
  apart : ∀ t u, t ≠ u → (held t).Disjoint (held u)
  item : ∀ t, ∀ i ∈ pool ++ held t, P i

variable {P : α → Prop} {pool pool' new : List α} {held : ι → List α} {t u : ι} {i : α}

lemma Apart.not_mem_pool (h : Apart P pool held) (hi : i ∈ held t) : i ∉ pool :=
  fun hp => (nodup_append'.mp (h.nodup t)).2.2 hp hi

lemma Apart.ne (h : Apart P pool held) (htu : t ≠ u) {j : α} (hi : i ∈ held t) (hj : j ∈ held u) : i ≠ j := by
  rintro rfl
  exact h.apart t u htu hi hj

lemma Apart.exchange [DecidableEq ι] (h : Apart P pool held) (hperm : (pool' ++ new).Perm (pool ++ held t)) :
    Apart P pool' (update held t new) := by
  have hmem : ∀ i ∈ pool' ++ new, i ∈ pool ∨ i ∈ held t := fun i hi => mem_append.mp (hperm.mem_iff.mp hi)
  have hnodup := hperm.nodup_iff.mpr (h.nodup t)
  -- what the holder or the pool had is not with another one
  have hother : ∀ u, u ≠ t → ∀ i ∈ pool' ++ new, i ∉ held u := by
    intro u hu i hi hiu
    rcases hmem i hi with hp | hp
    · exact h.not_mem_pool hiu hp
    · exact h.apart t u (Ne.symm hu) hp hiu
  refine ⟨fun u => ?_, fun u v huv => ?_, fun u i hi => ?_⟩
  · by_cases hu : u = t
    · rw [hu, update_self]
      exact hnodup
    · rw [update_of_ne hu, nodup_append']
      exact ⟨(nodup_append'.mp hnodup).1, (nodup_append'.mp (h.nodup u)).2.1,
        fun i hi => hother u hu i (mem_append_left _ hi)⟩
  · by_cases hu : u = t
    · subst hu
      rw [update_self, update_of_ne (Ne.symm huv)]
      exact fun i hi => hother v (Ne.symm huv) i (mem_append_right _ hi)
    · rw [update_of_ne hu]
      by_cases hv : v = t
      · rw [hv, update_self]
        exact fun i hi hin => hother u hu i (mem_append_right _ hin) hi
      · rw [update_of_ne hv]
        exact h.apart u v huv
  · have hitem : ∀ i ∈ pool' ++ new, P i := fun i hi => h.item t i (hperm.mem_iff.mp hi)
    by_cases hu : u = t
    · rw [hu, update_self] at hi
      exact hitem i hi
    · rw [update_of_ne hu, mem_append] at hi
      rcases hi with hi | hi
      · exact hitem i (mem_append_left _ hi)
      · exact h.item u i (mem_append_right _ hi)

lemma Apart.length_le {n : ℕ} {pool : List ℕ} {held : ι → List ℕ} (h : Apart (· < n) pool held) (t : ι) :
    pool.length ≤ n := by
  have hsub : pool ⊆ List.range n := fun i hi => mem_range.mpr (h.item t i (mem_append_left _ hi))
  have hle := (subperm_of_subset (nodup_append'.mp (h.nodup t)).1 hsub).length_le
  rwa [length_range] at hle

lemma Apart.mul_length_le {n k : ℕ} {pool : List ℕ} {held : ι → List ℕ} (h : Apart (· < n) pool held) {holders : List ι}
    (hnodup : holders.Nodup) (hk : ∀ t ∈ holders, (held t).length = k) : k * holders.length ≤ n := by
  have hflat : (holders.flatMap held).Nodup := by
    rw [nodup_flatMap]
    exact ⟨fun t _ => (nodup_append'.mp (h.nodup t)).2.1, hnodup.imp fun {t u} htu => h.apart t u htu⟩
  have hsub : holders.flatMap held ⊆ List.range n := by
    intro i hi
    obtain ⟨t, -, hit⟩ := mem_flatMap.mp hi
    exact mem_range.mpr (h.item t i (mem_append_right _ hit))
  have hlength : (holders.flatMap held).length = k * holders.length := by
    rw [length_flatMap, map_congr_left hk, map_const', sum_replicate_nat, Nat.mul_comm]
  have hle := (subperm_of_subset hflat hsub).length_le
  rwa [hlength, length_range] at hle

end Pool
