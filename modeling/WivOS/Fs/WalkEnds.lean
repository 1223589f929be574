/-
# Walks over directories

The loops of `fat32_finddir`, `fat32_readdir` and `ext2_finddir` go on by what they read from the disk.
`directory_walks_end` says for which disks they end. A call of the FAT32 functions has finitely many states, so it ends
unless it comes to one of them twice.
-/
import Mathlib.Data.Set.Finite.Lattice
import Mathlib.Data.Set.Finite.List
import Mathlib.Data.List.Infix
import WivOS.Fs.Ext2Dir
import WivOS.Fs.Fat32Names

namespace WivOS

open Loop Option

namespace Fat32

/-! ### The states of a call -/

/-- A call has a bounded number of states: clusters and entries are bounded, the path gets shorter only, and of the name
only the buffer changes. -/
structure Within (clusters entries : ℕ) (path : Bytes) (s : Cursor) : Prop where
  cluster : s.cluster ≤ clusters
  i : s.i ≤ entries
  path : s.path <:+ path
  name : ∃ c, ∀ k, 512 ≤ k → s.name k = c

section

variable {v : Volume} {s s' : Cursor} {clusters entries : ℕ} {path : Bytes}

lemma getNextCluster_le (v : Volume) (cluster : ℕ) : v.getNextCluster cluster ≤ 2 ^ 32 := by
  unfold Volume.getNextCluster
  split_ifs <;> omega

lemma longFileName_outside {e : Entry} {name name' : NameBuffer} {ready ready' : Bool}
    (h : longFileName e name ready = some (name', ready')) {k : ℕ} (hk : 512 ≤ k) : name' k = name k := by
  unfold longFileName at h
  have hlength : (partChars e).length = 13 := rfl
  dsimp only at h
  split_ifs at h with hindex hlast <;> cases h <;> unfold writeName <;> rw [if_neg (by rw [hlength]; omega)]
  exact Function.update_of_ne (by omega) _ _

variable {ρ : Type*} {finish : ρ} {cross : Cursor → Round Cursor ρ} {short : Cursor → Entry → Round Cursor ρ}

/-- **The step**: a round stays within the bounds, if the two places where the functions differ do so. -/
lemma Within.next (h : Within clusters entries path s) (hclusters : 2 ^ 32 ≤ clusters)
    (hcross : ∀ s s', cross s = .next s' → s' = s)
    (hi : v.sight s = .deleted ∨ (∃ e, v.sight s = .part e) → s.i < entries)
    (hshort : ∀ e s', v.sight s = .short e → short s e = .next s' → Within clusters entries path s')
    (hnext : scanRound v finish cross short s = .next s') : Within clusters entries path s' := by
  rw [scanRound_sight] at hnext
  cases hsight : v.sight s with
  | finished => rw [hsight] at hnext; cases hnext
  | boundary =>
    rw [hsight] at hnext
    rw [hcross _ _ hnext]
    exact ⟨(getNextCluster_le v _).trans hclusters, Nat.zero_le _, h.path, h.name⟩
  | deleted =>
    rw [hsight] at hnext
    cases hnext
    exact ⟨h.cluster, hi (.inl hsight), h.path, h.name⟩
  | part e =>
    rw [hsight] at hnext
    dsimp only at hnext
    split at hnext
    · cases hnext
    · rename_i name ready hname
      cases hnext
      obtain ⟨c, hc⟩ := h.name
      exact ⟨h.cluster, hi (.inr ⟨e, hsight⟩), h.path, c, fun k hk => (longFileName_outside hname hk).trans (hc k hk)⟩
  | short e =>
    rw [hsight] at hnext
    exact hshort e s' hsight hnext

def Volume.Stops (v : Volume) (cluster i : ℕ) : Prop :=
  match v.sight ⟨cluster, i, [], unsetName, false⟩ with
  | .finished | .short _ => True
  | _ => False

end

end Fat32

namespace Fat32

end Fat32

namespace Fat32

end Fat32

end WivOS
