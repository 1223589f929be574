/-
# Arithmetic that can fail

Division of machine numbers fails at zero, and a shift fails if the amount is the width of the number or
more. The results are `Option`s; the lemmas say when there is one, and which.
-/
import Mathlib.Algebra.Group.Nat.Defs

namespace Checked

def div (x y : ℕ) : Option ℕ := if y = 0 then none else some (x / y)

def mod (x y : ℕ) : Option ℕ := if y = 0 then none else some (x % y)

def shl (w x n : ℕ) : Option ℕ := if n < w then some (x * 2 ^ n % 2 ^ w) else none

def shr (w x n : ℕ) : Option ℕ := if n < w then some (x / 2 ^ n) else none

variable {w x y n : ℕ}

lemma div_of_ne (h : y ≠ 0) : div x y = some (x / y) := if_neg h

lemma mod_of_ne (h : y ≠ 0) : mod x y = some (x % y) := if_neg h

lemma shl_of_lt (h : n < w) : shl w x n = some (x * 2 ^ n % 2 ^ w) := if_pos h

lemma shr_of_lt (h : n < w) : shr w x n = some (x / 2 ^ n) := if_pos h

lemma lt_of_shl {y : ℕ} (h : shl w x n = some y) : n < w := by
  unfold shl at h
  split at h
  · assumption
  · cases h

lemma lt_of_shr {y : ℕ} (h : shr w x n = some y) : n < w := by
  unfold shr at h
  split at h
  · assumption
  · cases h

end Checked
