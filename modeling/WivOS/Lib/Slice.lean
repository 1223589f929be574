/-
# Overwriting a part of a list

Copying into an array of a fixed length, element by element. `splice l i d` is `l`
with the elements from `i` on overwritten by `d`; a loop that stores the elements
of `d` one after another computes it (`splice_concat` for a loop that goes up,
`set_splice` for one that goes down).
-/
import Mathlib.Data.List.Basic
import Mathlib.Data.List.TakeWhile

namespace Slice

open List

variable {α : Type*} {l d : List α} {i k : ℕ} {a : α}

def splice (l : List α) (i : ℕ) (d : List α) : List α := l.take i ++ (d ++ l.drop (i + d.length))

@[simp] lemma splice_nil (l : List α) (i : ℕ) : splice l i [] = l := by
  rw [splice, nil_append, length_nil, Nat.add_zero, take_append_drop]

lemma length_splice (h : i + d.length ≤ l.length) : (splice l i d).length = l.length := by
  simp only [splice, length_append, length_take, length_drop]
  omega

lemma getElem?_splice_of_le (h : i + d.length ≤ l.length) (hk : i + d.length ≤ k) : (splice l i d)[k]? = l[k]? := by
  have htake : (l.take i).length = i := by
    rw [length_take]
    omega
  rw [splice, getElem?_append_right (by omega), htake, getElem?_append_right (by omega), getElem?_drop]
  congr 1
  omega

lemma getElem?_splice_of_lt (h : i ≤ l.length) (hk : k < i) : (splice l i d)[k]? = l[k]? := by
  have htake : (l.take i).length = i := by
    rw [length_take]
    omega
  rw [splice, getElem?_append_left (by omega), getElem?_take_of_lt hk]

lemma take_splice (h : i + d.length ≤ l.length) : (splice l i d).take (i + d.length) = l.take i ++ d := by
  have htake : (l.take i).length = i := by
    rw [length_take]
    omega
  rw [splice, take_append, htake, take_of_length_le (by omega), Nat.add_sub_cancel_left, take_left]

lemma take_splice_zero (h : d.length ≤ l.length) : (splice l 0 d).take d.length = d := by
  have := take_splice (l := l) (i := 0) (d := d) (by omega)
  rwa [Nat.zero_add, take_zero, nil_append] at this

lemma splice_concat (h : i + d.length < l.length) : (splice l i d).set (i + d.length) a = splice l i (d ++ [a]) := by
  have htake : (l.take i).length = i := by
    rw [length_take]
    omega
  rw [splice, splice, set_append_right _ _ (by omega), htake, Nat.add_sub_cancel_left,
    set_append_right _ _ (Nat.le_refl _), Nat.sub_self, drop_eq_getElem_cons h, set_cons_zero,
    length_append, append_assoc]
  rfl

lemma set_splice (h : i + d.length < l.length) : splice (l.set (i + d.length) a) i d = splice l i (d ++ [a]) := by
  rw [splice, splice, take_set_of_le (by omega), drop_set, if_neg (Nat.lt_irrefl _), Nat.sub_self,
    drop_eq_getElem_cons h, set_cons_zero, length_append, append_assoc]
  rfl

lemma slice_congr {l' : List α} (h : ∀ j, i ≤ j → j < i + k → l[j]? = l'[j]?) : (l.drop i).take k =
    (l'.drop i).take k := by
  apply ext_getElem?
  intro j
  rw [getElem?_take, getElem?_take, getElem?_drop, getElem?_drop]
  split
  · exact h (i + j) (by omega) (by omega)
  · rfl

lemma length_slice (h : i + k ≤ l.length) : ((l.drop i).take k).length = k := by
  rw [length_take, length_drop]
  omega

lemma splice_self (h : i + k ≤ l.length) : splice l i ((l.drop i).take k) = l := by
  rw [splice, length_slice h, ← drop_drop, take_append_drop, take_append_drop]

lemma slice_set {s n j : ℕ} (h : s + n ≤ j) : ((l.set j a).drop s).take n = (l.drop s).take n := by
  rw [drop_set, if_neg (by omega), take_set_of_le (by omega)]

lemma slice_concat (h : l[i + k]? = some a) : (l.drop i).take k ++ [a] = (l.drop i).take (k + 1) := by
  rw [take_add_one, getElem?_drop, h]
  rfl

lemma getElem?_flatMap_uniform {β : Type*} {f : β → List α} {n : ℕ} (hn : 0 < n) (j : ℕ) : ∀ {xs : List β},
    (∀ x ∈ xs, (f x).length = n) → (xs.flatMap f)[j]? = xs[j / n]?.bind fun x => (f x)[j % n]?
  | [], _ => by simp
  | x :: xs, h => by
    have hx : (f x).length = n := h x mem_cons_self
    rw [flatMap_cons]
    rcases Nat.lt_or_ge j n with hlt | hge
    · rw [getElem?_append_left (by omega), Nat.div_eq_of_lt hlt, Nat.mod_eq_of_lt hlt]
      rfl
    · obtain ⟨k, rfl⟩ := Nat.exists_eq_add_of_le hge
      have hdiv : (n + k) / n = k / n + 1 := by rw [Nat.add_div_left _ hn]
      rw [getElem?_append_right (by omega), hx, Nat.add_sub_cancel_left, hdiv, Nat.add_mod_left,
        getElem?_flatMap_uniform hn k fun y hy => h y (mem_cons_of_mem x hy)]
      rfl

end Slice
