/-
# Doubly linked segments

Nodes in a heap, each with a value and links to the node before and the node behind it. A
segment is a part of such a list: `Seg heap prev start xs last stop` says that from `start` on
lie the nodes `xs` (identity and value), that the first of them links back to `prev`, that
`last` is the last of them, and that it links on to `stop`; for no nodes, `last` is `prev` and
`start` is `stop`. Segments compose (`seg_append`) and depend on their own nodes only
(`Seg.congr`). `Below` says where the nodes of a heap lie.
-/
import Mathlib.Data.List.Basic

namespace Linked

open Function List

variable {α : Type*}

structure Node (α : Type*) where
  value : α
  previous : Option ℕ
  next : Option ℕ

abbrev Heap (α : Type*) := ℕ → Option (Node α)

def Seg (heap : Heap α) : Option ℕ → Option ℕ → List (ℕ × α) → Option ℕ → Option ℕ → Prop
  | prev, start, [], last, stop => last = prev ∧ start = stop
  | prev, start, x :: xs, last, stop =>
    start = some x.1 ∧ ∃ next, heap x.1 = some ⟨x.2, prev, next⟩ ∧ Seg heap (some x.1) next xs last stop

variable {heap heap' : Heap α}

lemma seg_append : ∀ (xs ys : List (ℕ × α)) (prev start last stop : Option ℕ),
    Seg heap prev start (xs ++ ys) last stop ↔ ∃ l m, Seg heap prev start xs l m ∧ Seg heap l m ys last stop
  | [], ys, prev, start, last, stop => by
    constructor
    · intro h
      exact ⟨prev, start, ⟨rfl, rfl⟩, h⟩
    · rintro ⟨l, m, ⟨rfl, rfl⟩, h⟩
      exact h
  | x :: xs, ys, prev, start, last, stop => by
    simp only [cons_append, Seg, seg_append xs ys]
    constructor
    · rintro ⟨hstart, next, hx, l, m, hxs, hys⟩
      exact ⟨l, m, ⟨hstart, next, hx, hxs⟩, hys⟩
    · rintro ⟨l, m, ⟨hstart, next, hx, hxs⟩, hys⟩
      exact ⟨hstart, next, hx, l, m, hxs, hys⟩

variable {x : ℕ × α} {prev start last stop : Option ℕ} {xs : List (ℕ × α)} {i n : ℕ}

lemma seg_singleton : Seg heap prev start [x] last stop ↔
    start = some x.1 ∧ last = some x.1 ∧ heap x.1 = some ⟨x.2, prev, stop⟩ := by
  simp only [Seg]
  constructor
  · rintro ⟨hstart, next, hx, rfl, rfl⟩
    exact ⟨hstart, rfl, hx⟩
  · rintro ⟨hstart, rfl, hx⟩
    exact ⟨hstart, stop, hx, rfl, rfl⟩

lemma seg_concat : Seg heap prev start (xs ++ [x]) last stop ↔
      ∃ l, Seg heap prev start xs l (some x.1) ∧ last = some x.1 ∧ heap x.1 = some ⟨x.2, l, stop⟩ := by
  simp only [seg_append, seg_singleton]
  constructor
  · rintro ⟨l, m, hxs, rfl, hlast, hx⟩
    exact ⟨l, hxs, hlast, hx⟩
  · rintro ⟨l, hxs, hlast, hx⟩
    exact ⟨l, _, hxs, rfl, hlast, hx⟩

lemma Seg.congr : ∀ {xs : List (ℕ × α)} {prev start last stop : Option ℕ}, Seg heap prev start xs last stop →
    (∀ x ∈ xs, heap' x.1 = heap x.1) → Seg heap' prev start xs last stop
  | [], _, _, _, _, h, _ => h
  | x :: _, _, _, _, _, ⟨hstart, next, hx, h⟩, heq =>
    ⟨hstart, next, by rw [heq x mem_cons_self, hx], h.congr fun y hy => heq y (mem_cons_of_mem x hy)⟩

lemma Seg.update (h : Seg heap prev start xs last stop) (hi : i ∉ xs.map Prod.fst) (node : Option (Node α)) :
    Seg (update heap i node) prev start xs last stop := by
  refine h.congr fun x hx => update_of_ne ?_ ..
  rintro rfl
  exact hi (mem_map_of_mem hx)

lemma Seg.value_of_mem : ∀ {xs : List (ℕ × α)} {prev start last stop : Option ℕ},
    Seg heap prev start xs last stop → x ∈ xs → (heap x.1).map Node.value = some x.2
  | y :: _, _, _, _, _, ⟨_, _, hy, hys⟩, hx => by
    rcases mem_cons.mp hx with rfl | hx
    · rw [hy, Option.map_some]
    · exact hys.value_of_mem hx

lemma Seg.start_mem (h : Seg heap prev start xs last stop) (hne : xs ≠ []) : ∃ x ∈ xs, start = some x.1 := by
  cases xs with
  | nil => exact absurd rfl hne
  | cons x xs => exact ⟨x, mem_cons_self, h.1⟩

lemma Seg.last_mem (h : Seg heap prev start xs last stop) (hne : xs ≠ []) : ∃ x ∈ xs, last = some x.1 := by
  obtain rfl | ⟨ys, x, rfl⟩ := xs.eq_nil_or_concat'
  · exact absurd rfl hne
  · obtain ⟨-, -, hlast, -⟩ := seg_concat.mp h
    exact ⟨x, by simp, hlast⟩

lemma Seg.start_ne_none {k : ℕ} (h : Seg heap prev start xs last (some k)) : start ≠ none := by
  cases xs with
  | nil =>
    rw [h.2]
    nofun
  | cons x xs =>
    rw [h.1]
    nofun

/-! ### Where the nodes lie -/

def Below (heap : Heap α) (n : ℕ) : Prop := ∀ i, n ≤ i → heap i = none

lemma Below.lt {node : Node α} (h : Below heap n) (hi : heap i = some node) : i < n := by
  by_contra hge
  rw [h i (Nat.le_of_not_lt hge)] at hi
  cases hi

lemma Below.update (h : Below heap n) (hi : i < n) (node : Option (Node α)) : Below (update heap i node) n := by
  intro j hj
  rw [update_of_ne (Nat.ne_of_gt (Nat.lt_of_lt_of_le hi hj)), h j hj]

lemma Below.alloc (h : Below heap n) (node : Option (Node α)) : Below (Function.update heap n node) (n + 1) := by
  have hsucc : Below heap (n + 1) := fun i hi => h i (Nat.le_of_succ_le hi)
  exact hsucc.update (Nat.lt_succ_self n) node

end Linked
