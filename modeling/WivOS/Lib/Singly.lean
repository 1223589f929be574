/-
# Singly linked chains

Cells in a heap, each with an item and a link to the next one. `Links heap start xs stop` says
that from `start` on lie the cells `xs` (identity and item), and that the last of them links on to
`stop`. Chains compose (`links_append`) and depend on their own cells only (`Links.congr`).
-/
import Mathlib.Data.List.Basic

namespace Singly

open Function List

variable {β : Type*}

structure Cell (β : Type*) where
  item : β
  next : Option ℕ

abbrev Heap (β : Type*) := ℕ → Option (Cell β)

def Links (heap : Heap β) : Option ℕ → List (ℕ × β) → Option ℕ → Prop
  | start, [], stop => start = stop
  | start, x :: xs, stop => start = some x.1 ∧ ∃ next, heap x.1 = some ⟨x.2, next⟩ ∧ Links heap next xs stop

def lastId : Option ℕ → List (ℕ × β) → Option ℕ
  | last, [] => last
  | _, x :: xs => lastId (some x.1) xs

lemma lastId_concat (last : Option ℕ) (x : ℕ × β) : ∀ xs : List (ℕ × β), lastId last (xs ++ [x]) = some x.1
  | [] => rfl
  | y :: xs => lastId_concat (some y.1) x xs

variable {heap heap' : Heap β}

lemma links_append : ∀ (xs ys : List (ℕ × β)) (start stop : Option ℕ),
    Links heap start (xs ++ ys) stop ↔ ∃ m, Links heap start xs m ∧ Links heap m ys stop
  | [], ys, start, stop => by
    constructor
    · intro h
      exact ⟨start, rfl, h⟩
    · rintro ⟨m, rfl, h⟩
      exact h
  | x :: xs, ys, start, stop => by
    simp only [cons_append, Links, links_append xs ys]
    constructor
    · rintro ⟨hstart, next, hx, m, hxs, hys⟩
      exact ⟨m, ⟨hstart, next, hx, hxs⟩, hys⟩
    · rintro ⟨m, ⟨hstart, next, hx, hxs⟩, hys⟩
      exact ⟨hstart, next, hx, m, hxs, hys⟩

variable {xs : List (ℕ × β)} {x : ℕ × β} {start stop : Option ℕ}

lemma links_concat :
    Links heap start (xs ++ [x]) stop ↔ Links heap start xs (some x.1) ∧ heap x.1 = some ⟨x.2, stop⟩ := by
  simp only [links_append, Links]
  constructor
  · rintro ⟨m, hxs, rfl, next, hx, rfl⟩
    exact ⟨hxs, hx⟩
  · rintro ⟨hxs, hx⟩
    exact ⟨_, hxs, rfl, stop, hx, rfl⟩

lemma Links.congr : ∀ {xs : List (ℕ × β)} {start stop : Option ℕ}, Links heap start xs stop →
    (∀ x ∈ xs, heap' x.1 = heap x.1) → Links heap' start xs stop
  | [], _, _, h, _ => h
  | x :: _, _, _, ⟨hstart, next, hx, h⟩, heq =>
    ⟨hstart, next, by rw [heq x mem_cons_self, hx], h.congr fun y hy => heq y (mem_cons_of_mem x hy)⟩

lemma Links.update (h : Links heap start xs stop) {i : ℕ} (hi : i ∉ xs.map Prod.fst) (cell : Option (Cell β)) :
    Links (update heap i cell) start xs stop := by
  refine h.congr fun x hx => update_of_ne ?_ ..
  rintro rfl
  exact hi (mem_map_of_mem hx)

lemma Links.cell_of_mem : ∀ {xs : List (ℕ × β)} {start stop : Option ℕ},
    Links heap start xs stop → x ∈ xs → ∃ next, heap x.1 = some ⟨x.2, next⟩
  | y :: _, _, _, ⟨_, next, hy, hys⟩, hx => by
    rcases mem_cons.mp hx with rfl | hx
    · exact ⟨next, hy⟩
    · exact hys.cell_of_mem hx

/-- Cells in one place, of one chain or of two, have one item. -/
lemma Links.item_eq {y : ℕ × β} {ys : List (ℕ × β)} {start' stop' : Option ℕ} (h : Links heap start xs stop)
    (h' : Links heap start' ys stop') (hx : x ∈ xs) (hy : y ∈ ys) (heq : x.1 = y.1) : x.2 = y.2 := by
  obtain ⟨next, hx⟩ := h.cell_of_mem hx
  obtain ⟨next', hy⟩ := h'.cell_of_mem hy
  rw [heq, hy] at hx
  exact (congrArg Cell.item (Option.some.inj hx)).symm

end Singly
