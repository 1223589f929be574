/-
# Lifetimes of allocated objects

A heap hands out objects, numbered in the order of their allocation, so that no
number is handed out twice. It keeps a log of what is done with them: each use
and each free, the latest first. The log is `Safe` if nothing is used or freed
after it was freed.

An object is `Live` from its allocation until it is freed. Using a live object
and allocating a new one keep the log safe and every live object live (`Kept`);
freeing a live object keeps the log safe, and every other object live.
-/
import Mathlib.Data.List.Basic

namespace Lifetime

open List

inductive Event where
  | use (n : ℕ)
  | free (n : ℕ)
deriving DecidableEq

def Safe (log : List Event) : Prop :=
  log.Pairwise fun later earlier => ∀ n, earlier = .free n → later ≠ .use n ∧ later ≠ .free n

instance (e f : Event) : Decidable (∀ n, f = .free n → e ≠ .use n ∧ e ≠ .free n) :=
  match f with
  | .use _ => isTrue fun _ h => nomatch h
  | .free m => decidable_of_iff (e ≠ .use m ∧ e ≠ .free m)
      ⟨fun h _ hn => Event.free.inj hn ▸ h, fun h => h m rfl⟩

instance (log : List Event) : Decidable (Safe log) := inferInstanceAs (Decidable (List.Pairwise _ _))

structure Heap where
  next : ℕ
  log : List Event

namespace Heap

variable {h h' h'' : Heap} {m n : ℕ}

def alloc (h : Heap) : ℕ × Heap := (h.next, { h with next := h.next + 1 })

def use (h : Heap) (n : ℕ) : Heap := { h with log := .use n :: h.log }

def free (h : Heap) (n : ℕ) : Heap := { h with log := .free n :: h.log }

def Live (h : Heap) (n : ℕ) : Prop := n < h.next ∧ .free n ∉ h.log

instance (h : Heap) (n : ℕ) : Decidable (h.Live n) := inferInstanceAs (Decidable (_ ∧ _))

/-- The log is safe, and only objects that were allocated have been freed. -/
structure Good (h : Heap) : Prop where
  safe : Safe h.log
  old : ∀ n, .free n ∈ h.log → n < h.next

/-- From `h` to `h'` nothing was freed, and only live objects were used. -/
structure Kept (h h' : Heap) : Prop where
  good : h.Good → h'.Good
  live : ∀ n, h.Live n → h'.Live n

lemma Kept.refl (h : Heap) : Kept h h := ⟨id, fun _ => id⟩

lemma Kept.trans (hk : Kept h h') (hk' : Kept h' h'') : Kept h h'' :=
  ⟨hk'.good ∘ hk.good, fun n hn => hk'.live n (hk.live n hn)⟩

@[simp] lemma free_mem_use : .free m ∈ (h.use n).log ↔ .free m ∈ h.log := by simp [use]

lemma Kept.use (hn : h.Live n) : Kept h (h.use n) := by
  refine ⟨fun hg => ⟨?_, fun m hm => hg.old m (free_mem_use.mp hm)⟩, fun m hm => ⟨hm.1, ?_⟩⟩
  · refine pairwise_cons.mpr ⟨fun e he m hem => ⟨?_, nofun⟩, hg.safe⟩
    intro heq
    rw [hem, ← Event.use.inj heq] at he
    exact hn.2 he
  · rw [free_mem_use]
    exact hm.2

lemma Kept.alloc (h : Heap) : Kept h h.alloc.2 :=
  ⟨fun hg => ⟨hg.safe, fun n hn => Nat.lt_succ_of_lt (hg.old n hn)⟩, fun _ hn => ⟨Nat.lt_succ_of_lt hn.1, hn.2⟩⟩

lemma Good.live_alloc (hg : h.Good) : h.alloc.2.Live h.alloc.1 :=
  ⟨Nat.lt_succ_self _, fun hmem => Nat.lt_irrefl _ (hg.old _ hmem)⟩

lemma Good.free (hg : h.Good) (hn : h.Live n) : (h.free n).Good := by
  refine ⟨pairwise_cons.mpr ⟨fun e he m hem => ⟨nofun, ?_⟩, hg.safe⟩, fun m hm => ?_⟩
  · intro heq
    rw [hem, ← Event.free.inj heq] at he
    exact hn.2 he
  · rcases mem_cons.mp hm with heq | hm
    · exact Event.free.inj heq ▸ hn.1
    · exact hg.old m hm

lemma Live.free (hm : h.Live m) (hne : m ≠ n) : (h.free n).Live m := by
  refine ⟨hm.1, fun hmem => ?_⟩
  rcases mem_cons.mp hmem with heq | hmem
  · exact hne (Event.free.inj heq)
  · exact hm.2 hmem

end Heap
end Lifetime
