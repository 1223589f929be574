/-
# A stack in byte memory

A stack grows down in a memory of bytes: what is pushed lies right below what was there. A `Trace` is
the memory with the log of its stores. `Wrote lo hi` says that nothing outside of a range was written,
and `Pushed` that bytes were pushed, and where they lie; both compose in the order of the code
(`Wrote.trans`, `Pushed.trans`).
-/
import WivOS.Lib.ByteMem

namespace ByteMem

open List

def Holds (mem : Mem) (a : ℕ) (bytes : List (BitVec 8)) : Prop := ∀ i (h : i < bytes.length), mem (a + i) = bytes[i]

def words (ws : List ℕ) : List (BitVec 8) := ws.flatMap (toBytes 8)

structure Trace where
  mem : Mem
  stores : List (ℕ × ℕ)

def Trace.put (t : Trace) (a : ℕ) (bytes : List (BitVec 8)) : Trace :=
  ⟨write t.mem a bytes, (a, bytes.length) :: t.stores⟩

/-- From `t` to `t'`, only the range from `lo` up to `hi` was written. -/
structure Wrote (lo hi : ℕ) (t t' : Trace) : Prop where
  outside : ∀ x, x < lo ∨ hi ≤ x → t'.mem x = t.mem x
  stores : ∃ new, t'.stores = new ++ t.stores ∧ ∀ w ∈ new, lo ≤ w.1 ∧ w.1 + w.2 ≤ hi

/-- From `r` to `r'`, the stack pointer first, `bytes` were pushed. -/
structure Pushed (bytes : List (BitVec 8)) (r r' : ℕ × Trace) : Prop where
  pointer : r'.1 + bytes.length = r.1
  wrote : Wrote r'.1 r.1 r.2 r'.2
  holds : Holds r'.2.mem r'.1 bytes

section

variable {mem mem' : Mem} {t t' t'' : Trace} {r r' r'' : ℕ × Trace} {bytes bytes' : List (BitVec 8)} {a lo hi : ℕ}
    {ws : List ℕ}

/-! ### What lies where -/

lemma Holds.append (h : Holds mem a bytes) (h' : Holds mem (a + bytes.length) bytes') :
    Holds mem a (bytes ++ bytes') := by
  intro i hi
  rcases Nat.lt_or_ge i bytes.length with hlt | hge
  · rw [getElem_append_left hlt]
    exact h i hlt
  · have hi' : i - bytes.length < bytes'.length := by
      rw [length_append] at hi
      omega
    rw [getElem_append_right hge, ← h' _ hi']
    congr 1
    omega

lemma Holds.left (h : Holds mem a (bytes ++ bytes')) : Holds mem a bytes := by
  intro i hi
  rw [h i (by rw [length_append]; omega), getElem_append_left hi]

lemma Holds.right (h : Holds mem a (bytes ++ bytes')) : Holds mem (a + bytes.length) bytes' := by
  intro i hi
  rw [Nat.add_assoc, h _ (by rw [length_append]; omega), getElem_append_right (Nat.le_add_right ..)]
  congr 1
  omega

lemma Holds.wrote (h : Holds t.mem a bytes) (hw : Wrote lo hi t t') (hapart : a + bytes.length ≤ lo ∨ hi ≤ a) :
    Holds t'.mem a bytes := by
  intro i hi
  rw [hw.outside (a + i) (by omega)]
  exact h i hi

lemma Holds.read (h : Holds mem a bytes) : read mem a bytes.length = bytes := by
  refine ext_getElem length_read fun i _ hi => ?_
  simp only [ByteMem.read, getElem_map, getElem_range]
  exact h i hi

lemma words_append (vs ws : List ℕ) : words (vs ++ ws) = words vs ++ words ws := flatMap_append

lemma words_cons (v : ℕ) (ws : List ℕ) : words (v :: ws) = toBytes 8 v ++ words ws := flatMap_cons

lemma length_words : ∀ ws : List ℕ, (words ws).length = 8 * ws.length
  | [] => rfl
  | v :: ws => by
    rw [words_cons, length_append, length_toBytes, length_words ws, length_cons]
    omega

lemma Holds.load : ∀ {ws : List ℕ} {a : ℕ}, Holds mem a (words ws) → ∀ i (h : i < ws.length), ws[i] < 2 ^ 64 →
    load mem (a + 8 * i) 8 = ws[i]
  | v :: ws, a, h, 0, _, hlt => by
    rw [words_cons] at h
    have hread := h.left.read
    rw [length_toBytes] at hread
    rw [Nat.mul_zero, Nat.add_zero, ByteMem.load, hread, ofBytes_toBytes hlt]
    rfl
  | v :: ws, a, h, i + 1, hi, hlt => by
    rw [words_cons] at h
    have htail := h.right
    rw [length_toBytes] at htail
    rw [show a + 8 * (i + 1) = a + 8 + 8 * i by omega, htail.load i (Nat.lt_of_succ_lt_succ hi) hlt]
    rfl

/-! ### What was written -/

lemma Wrote.refl (t : Trace) (a : ℕ) : Wrote a a t t := ⟨fun _ _ => rfl, [], rfl, fun _ h => by cases h⟩

lemma Wrote.mono {lo' hi' : ℕ} (h : Wrote lo hi t t') (hlo : lo' ≤ lo) (hhi : hi ≤ hi') : Wrote lo' hi' t t' := by
  obtain ⟨new, hnew, hin⟩ := h.stores
  refine ⟨fun x hx => h.outside x (by omega), new, hnew, fun w hw => ?_⟩
  have := hin w hw
  omega

lemma Wrote.trans (h : Wrote lo hi t t') (h' : Wrote lo hi t' t'') : Wrote lo hi t t'' := by
  obtain ⟨new, hnew, hin⟩ := h.stores
  obtain ⟨new', hnew', hin'⟩ := h'.stores
  refine ⟨fun x hx => ?_, new' ++ new, by rw [hnew', hnew, append_assoc], fun w hw => ?_⟩
  · rw [h'.outside x hx, h.outside x hx]
  · rcases mem_append.mp hw with hw | hw
    · exact hin' w hw
    · exact hin w hw

lemma Wrote.put (t : Trace) (a : ℕ) (bytes : List (BitVec 8)) : Wrote a (a + bytes.length) t (t.put a bytes) := by
  refine ⟨fun x hx => write_outside hx, [(a, bytes.length)], rfl, fun w hw => ?_⟩
  rw [mem_singleton.mp hw]
  exact ⟨Nat.le_refl _, Nat.le_refl _⟩

lemma holds_put (t : Trace) (a : ℕ) (bytes : List (BitVec 8)) : Holds (t.put a bytes).mem a bytes :=
  fun _ hi => write_add hi

lemma Holds.put (h : Holds t.mem a bytes) (bytes' : List (BitVec 8)) :
    Holds (t.put (a + bytes.length) bytes').mem a (bytes ++ bytes') :=
  (h.wrote (Wrote.put ..) (.inl (Nat.le_refl _))).append (holds_put t _ bytes')

/-! ### What was pushed -/

lemma Pushed.refl (r : ℕ × Trace) : Pushed [] r r := ⟨rfl, Wrote.refl .., fun _ h => absurd h (Nat.not_lt_zero _)⟩

lemma Pushed.le (h : Pushed bytes r r') : r'.1 ≤ r.1 := by
  have := h.pointer
  omega

lemma Pushed.put (t : Trace) (a : ℕ) (bytes : List (BitVec 8)) :
    Pushed bytes (a + bytes.length, t) (a, t.put a bytes) :=
  ⟨rfl, Wrote.put .., holds_put t a bytes⟩

/-- **One after the other**: the later bytes lie below. -/
lemma Pushed.trans (h : Pushed bytes r r') (h' : Pushed bytes' r' r'') : Pushed (bytes' ++ bytes) r r'' where
  pointer := by
    rw [length_append, ← Nat.add_assoc, h'.pointer, h.pointer]
  wrote := (h.wrote.mono h'.le (Nat.le_refl _)).trans (h'.wrote.mono (Nat.le_refl _) h.le)
  holds := by
    refine h'.holds.append ?_
    rw [h'.pointer]
    exact h.holds.wrote h'.wrote (.inr (Nat.le_refl _))

end
end ByteMem
