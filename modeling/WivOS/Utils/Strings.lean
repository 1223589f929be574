/-
# Strings

`strcmp`, `strncmp`, `strlen` and `strdup` of `kernel/utils/string.c`, and `hashmap_string_hash` of
`kernel/utils/lists.c`. A string is the memory from a pointer on, to the end of its block; reading
past it is a fault (`none`). Up to its first NUL it stands for its characters (`chars`), and what
the functions return depends on those only.
-/
import Mathlib.Data.List.Infix
import WivOS.Utils.Memory

namespace WivOS.Utils

open List Option Slice

def chars (str : List Byte) : List Byte := str.takeWhile (· ≠ 0)

def strcmp : List Byte → List Byte → Option ℤ
  | a :: s1, b :: s2 =>
    if a = b ∧ a ≠ 0 then strcmp s1 s2
    else if a < b then some (-1)
    else if a > b then some 1
    else if a = 0 ∨ b = 0 then some 0
    else strcmp s1 s2
  | _, _ => none

def strncmp : ℕ → List Byte → List Byte → Option ℤ
  | 0, _, _ => some 0
  | n + 1, a :: s1, b :: s2 =>
    if a = b ∧ a ≠ 0 then strncmp n s1 s2
    else if a < b then some (-1)
    else if a > b then some (-1)
    else if a = 0 ∨ b = 0 then some 0
    else strncmp n s1 s2
  | _ + 1, _, _ => none

def strlen : List Byte → Option ℕ
  | [] => none
  | c :: str => if c = 0 then some 0 else (strlen str).map (· + 1)

def strdup (str : List Byte) : Option (List Byte) := do
  let length ← strlen str
  let strNew ← kmalloc true (length + 1)
  memcpy strNew.bytes 0 str 0 (length + 1)

/-- A round of `hashmap_string_hash`; the character is signed. -/
def hashStep (hash : BitVec 32) (c : Byte) : BitVec 32 := c.signExtend 32 + (hash <<< 6) + (hash <<< 16) - hash

def hashLoop (hash : BitVec 32) : List Byte → Option (BitVec 32)
  | [] => none
  | c :: key => if c = 0 then some hash else hashLoop (hashStep hash c) key

def stringHash (key : List Byte) : Option (BitVec 32) := hashLoop 0 key

section

variable {str : List Byte}

lemma chars_cons_zero (str : List Byte) : chars (0 :: str) = [] := rfl

lemma chars_cons {c : Byte} (hc : c ≠ 0) (str : List Byte) : chars (c :: str) = c :: chars str :=
  takeWhile_cons_of_pos (by simpa using hc)

lemma chars_append {c : List Byte} (h : 0 ∉ c) (rest : List Byte) : chars (c ++ 0 :: rest) = c := by
  induction c with
  | nil => rfl
  | cons b c ih =>
    have hb : b ≠ 0 := fun hb => h (hb ▸ mem_cons_self)
    rw [cons_append, chars_cons hb, ih fun hc => h (mem_cons_of_mem b hc)]

lemma exists_eq_chars_append : ∀ {str : List Byte}, 0 ∈ str → 0 ∉ chars str ∧ ∃ rest, str = chars str ++ 0 :: rest
  | c :: str, h => by
    by_cases hc : c = 0
    · subst hc
      exact ⟨not_mem_nil, str, rfl⟩
    · obtain ⟨hmem, rest, hrest⟩ := exists_eq_chars_append (mem_of_ne_of_mem (Ne.symm hc) h)
      rw [chars_cons hc]
      refine ⟨fun hz => ?_, rest, ?_⟩
      · rcases mem_cons.mp hz with hz | hz
        · exact hc hz.symm
        · exact hmem hz
      · rw [cons_append, ← hrest]

lemma strcmp_spec : ∀ {s1 s2 : List Byte}, 0 ∈ s1 → 0 ∈ s2 →
    ∃ r, strcmp s1 s2 = some r ∧ (r = 0 ↔ chars s1 = chars s2)
  | a :: s1, b :: s2, h1, h2 => by
    by_cases hab : a = b
    · subst hab
      by_cases ha : a = 0
      · subst ha
        exact ⟨0, by simp [strcmp], iff_of_true rfl rfl⟩
      · obtain ⟨r, hr, heq⟩ := strcmp_spec (mem_of_ne_of_mem (Ne.symm ha) h1) (mem_of_ne_of_mem (Ne.symm ha) h2)
        refine ⟨r, ?_, ?_⟩
        · rw [strcmp, if_pos ⟨rfl, ha⟩, hr]
        · rw [heq, chars_cons ha, chars_cons ha, List.cons.injEq, and_iff_right rfl]
    · have hne : chars (a :: s1) ≠ chars (b :: s2) := by
        by_cases ha : a = 0
        · rw [ha, chars_cons_zero, chars_cons fun hb => hab (ha.trans hb.symm)]
          exact cons_ne_nil _ _ |>.symm
        · rw [chars_cons ha]
          by_cases hb : b = 0
          · rw [hb, chars_cons_zero]
            exact cons_ne_nil _ _
          · rw [chars_cons hb]
            exact fun heq => hab (List.cons.inj heq).1
      rw [strcmp, if_neg fun h => hab h.1]
      rcases Nat.lt_or_gt_of_ne fun heq => hab (BitVec.eq_of_toNat_eq heq) with hlt | hlt
      · exact ⟨-1, if_pos hlt, iff_of_false (by decide) hne⟩
      · exact ⟨1, (if_neg (Nat.lt_asymm hlt)).trans (if_pos hlt), iff_of_false (by decide) hne⟩

lemma hashLoop_eq : ∀ {key : List Byte} (hash : BitVec 32), 0 ∈ key →
    hashLoop hash key = some ((chars key).foldl hashStep hash)
  | c :: key, hash, h => by
    by_cases hc : c = 0
    · rw [hashLoop, if_pos hc, hc, chars_cons_zero, foldl_nil]
    · rw [hashLoop, if_neg hc, hashLoop_eq _ (mem_of_ne_of_mem (Ne.symm hc) h), chars_cons hc, foldl_cons]

lemma mem_of_hashLoop : ∀ {key : List Byte} {hash r : BitVec 32}, hashLoop hash key = some r → 0 ∈ key
  | c :: key, hash, r, h => by
    by_cases hc : c = 0
    · rw [hc]
      exact mem_cons_self
    · rw [hashLoop, if_neg hc] at h
      exact mem_cons_of_mem c (mem_of_hashLoop h)

lemma stringHash_eq {key : List Byte} (h : 0 ∈ key) : stringHash key = some ((chars key).foldl hashStep 0) :=
  hashLoop_eq 0 h

lemma strlen_eq : ∀ {str : List Byte}, 0 ∈ str → strlen str = some (chars str).length
  | c :: str, h => by
    by_cases hc : c = 0
    · rw [strlen, if_pos hc, hc, chars_cons_zero, length_nil]
    · rw [strlen, if_neg hc, strlen_eq (mem_of_ne_of_mem (Ne.symm hc) h), chars_cons hc, map_some, length_cons]

lemma strdup_spec (h : 0 ∈ str) : ∃ dup, strdup str = some dup ∧ 0 ∈ dup ∧ chars dup = chars str := by
  have hlength := strlen_eq h
  obtain ⟨hmem, rest, hrest⟩ := exists_eq_chars_append h
  generalize chars str = c at hmem hrest hlength ⊢
  subst hrest
  obtain ⟨b, hb, hok, hsize⟩ := kmalloc_spec (c.length + 1)
  have hfit := hok.size_le
  have hcopy : memcpy b.bytes 0 (c ++ 0 :: rest) 0 (c.length + 1) = _ := memcpy_eq (by omega) (by simp)
  refine ⟨c ++ 0 :: b.bytes.drop (c.length + 1), ?_, by simp, chars_append hmem _⟩
  rw [drop_zero, take_length_add_append] at hcopy
  simp only [strdup, hlength, hb, bind_eq_bind, bind_some, hcopy, splice]
  simp

end

end WivOS.Utils
