/-
# Tables that point to tables

A memory of tables: `mem p i` is entry `i` of the table `p`, and `child e` is the
table an entry points to, if it points to one. A path of indices leads from a
root to a table (`walk`).

`Unshared` says that no two paths lead to one table: the tables up to a depth
form a tree. It is what makes a change local. Writing an entry of a table of the
last level changes no walk (`walk_write_leaf`); linking an empty new table at a
free entry adds its path and changes no other (`walk_link`), and the tables
still form a tree (`Unshared.link`).
-/
import Mathlib.Data.List.Induction

namespace Radix

open Function List Option

variable {P I E : Type*} (child : E → Option P)

def walk (mem : P → I → E) (root : P) (path : List I) : Option P :=
  path.foldlM (fun p i => child (mem p i)) root

@[simp] lemma walk_nil (mem : P → I → E) (root : P) : walk child mem root [] = some root := rfl

@[simp] lemma walk_snoc (mem : P → I → E) (root : P) (path : List I) (i : I) :
    walk child mem root (path ++ [i]) = (walk child mem root path).bind fun p => child (mem p i) := by
  simp [walk, foldlM_append, bind_eq_bind]

lemma walk_cons (mem : P → I → E) (root : P) (i : I) (path : List I) :
    walk child mem root (i :: path) = (child (mem root i)).bind fun p => walk child mem p path := rfl

lemma walk_append (mem : P → I → E) (root : P) (path path' : List I) :
    walk child mem root (path ++ path') = (walk child mem root path).bind fun p => walk child mem p path' := by
  simp [walk, foldlM_append, bind_eq_bind]

variable {mem mem' : P → I → E} {path path₀ : List I} {i : I} {p : P}

lemma walk_frame {root : P} (path : List I)
    (h : ∀ before i, before ++ [i] <+: path → ∀ p, walk child mem root before = some p → mem' p i = mem p i) :
    walk child mem' root path = walk child mem root path := by
  induction path using List.reverseRecOn with
  | nil => rfl
  | append_singleton path i ih =>
    have hpath := ih fun before j hj => h before j (hj.trans (prefix_append _ _))
    rw [walk_snoc, walk_snoc, hpath]
    cases hp : walk child mem root path with
    | none => rfl
    | some p => rw [bind_some, bind_some, h path i (prefix_refl _) p hp]

lemma walk_of_child (h : ∀ p i, child (mem' p i) = child (mem p i)) (root : P) (path : List I) :
    walk child mem' root path = walk child mem root path := by
  simp only [walk, h]

def entry (mem : P → I → E) (root : P) (path : List I) (i : I) : Option E :=
  (walk child mem root path).map fun p => mem p i

/-- No two paths of at most `depth` indices lead to one table. -/
def Unshared (mem : P → I → E) (root : P) (depth : ℕ) : Prop :=
  ∀ path path' p, path.length ≤ depth → path'.length ≤ depth →
    walk child mem root path = some p → walk child mem root path' = some p → path = path'

lemma Unshared.congr {root : P} {depth : ℕ} {child : E → Option P} (hU : Unshared child mem root depth)
    (h : ∀ path : List I, path.length ≤ depth → walk child mem' root path = walk child mem root path) :
    Unshared child mem' root depth := by
  intro path path' p hl hl' hp hp'
  rw [h path hl] at hp
  rw [h path' hl'] at hp'
  exact hU path path' p hl hl' hp hp'

lemma length_lt_of_snoc_prefix {before : List I} (h : before ++ [i] <+: path) : before.length < path.length := by
  have := h.length_le
  simp only [length_append, length_singleton] at this
  omega

/-! ### The tree of the tables -/

/-- `T` are the tables up to a depth, and they form a tree. -/
structure Tree (child : E → Option P) (mem : P → I → E) (root : P) (depth : ℕ) (T : List P) : Prop where
  unshared : Unshared child mem root depth
  tables : ∀ path p, path.length ≤ depth → walk child mem root path = some p → p ∈ T
  reached : ∀ p ∈ T, ∃ path : List I, path.length ≤ depth ∧ walk child mem root path = some p

namespace Tree

variable {child} {mem mem' : P → I → E} {root : P} {depth : ℕ} {T : List P}

lemma root_mem (hT : Tree child mem root depth T) : root ∈ T := hT.tables [] root (Nat.zero_le _) rfl

lemma ne_root (hT : Tree child mem root depth T) (hne : path ≠ []) (hlen : path.length ≤ depth)
    (hp : walk child mem root path = some p) : p ≠ root := by
  rintro rfl
  exact hne (hT.unshared path [] p hlen (Nat.zero_le _) hp rfl)

lemma empty (h : ∀ i, child (mem root i) = none) : Tree child mem root depth [root] := by
  have hwalk : ∀ path p, walk child mem root path = some p → path = [] ∧ p = root := by
    rintro (_ | ⟨i, path⟩) p hp
    · simpa [eq_comm] using hp
    · simp [walk_cons, h] at hp
  refine ⟨?_, ?_, ?_⟩
  · intro path path' p _ _ hp hp'
    rw [(hwalk path p hp).1, (hwalk path' p hp').1]
  · intro path p _ hp
    simp [(hwalk path p hp).2]
  · intro p hp
    exact ⟨[], Nat.zero_le _, by simp [mem_singleton.mp hp]⟩

section

variable (hT : Tree child mem root depth T)
include hT

/-- Memory in which the walks are the same holds the same tree. -/
lemma of_walk
    (h : ∀ path : List I, path.length ≤ depth → walk child mem' root path = walk child mem root path) :
    Tree child mem' root depth T := by
  refine ⟨hT.unshared.congr h, ?_, ?_⟩
  · intro path p hlen hp
    exact hT.tables path p hlen (h path hlen ▸ hp)
  · intro p hp
    obtain ⟨path, hlen, hpath⟩ := hT.reached p hp
    exact ⟨path, hlen, (h path hlen).trans hpath⟩

section

variable (h : ∀ p ∈ T, mem' p = mem p)
include h

lemma walk_congr (hlen : path.length ≤ depth) :
    walk child mem' root path = walk child mem root path := by
  refine walk_frame child path fun before i hpre p hp => ?_
  have hlt := length_lt_of_snoc_prefix hpre
  rw [h p (hT.tables before p (by omega) hp)]

lemma entry_congr (hlen : path.length ≤ depth)
    (i : I) : entry child mem' root path i = entry child mem root path i := by
  unfold entry
  rw [hT.walk_congr h hlen]
  cases hp : walk child mem root path with
  | none => rfl
  | some p => rw [map_some, map_some, h p (hT.tables path p hlen hp)]

lemma congr :
    Tree child mem' root depth T := hT.of_walk fun _ hlen => hT.walk_congr h hlen

end

end

end Tree

/-! ### Writing entries -/

variable [DecidableEq P] [DecidableEq I]

def write (mem : P → I → E) (p : P) (i : I) (e : E) : P → I → E :=
  update mem p (update (mem p) i e)

@[simp] lemma write_self (mem : P → I → E) (p : P) (i : I) (e : E) : write mem p i e p i = e := by
  simp [write]

@[simp] lemma write_write (mem : P → I → E) (p : P) (i : I) (e e' : E) :
    write (write mem p i e) p i e' = write mem p i e' := by
  simp [write]

lemma write_of_ne (mem : P → I → E) {q : P} {j : I} (e : E) (h : ¬ (q = p ∧ j = i)) :
    write mem p i e q j = mem q j := by
  unfold write
  by_cases hq : q = p
  · subst hq
    rw [update_self, update_of_ne fun hj => h ⟨rfl, hj⟩]
  · rw [update_of_ne hq]

lemma write_table_ne (mem : P → I → E) {q : P} (i : I) (e : E) (h : q ≠ p) : write mem p i e q = mem q := by
  rw [write, update_of_ne h]

variable {child} {mem : P → I → E} {root : P} {depth : ℕ}

section

variable (hU : Unshared child mem root depth)
include hU

/-- A table of the last level holds no entry that a walk to a table reads. -/
lemma walk_write_leaf (hlen : path₀.length = depth)
    (hp : walk child mem root path₀ = some p) (i : I) (e : E) (hle : path.length ≤ depth) :
    walk child (write mem p i e) root path = walk child mem root path := by
  refine walk_frame child path fun before j hpre q hq => ?_
  have hlt := length_lt_of_snoc_prefix hpre
  refine write_of_ne mem e ?_
  rintro ⟨rfl, -⟩
  have := hU before path₀ q (by omega) (by omega) hq hp
  subst this
  omega

/-- Where writing an entry changes no walk, it changes that entry only. -/
lemma entry_write (hlen : path₀.length ≤ depth)
    (hp : walk child mem root path₀ = some p) {e : E}
    (hwalk : ∀ path : List I, path.length ≤ depth → walk child (write mem p i e) root path = walk child mem root path)
    (hle : path.length ≤ depth) (j : I) : entry child (write mem p i e) root path j =
      if path = path₀ ∧ j = i then some e else entry child mem root path j := by
  unfold entry
  rw [hwalk path hle]
  cases hq : walk child mem root path with
  | none =>
    have hne : ¬ (path = path₀ ∧ j = i) := by
      rintro ⟨rfl, -⟩
      simp [hp] at hq
    rw [if_neg hne]
    rfl
  | some q =>
    rw [map_some, map_some]
    by_cases h : path = path₀ ∧ j = i
    · obtain ⟨rfl, rfl⟩ := h
      rw [hp, some.injEq] at hq
      rw [if_pos ⟨rfl, rfl⟩, ← hq, write_self]
    · rw [if_neg h, write_of_ne]
      rintro ⟨rfl, hj⟩
      exact h ⟨hU path path₀ q hle hlen hq hp, hj⟩

lemma entry_write_leaf (hlen : path₀.length = depth)
    (hp : walk child mem root path₀ = some p) (i : I) (e : E) (hle : path.length ≤ depth) (j : I) :
    entry child (write mem p i e) root path j = if path = path₀ ∧ j = i then some e else entry child mem root path j :=
  entry_write hU (Nat.le_of_eq hlen) hp (fun _ => walk_write_leaf hU hlen hp i e) hle j

end

/-- An entry is replaced by one that points to the same table, or to none as before. -/
lemma walk_write_same {e : E} (h : child e = child (mem p i)) (path : List I) :
    walk child (write mem p i e) root path = walk child mem root path := by
  refine walk_of_child child (fun q j => ?_) root path
  by_cases hq : q = p ∧ j = i
  · obtain ⟨rfl, rfl⟩ := hq
    rw [write_self, h]
  · rw [write_of_ne mem e hq]

section Link

variable {path₀ : List I} {p q : P} {i : I} {e : E}

section

variable (hU : Unshared child mem root depth) (hlen : path₀.length < depth) (hp : walk child mem root path₀ = some p)
  (hfree : child (mem p i) = none) (hq : ∀ path : List I, path.length ≤ depth → walk child mem root path ≠ some q)
  (hempty : ∀ j, child (mem q j) = none) (he : child e = some q)
include hU hlen hp hfree hq hempty he

/-- Linking an empty table that no walk reached adds its path and changes no
other. -/
lemma walk_link (path : List I) (hle : path.length ≤ depth) :
    walk child (write mem p i e) root path = if path = path₀ ++ [i] then some q else walk child mem root path := by
  have hqp : q ≠ p := fun h => hq path₀ (by omega) (h ▸ hp)
  induction path using List.reverseRecOn with
  | nil => rw [if_neg (by simp)]; rfl
  | append_singleton path j ih =>
    simp only [length_append, length_singleton] at hle
    rw [walk_snoc, ih (by omega)]
    by_cases h1 : path = path₀ ++ [i]
    · -- below the new table, which is empty
      subst h1
      rw [if_pos rfl, bind_some, write_of_ne mem e (fun h => hqp h.1), hempty,
        if_neg (fun h => by simpa using congrArg List.length h), walk_snoc, walk_snoc, hp, bind_some,
        hfree]
      rfl
    · rw [if_neg h1]
      cases hr : walk child mem root path with
      | none =>
        rw [bind_none, if_neg, walk_snoc, hr, bind_none]
        intro h
        obtain ⟨rfl, -⟩ := append_inj' h rfl
        rw [hp] at hr
        simp at hr
      | some r =>
        rw [bind_some, walk_snoc, hr, bind_some]
        by_cases h2 : r = p ∧ j = i
        · obtain ⟨rfl, rfl⟩ := h2
          rw [hU path path₀ r (by omega) (by omega) hr hp, if_pos rfl, write_self, he]
        · rw [write_of_ne mem e h2, if_neg]
          intro h
          obtain ⟨rfl, hji⟩ := append_inj' h rfl
          rw [hp, some.injEq] at hr
          simp only [List.cons.injEq, and_true] at hji
          exact h2 ⟨hr.symm, hji⟩

lemma Unshared.link : Unshared child (write mem p i e) root depth := by
  intro path path' r hl hl' hr hr'
  rw [walk_link hU hlen hp hfree hq hempty he path hl] at hr
  rw [walk_link hU hlen hp hfree hq hempty he path' hl'] at hr'
  by_cases h : path = path₀ ++ [i] <;> by_cases h' : path' = path₀ ++ [i]
  · rw [h, h']
  · rw [if_pos h, some.injEq] at hr
    rw [if_neg h'] at hr'
    exact absurd (hr ▸ hr') (hq path' hl')
  · rw [if_neg h] at hr
    rw [if_pos h', some.injEq] at hr'
    exact absurd (hr' ▸ hr) (hq path hl)
  · rw [if_neg h] at hr
    rw [if_neg h'] at hr'
    exact hU path path' r hl hl' hr hr'

/-- The entries are as before, but for the link and those of the new table. -/
lemma entry_link (path : List I) (hle : path.length ≤ depth)
    (j : I) : entry child (write mem p i e) root path j = if path = path₀ ++ [i] then some (mem q j)
      else if path = path₀ ∧ j = i then some e else entry child mem root path j := by
  have hqp : q ≠ p := fun h => hq path₀ (by omega) (h ▸ hp)
  unfold entry
  rw [walk_link hU hlen hp hfree hq hempty he path hle]
  by_cases h : path = path₀ ++ [i]
  · rw [if_pos h, if_pos h, map_some, write_table_ne mem i e hqp]
  · rw [if_neg h, if_neg h]
    by_cases h' : path = path₀ ∧ j = i
    · obtain ⟨rfl, rfl⟩ := h'
      rw [if_pos ⟨rfl, rfl⟩, hp, map_some, write_self]
    · rw [if_neg h']
      cases hr : walk child mem root path with
      | none => rfl
      | some r =>
        rw [map_some, map_some, write_of_ne]
        rintro ⟨rfl, hj⟩
        exact h' ⟨hU path path₀ r hle (by omega) hr hp, hj⟩

end

end Link

namespace Tree

variable {T : List P} {path₀ : List I} {p q : P} {i : I} {e : E}

lemma writeLeaf (hT : Tree child mem root depth T) (hlen : path₀.length = depth)
    (hp : walk child mem root path₀ = some p) (i : I) (e : E) : Tree child (write mem p i e) root depth T :=
  hT.of_walk fun _ hle => walk_write_leaf hT.unshared hlen hp i e hle

lemma writeSame (hT : Tree child mem root depth T) (h : child e = child (mem p i)) :
    Tree child (write mem p i e) root depth T := hT.of_walk fun path _ => walk_write_same h path

lemma link (hT : Tree child mem root depth T) (hq : q ∉ T) (hempty : ∀ j, child (mem q j) = none)
    (hlen : path₀.length < depth) (hp : walk child mem root path₀ = some p) (hfree : child (mem p i) = none)
    (he : child e = some q) : Tree child (write mem p i e) root depth (q :: T) ∧
      walk child (write mem p i e) root (path₀ ++ [i]) = some q ∧
      ∀ path : List I, path.length ≤ depth → ∀ j, entry child (write mem p i e) root path j =
        if path = path₀ ++ [i] then some (mem q j)
        else if path = path₀ ∧ j = i then some e else entry child mem root path j := by
  have hout : ∀ path : List I, path.length ≤ depth → walk child mem root path ≠ some q :=
    fun path hle h => hq (hT.tables path q hle h)
  have hwalk := walk_link hT.unshared hlen hp hfree hout hempty he
  have hpath : (path₀ ++ [i]).length ≤ depth := by
    simp only [length_append, length_singleton]
    omega
  refine ⟨⟨hT.unshared.link hlen hp hfree hout hempty he, ?_, ?_⟩, ?_,
    entry_link hT.unshared hlen hp hfree hout hempty he⟩
  · intro path r hle hr
    rw [hwalk path hle] at hr
    split at hr
    · simp [some.inj hr]
    · exact mem_cons_of_mem _ (hT.tables path r hle hr)
  · intro r hr
    rcases mem_cons.mp hr with rfl | hr
    · exact ⟨path₀ ++ [i], hpath, by rw [hwalk _ hpath, if_pos rfl]⟩
    · obtain ⟨path, hle, hr'⟩ := hT.reached r hr
      refine ⟨path, hle, ?_⟩
      rw [hwalk path hle, if_neg, hr']
      -- the path to the new table led nowhere before
      rintro rfl
      rw [walk_snoc, hp, bind_some, hfree] at hr'
      simp at hr'
  · rw [hwalk _ hpath, if_pos rfl]

end Tree

end Radix
