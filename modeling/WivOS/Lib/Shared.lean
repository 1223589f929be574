/-
# Pages that several tables map

Objects made of pages, and the tables of `n` users, each a list of virtual and physical pages. An
object is created with pages that are not given out, users map it and unmap it, and its pages are
given back when it goes. A user can also get a new table; the pages of the old one are given back
then, whoever they belong to.

The books say of each page whether it is given out and whose page it was last, and count for each page
of an object how often it was given back (`returned`). `Paged` is what the operations keep: the pages
of an object that is there have not been given back, those of one that is gone exactly once, and a
table maps the pages of the objects that its user has mapped. A user that maps an object must not get a
new table (`Paged.replace`).
-/
import Mathlib.Data.List.Basic

namespace Shared

open Function List Option

structure Pages (n : ℕ) where
  base : ℕ → ℕ
  size : ℕ → ℕ
  table : Fin n → List (ℕ × ℕ)
  out : ℕ → Bool
  owner : ℕ → Option (ℕ × ℕ)
  returned : ℕ × ℕ → ℕ

variable {n : ℕ}

namespace Pages

variable (P : Pages n)

def give (ps : List ℕ) (f : ℕ → Option (ℕ × ℕ)) : Pages n :=
  { P with
    out := fun p => decide (p ∈ ps) || P.out p
    owner := fun p => if p ∈ ps then f p else P.owner p }

def free (ps : List ℕ) : Pages n :=
  { P with
    out := fun p => !decide (p ∈ ps) && P.out p
    returned := fun o => P.returned o + ps.countP fun p => P.owner p = some o }

def place (k base size : ℕ) : Pages n :=
  { P with base := update P.base k base, size := update P.size k size }

def pagesOf (k : ℕ) : List ℕ := (List.range (P.size k)).map (P.base k + ·)

def create (k base size : ℕ) : Pages n :=
  (P.place k base size).give ((List.range size).map (base + ·)) fun p => some (k, p - base)

def outside (table : List (ℕ × ℕ)) (v count : ℕ) : List (ℕ × ℕ) := table.filter fun x => ¬ (v ≤ x.1 ∧ x.1 < v + count)

def map (u : Fin n) (k v : ℕ) : Pages n :=
  let entries := (List.range (P.size k)).map fun i => (v + i, P.base k + i)
  { P with table := update P.table u (outside (P.table u) v (P.size k) ++ entries) }

def unmap (u : Fin n) (v count : ℕ) : Pages n :=
  { P with table := update P.table u (outside (P.table u) v count) }

def destroy (k : ℕ) : Pages n := P.free (P.pagesOf k)

def replace (u : Fin n) (table : List (ℕ × ℕ)) : Pages n :=
  let P' := (P.give (table.map Prod.snd) fun _ => none).free ((P.table u).map Prod.snd)
  { P' with table := update P.table u table }

end Pages

/-- The objects `alive` among the first `fresh`, and where the users have mapped them. -/
structure Paged (alive : ℕ → Prop) (fresh : ℕ) (maps : Fin n → List (ℕ × ℕ)) (P : Pages n) : Prop where
  known : ∀ k, alive k → k < fresh
  live : ∀ k i, alive k → i < P.size k →
    P.returned (k, i) = 0 ∧ P.owner (P.base k + i) = some (k, i) ∧ P.out (P.base k + i) = true
  dead : ∀ k i, k < fresh → ¬ alive k → i < P.size k → P.returned (k, i) = 1
  unused : ∀ k i, fresh ≤ k → P.returned (k, i) = 0
  out : ∀ u, ∀ x ∈ P.table u, P.out x.2 = true
  shared : ∀ u, ∀ x ∈ P.table u, ∀ k i, P.owner x.2 = some (k, i) →
    i < P.size k ∧ ∃ v, (k, v) ∈ maps u ∧ x = (v + i, P.base k + i)
  own : ∀ u u', ∀ x ∈ P.table u, ∀ x' ∈ P.table u', x.2 = x'.2 → P.owner x.2 = none → u = u'
  mapped : ∀ u, ∀ m ∈ maps u, alive m.1 ∧ ∀ i < P.size m.1, (m.2 + i, P.base m.1 + i) ∈ P.table u

variable {x : ℕ × ℕ} {i p k' : ℕ} {u' : Fin n}

section

variable {P : Pages n} {alive alive' : ℕ → Prop} {fresh k v : ℕ} {maps : Fin n → List (ℕ × ℕ)} {u : Fin n}

lemma Paged.returned_eq_zero (h : Paged alive fresh maps P) (hx : x ∈ P.table u)
    (howner : P.owner x.2 = some (k, i)) : P.returned (k, i) = 0 := by
  obtain ⟨hi, v, hv, -⟩ := h.shared u x hx k i howner
  exact (h.live k i (h.mapped u _ hv).1 hi).1

lemma Paged.congr (h : Paged alive fresh maps P) (halive : ∀ k, alive' k ↔ alive k) : Paged alive' fresh maps P := by
  obtain rfl : alive' = alive := funext fun k => propext (halive k)
  exact h

lemma mem_outside {table : List (ℕ × ℕ)} {count : ℕ} :
    x ∈ Pages.outside table v count ↔ x ∈ table ∧ ¬ (v ≤ x.1 ∧ x.1 < v + count) := by
  rw [Pages.outside, mem_filter, decide_eq_true_iff]

lemma mem_pagesOf : p ∈ P.pagesOf k ↔ ∃ i < P.size k, P.base k + i = p := by
  simp only [Pages.pagesOf, List.mem_map, mem_range]

/-! ### A new object -/

section

variable {base size : ℕ}

lemma mem_range_map : p ∈ (List.range size).map (base + ·) ↔ base ≤ p ∧ p < base + size := by
  simp only [List.mem_map, mem_range]
  exact ⟨fun ⟨i, hi, hp⟩ => by omega, fun hp => ⟨p - base, by omega, by omega⟩⟩

lemma create_owner (hfree : ∀ i < size, P.out (base + i) = false) (hp : P.out p = true) :
    (P.create k base size).owner p = P.owner p := by
  refine if_neg fun hmem => ?_
  obtain ⟨hle, hlt⟩ := mem_range_map.mp hmem
  have hpage := hfree (p - base) (by omega)
  rw [Nat.add_sub_cancel' hle, hp] at hpage
  cases hpage

lemma create_out (hp : P.out p = true) : (P.create k base size).out p = true := by
  show (_ || P.out p) = true
  rw [hp, Bool.or_true]

lemma create_size_other (hk : k' ≠ k) : (P.create k base size).size k' = P.size k' := update_of_ne hk _ _

lemma create_base_other (hk : k' ≠ k) : (P.create k base size).base k' = P.base k' := update_of_ne hk _ _

lemma create_page (hi : i < size) :
    (P.create k base size).owner (base + i) = some (k, i) ∧ (P.create k base size).out (base + i) = true := by
  have hmem : base + i ∈ (List.range size).map (base + ·) := mem_range_map.mpr (by omega)
  constructor
  · refine (if_pos hmem).trans ?_
    rw [Nat.add_sub_cancel_left]
  · show (decide _ || _) = true
    rw [decide_eq_true hmem, Bool.true_or]

lemma Paged.create (h : Paged alive fresh maps P) (hfree : ∀ i < size, P.out (base + i) = false) :
    Paged (fun k => alive k ∨ k = fresh) (fresh + 1) maps (P.create fresh base size) := by
  have hself : (P.create fresh base size).size fresh = size := update_self _ _ _
  have hselfb : (P.create fresh base size).base fresh = base := update_self _ _ _
  have hne : ∀ k, alive k → k ≠ fresh := fun k hk => Nat.ne_of_lt (h.known k hk)
  refine ⟨fun k hk => ?_, fun k i hk hi => ?_, fun k i hk hdead hi => ?_, fun k i hk => ?_,
    fun u x hx => create_out (h.out u x hx),
    fun u x hx k i hxo => ?_, fun u u' x hx x' hx' heq hxo => ?_, fun u m hm => ?_⟩
  · rcases hk with hk | rfl
    · exact Nat.lt_succ_of_lt (h.known k hk)
    · exact Nat.lt_succ_self k
  · rcases hk with hk | rfl
    · rw [create_size_other (hne k hk)] at hi
      obtain ⟨hreturned, hpage, hisOut⟩ := h.live k i hk hi
      rw [create_base_other (hne k hk), create_owner hfree hisOut, create_out hisOut]
      exact ⟨hreturned, hpage, rfl⟩
    · rw [hself] at hi
      rw [hselfb]
      exact ⟨h.unused k i (Nat.le_refl k), create_page hi⟩
  · have hk' : k ≠ fresh := fun he => hdead (Or.inr he)
    rw [create_size_other hk'] at hi
    exact h.dead k i (by omega) (fun ha => hdead (Or.inl ha)) hi
  · exact h.unused k i (by omega)
  · rw [create_owner hfree (h.out u x hx)] at hxo
    obtain ⟨hi, v, hv, rfl⟩ := h.shared u x hx k i hxo
    have hk := hne k (h.mapped u _ hv).1
    exact ⟨by rw [create_size_other hk]; exact hi, v, hv, by rw [create_base_other hk]⟩
  · rw [create_owner hfree (h.out u x hx)] at hxo
    exact h.own u u' x hx x' hx' heq hxo
  · obtain ⟨ha, htable⟩ := h.mapped u m hm
    have hk := hne m.1 ha
    refine ⟨Or.inl ha, fun i hi => ?_⟩
    rw [create_size_other hk] at hi
    rw [create_base_other hk]
    exact htable i hi

end

/-! ### Mapping -/

lemma map_table_self (P : Pages n) (u : Fin n) (k v : ℕ) :
    (P.map u k v).table u = Pages.outside (P.table u) v (P.size k) ++
    (List.range (P.size k)).map fun i => (v + i, P.base k + i) := update_self _ _ _

lemma map_table_other (P : Pages n) {u : Fin n} (hu : u' ≠ u) (k v : ℕ) : (P.map u k v).table u' = P.table u' :=
  update_of_ne hu _ _

lemma mem_map_table (hx : x ∈ (P.map u k v).table u') :
    x ∈ P.table u' ∨ u' = u ∧ ∃ i < P.size k, x = (v + i, P.base k + i) := by
  by_cases hu : u' = u
  · subst hu
    rw [map_table_self] at hx
    rcases mem_append.mp hx with hx | hx
    · exact Or.inl (mem_outside.mp hx).1
    · obtain ⟨i, hi, rfl⟩ := mem_map.mp hx
      exact Or.inr ⟨rfl, i, mem_range.mp hi, rfl⟩
  · rw [map_table_other P hu] at hx
    exact Or.inl hx

section

variable (h : Paged alive fresh maps P)
include h

lemma Paged.page_ne (hk : alive k) (hp : P.owner p = none) (hi : i < P.size k) :
    p ≠ P.base k + i := by
  rintro rfl
  rw [(h.live k i hk hi).2.1] at hp
  cases hp

/-- The entries of a mapping that is apart from `count` pages from `v` on stay. -/
lemma Paged.mapped_outside {m : ℕ × ℕ} (hm : m ∈ maps u) {count : ℕ}
    (hapart : m.2 + P.size m.1 ≤ v ∨ v + count ≤ m.2) (hi : i < P.size m.1) :
    (m.2 + i, P.base m.1 + i) ∈ Pages.outside (P.table u) v count := by
  refine mem_outside.mpr ⟨(h.mapped u m hm).2 i hi, ?_⟩
  dsimp only
  omega

/-- **Mapping an object**, at pages that no other mapping of the user has. -/
lemma Paged.map (hk : alive k)
    (hapart : ∀ m ∈ maps u, m.2 + P.size m.1 ≤ v ∨ v + P.size k ≤ m.2) :
    Paged alive fresh (update maps u (maps u ++ [(k, v)])) (P.map u k v) := by
  have hmaps : ∀ u', maps u' ⊆ update maps u (maps u ++ [(k, v)]) u' := by
    intro u' m hm
    by_cases hu : u' = u
    · subst hu
      rw [update_self]
      exact mem_append_left _ hm
    · rw [update_of_ne hu]
      exact hm
  refine ⟨h.known, h.live, h.dead, h.unused, fun u' x hx => ?_, fun u' x hx k' i hxo => ?_,
    fun u1 u2 x hx x' hx' heq hxo => ?_, fun u' m hm => ?_⟩
  · rcases mem_map_table hx with hx | ⟨-, i, hi, rfl⟩
    · exact h.out u' x hx
    · exact (h.live k i hk hi).2.2
  · rcases mem_map_table hx with hx | ⟨rfl, j, hj, rfl⟩
    · obtain ⟨hi, v', hv', rfl⟩ := h.shared u' x hx k' i hxo
      exact ⟨hi, v', hmaps u' hv', rfl⟩
    · have hxo' : P.owner (P.base k + j) = some (k', i) := hxo
      rw [(h.live k j hk hj).2.1] at hxo'
      cases hxo'
      refine ⟨hj, v, ?_, rfl⟩
      rw [update_self]
      exact mem_append_right _ mem_cons_self
  · rcases mem_map_table hx with hx | ⟨-, i, hi, rfl⟩
    · rcases mem_map_table hx' with hx' | ⟨-, i, hi, rfl⟩
      · exact h.own u1 u2 x hx x' hx' heq hxo
      · exact absurd heq (h.page_ne hk hxo hi)
    · exact absurd rfl (h.page_ne hk hxo hi)
  · by_cases hu : u' = u
    · subst hu
      rw [update_self] at hm
      rw [map_table_self]
      rcases mem_append.mp hm with hm | hm
      · exact ⟨(h.mapped u' m hm).1, fun i hi => mem_append_left _ (h.mapped_outside hm (hapart m hm) hi)⟩
      · rw [mem_singleton.mp hm]
        exact ⟨hk, fun i hi => mem_append_right _ (mem_map.mpr ⟨i, mem_range.mpr hi, rfl⟩)⟩
    · rw [update_of_ne hu] at hm
      rw [map_table_other P hu]
      exact h.mapped u' m hm

lemma Paged.unmap {a b : List (ℕ × ℕ)} (hmaps : maps u = a ++ (k, v) :: b)
    (hapart : ∀ m ∈ a ++ b, m.2 + P.size m.1 ≤ v ∨ v + P.size k ≤ m.2) :
    Paged alive fresh (update maps u (a ++ b)) (P.unmap u v (P.size k)) := by
  have htable : (P.unmap u v (P.size k)).table u = Pages.outside (P.table u) v (P.size k) := update_self _ _ _
  have hother : ∀ u', u' ≠ u → (P.unmap u v (P.size k)).table u' = P.table u' := fun u' hu => update_of_ne hu _ _
  have hmem : ∀ u', ∀ x ∈ (P.unmap u v (P.size k)).table u', x ∈ P.table u' := by
    intro u' x hx
    by_cases hu : u' = u
    · subst hu
      rw [htable] at hx
      exact (mem_outside.mp hx).1
    · rw [hother u' hu] at hx
      exact hx
  refine ⟨h.known, h.live, h.dead, h.unused, fun u' x hx => h.out u' x (hmem u' x hx), fun u' x hx k' i hxo => ?_,
    fun u1 u2 x hx x' hx' => h.own u1 u2 x (hmem u1 x hx) x' (hmem u2 x' hx'), fun u' m hm => ?_⟩
  · obtain ⟨hi, v', hv', rfl⟩ := h.shared u' x (hmem u' x hx) k' i hxo
    refine ⟨hi, v', ?_, rfl⟩
    by_cases hu : u' = u
    · subst hu
      rw [htable] at hx
      have hout := (mem_outside.mp hx).2
      rw [hmaps] at hv'
      rw [update_self]
      rcases mem_append.mp hv' with hv' | hv'
      · exact mem_append_left _ hv'
      · rcases mem_cons.mp hv' with heq | hv'
        · -- an entry of this mapping is not outside of its pages
          obtain ⟨rfl, rfl⟩ := Prod.mk.inj heq
          have hi' : i < P.size k' := hi
          exact absurd ⟨Nat.le_add_right _ _, Nat.add_lt_add_left hi' _⟩ hout
        · exact mem_append_right _ hv'
    · rw [update_of_ne hu]
      exact hv'
  · by_cases hu : u' = u
    · subst hu
      rw [update_self] at hm
      have hm' : m ∈ maps u' := by
        rw [hmaps]
        exact (List.Sublist.append_left (sublist_cons_self _ _) _).subset hm
      rw [htable]
      exact ⟨(h.mapped u' m hm').1, fun i hi => h.mapped_outside hm' (hapart m hm) hi⟩
    · rw [update_of_ne hu] at hm
      rw [hother u' hu]
      exact h.mapped u' m hm

/-! ### An object goes -/

lemma Paged.not_mem_pagesOf (hk : alive k) (hk' : alive k') (hne : k' ≠ k)
    (hi : i < P.size k') : P.base k' + i ∉ P.pagesOf k := by
  intro hp
  obtain ⟨j, hj, hp⟩ := mem_pagesOf.mp hp
  have howner := (h.live k' i hk' hi).2.1
  rw [← hp, (h.live k j hk hj).2.1] at howner
  exact hne (Prod.mk.inj (some.inj howner)).1.symm

lemma Paged.table_not_mem_pagesOf (hk : alive k) (hnone : ∀ u, ∀ m ∈ maps u, m.1 ≠ k)
    (hx : x ∈ P.table u) : x.2 ∉ P.pagesOf k := by
  intro hp
  obtain ⟨j, hj, hp⟩ := mem_pagesOf.mp hp
  have howner := (h.live k j hk hj).2.1
  rw [hp] at howner
  obtain ⟨-, v, hv, -⟩ := h.shared u x hx k j howner
  exact hnone u _ hv rfl

lemma Paged.destroy_returned_other (hk : alive k) (hne : k' ≠ k) (i : ℕ) :
    (P.destroy k).returned (k', i) = P.returned (k', i) := by
  show P.returned (k', i) + (P.pagesOf k).countP (fun p => P.owner p = some (k', i)) = P.returned (k', i)
  rw [countP_eq_zero.mpr, Nat.add_zero]
  intro p hp
  obtain ⟨j, hj, rfl⟩ := mem_pagesOf.mp hp
  rw [(h.live k j hk hj).2.1, decide_eq_true_iff]
  exact fun heq => hne (Prod.mk.inj (some.inj heq)).1.symm

lemma Paged.destroy_returned_self (hk : alive k) (hi : i < P.size k) :
    (P.destroy k).returned (k, i) = 1 := by
  show P.returned (k, i) + (P.pagesOf k).countP (fun p => P.owner p = some (k, i)) = 1
  rw [(h.live k i hk hi).1, Nat.zero_add, Pages.pagesOf, countP_map]
  have hcongr : (List.range (P.size k)).countP ((fun p => decide (P.owner p = some (k, i))) ∘ (P.base k + ·)) =
      (List.range (P.size k)).countP (· == i) := by
    refine countP_congr fun j hj => ?_
    rw [Function.comp_apply, (h.live k j hk (mem_range.mp hj)).2.1]
    simp
  rw [hcongr, ← count_eq_countP, nodup_range.count, if_pos (mem_range.mpr hi)]

end

lemma destroy_out (hp : p ∉ P.pagesOf k) : (P.destroy k).out p = P.out p := by
  show (!decide _ && P.out p) = P.out p
  rw [decide_eq_false hp, Bool.not_false, Bool.true_and]

/-- **An object goes** that nobody maps. -/
lemma Paged.destroy (h : Paged alive fresh maps P) (hk : alive k) (hnone : ∀ u, ∀ m ∈ maps u, m.1 ≠ k) :
    Paged (fun k' => alive k' ∧ k' ≠ k) fresh maps (P.destroy k) := by
  refine ⟨fun k' hk' => h.known k' hk'.1, fun k' i hk' hi => ?_, fun k' i hlt hdead hi => ?_, fun k' i hlt => ?_,
    fun u x hx => ?_, h.shared, h.own, fun u m hm => ?_⟩
  · obtain ⟨hreturned, howner, hisOut⟩ := h.live k' i hk'.1 hi
    exact ⟨(h.destroy_returned_other hk hk'.2 i).trans hreturned, howner,
      (destroy_out (h.not_mem_pagesOf hk hk'.1 hk'.2 hi)).trans hisOut⟩
  · by_cases hk' : k' = k
    · subst hk'
      exact h.destroy_returned_self hk hi
    · rw [h.destroy_returned_other hk hk']
      exact h.dead k' i hlt (fun ha => hdead ⟨ha, hk'⟩) hi
  · rw [h.destroy_returned_other hk (Nat.ne_of_gt (Nat.lt_of_lt_of_le (h.known k hk) hlt))]
    exact h.unused k' i hlt
  · rw [destroy_out (h.table_not_mem_pagesOf hk hnone hx)]
    exact h.out u x hx
  · exact ⟨⟨(h.mapped u m hm).1, hnone u m hm⟩, (h.mapped u m hm).2⟩

/-! ### A new table -/

section

variable {table : List (ℕ × ℕ)}

lemma replace_table_self (P : Pages n) (u : Fin n) (table : List (ℕ × ℕ)) : (P.replace u table).table u = table :=
  update_self _ _ _

lemma replace_table_other (P : Pages n) {u : Fin n} (hu : u' ≠ u) (table : List (ℕ × ℕ)) :
    (P.replace u table).table u' = P.table u' := update_of_ne hu _ _

lemma Paged.ne_free (h : Paged alive fresh maps P) (hx : x ∈ P.table u) (hp : P.out p = false) : x.2 ≠ p := by
  rintro rfl
  cases hp.symm.trans (h.out u x hx)

lemma Paged.owner_eq_none (h : Paged alive fresh maps P) (hmaps : maps u = []) (hx : x ∈ P.table u) :
    P.owner x.2 = none := by
  cases howner : P.owner x.2 with
  | none => rfl
  | some o =>
    obtain ⟨-, v, hv, -⟩ := h.shared u x hx o.1 o.2 howner
    rw [hmaps] at hv
    cases hv

lemma replace_owner (hfree : ∀ x ∈ table, P.out x.2 = false) (hp : P.out p = true) :
    (P.replace u table).owner p = P.owner p := by
  refine if_neg fun hmem => ?_
  obtain ⟨x, hx, rfl⟩ := mem_map.mp hmem
  cases (hfree x hx).symm.trans hp

lemma Paged.replace_returned (h : Paged alive fresh maps P) (hmaps : maps u = [])
    (hfree : ∀ x ∈ table, P.out x.2 = false) (o : ℕ × ℕ) : (P.replace u table).returned o = P.returned o := by
  show P.returned o + ((P.table u).map Prod.snd).countP (fun p => (P.replace u table).owner p = some o) = P.returned o
  rw [countP_eq_zero.mpr, Nat.add_zero]
  intro p hp
  obtain ⟨x, hx, rfl⟩ := mem_map.mp hp
  rw [replace_owner hfree (h.out u x hx), h.owner_eq_none hmaps hx]
  simp

lemma replace_out (hp : P.out p = true ∨ p ∈ table.map Prod.snd) (hmem : p ∉ (P.table u).map Prod.snd) :
    (P.replace u table).out p = true := by
  show (!decide (p ∈ (P.table u).map Prod.snd) && (decide (p ∈ table.map Prod.snd) || P.out p)) = true
  rw [decide_eq_false hmem, Bool.not_false, Bool.true_and, Bool.or_eq_true, decide_eq_true_eq]
  exact hp.symm

lemma Paged.replace_out_table (h : Paged alive fresh maps P) (hmaps : maps u = [])
    (hfree : ∀ x ∈ table, P.out x.2 = false) (hx : x ∈ (P.replace u table).table u') :
    (P.replace u table).out x.2 = true := by
  by_cases hu : u' = u
  · subst hu
    rw [replace_table_self] at hx
    refine replace_out (.inr (mem_map_of_mem hx)) fun hmem => ?_
    obtain ⟨y, hy, heq⟩ := mem_map.mp hmem
    exact h.ne_free hy (hfree x hx) heq
  · rw [replace_table_other P hu] at hx
    refine replace_out (.inl (h.out u' x hx)) fun hmem => ?_
    obtain ⟨y, hy, heq⟩ := mem_map.mp hmem
    exact hu (h.own u u' y hy x hx heq (h.owner_eq_none hmaps hy)).symm

lemma Paged.replace_own (h : Paged alive fresh maps P) (hfree : ∀ x ∈ table, P.out x.2 = false) {u1 u2 : Fin n}
    {x' : ℕ × ℕ} (hx : x ∈ (P.replace u table).table u1) (hx' : x' ∈ (P.replace u table).table u2) (heq : x.2 = x'.2)
    (hxo : (P.replace u table).owner x.2 = none) : u1 = u2 := by
  by_cases hu1 : u1 = u
  · subst hu1
    rw [replace_table_self] at hx
    by_contra hne
    rw [replace_table_other P (Ne.symm hne)] at hx'
    exact h.ne_free hx' (hfree x hx) heq.symm
  · rw [replace_table_other P hu1] at hx
    by_cases hu2 : u2 = u
    · subst hu2
      rw [replace_table_self] at hx'
      exact absurd heq (h.ne_free hx (hfree x' hx'))
    · rw [replace_table_other P hu2] at hx'
      rw [replace_owner hfree (h.out u1 x hx)] at hxo
      exact h.own u1 u2 x hx x' hx' heq hxo

/-- **A new table** for a user that maps no object. -/
lemma Paged.replace (h : Paged alive fresh maps P) (hmaps : maps u = []) (hfree : ∀ x ∈ table, P.out x.2 = false) :
    Paged alive fresh maps (P.replace u table) := by
  have hreturned := h.replace_returned hmaps hfree
  refine ⟨h.known, fun k i hk hi => ?_, fun k i hk hdead hi => ?_, fun k i hk => ?_,
    fun u' x hx => h.replace_out_table hmaps hfree hx,
    fun u' x hx k i hxo => ?_, fun u1 u2 x hx x' hx' heq hxo => h.replace_own hfree hx hx' heq hxo, fun u' m hm => ?_⟩
  · obtain ⟨hzero, hpage, hisOut⟩ := h.live k i hk hi
    refine ⟨(hreturned _).trans hzero, (replace_owner hfree hisOut).trans hpage, replace_out (.inl hisOut)
      fun hmem => ?_⟩
    obtain ⟨x, hx, heq⟩ := mem_map.mp hmem
    have hnone := h.owner_eq_none hmaps hx
    rw [heq] at hnone
    exact some_ne_none _ (hpage.symm.trans hnone)
  · exact (hreturned _).trans (h.dead k i hk hdead hi)
  · exact (hreturned _).trans (h.unused k i hk)
  · by_cases hu : u' = u
    · subst hu
      rw [replace_table_self] at hx
      have hnone : (P.replace u' table).owner x.2 = none := if_pos (mem_map_of_mem hx)
      rw [hnone] at hxo
      cases hxo
    · rw [replace_table_other P hu] at hx
      rw [replace_owner hfree (h.out u' x hx)] at hxo
      exact h.shared u' x hx k i hxo
  · have hu : u' ≠ u := by
      rintro rfl
      rw [hmaps] at hm
      cases hm
    rw [replace_table_other P hu]
    exact h.mapped u' m hm

end

end

end Shared
