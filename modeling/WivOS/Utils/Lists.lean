/-
# Doubly linked lists

`list_create`, `list_push_before`, `list_push_back`, `list_remove_front`, `list_remove_back`, `list_remove` and
`foreach` of `kernel/utils/lists.c` and `lists.h`. A node that was freed is gone; an access to no node, and a `foreach`
that runs in circles, is `none`. A list that is only pushed to at its back and removed from stays what it should be
(`Represents`); `list_push_before` keeps nothing of this.
-/
import Mathlib.Data.List.Nodup
import WivOS.Lib.Linked

namespace WivOS.Lists

open Function Linked List Option

variable {α : Type*}

structure ListT (α : Type*) where
  heap : Heap α
  fresh : ℕ
  root : Option ℕ
  tail : Option ℕ
  length : ℕ

namespace ListT

def create : ListT α := ⟨fun _ => none, 0, none, none, 0⟩

def pushBefore (l : ListT α) (lastNode : ℕ) (value : α) : Option (ListT α) :=
  let previous := if l.tail = some lastNode then none else l.tail
  let tail := if l.tail = some lastNode then some l.fresh else l.tail
  let heap := update l.heap l.fresh (some ⟨value, previous, some lastNode⟩)
  (l.heap lastNode).map fun last =>
    ⟨update heap lastNode (some { last with previous := some l.fresh }), l.fresh + 1, l.root, tail, l.length + 1⟩

def pushBack (l : ListT α) (value : α) : Option (ListT α) :=
  let heap := update l.heap l.fresh (some ⟨value, l.tail, none⟩)
  let root := if l.root = none then some l.fresh else l.root
  match l.tail with
  | none => some ⟨heap, l.fresh + 1, root, some l.fresh, l.length + 1⟩
  | some t => (heap t).map fun last =>
      ⟨update heap t (some { last with next := some l.fresh }), l.fresh + 1, root, some l.fresh, l.length + 1⟩

def removeFront (l : ListT α) : Option (ListT α) :=
  match l.root with
  | none => some l
  | some r => (l.heap r).bind fun node =>
      match node.next with
      | none => some { l with heap := update l.heap r none, root := none, tail := none, length := l.length - 1 }
      | some q => (l.heap q).map fun second =>
          { l with
            heap := update (update l.heap q (some { second with previous := none })) r none
            root := some q
            length := l.length - 1 }

def removeBack (l : ListT α) : Option (ListT α) :=
  match l.tail with
  | none => some l
  | some t => (l.heap t).bind fun node =>
      match node.previous with
      | none => some { l with heap := update l.heap t none, root := none, tail := none, length := l.length - 1 }
      | some p => (l.heap p).map fun last =>
          { l with
            heap := update (update l.heap p (some { last with next := none })) t none
            tail := some p
            length := l.length - 1 }

def remove (l : ListT α) (i : ℕ) : Option (ListT α) :=
  if l.root = some i then l.removeFront
  else if l.tail = some i then l.removeBack
  else (l.heap i).bind fun node => node.previous.bind fun p => node.next.bind fun q => (l.heap p).bind fun before =>
    let heap := update l.heap p (some { before with next := some q })
    (heap q).map fun behind =>
      { l with
        heap := update (update heap q (some { behind with previous := some p })) i none
        length := l.length - 1 }

def rounds {β ρ : Type*} (heap : Heap α) (body : β → ℕ → α → Option (ρ ⊕ β)) : ℕ → Option ℕ → β → Option (ρ ⊕ β)
  | _, none, b => some (.inr b)
  | 0, some _, _ => none
  | n + 1, some i, b => (heap i).bind fun node => (body b i node.value).bind fun
      | .inl r => some (.inl r)
      | .inr b => rounds heap body n node.next b

def forEach {β ρ : Type*} (l : ListT α) (body : β → ℕ → α → Option (ρ ⊕ β)) (b : β) : Option (ρ ⊕ β) :=
  rounds l.heap body l.fresh l.root b

end ListT

/-! ### What a list should be -/

structure Represents (l : ListT α) (xs : List (ℕ × α)) : Prop where
  seg : Seg l.heap none l.root xs l.tail none
  nodup : (xs.map Prod.fst).Nodup
  fresh : ∀ x ∈ xs, x.1 < l.fresh
  room : xs.length ≤ l.fresh
  length : l.length = xs.length

open ListT

lemma represents_create : Represents (create : ListT α) [] :=
  ⟨⟨rfl, rfl⟩, nodup_nil, nofun, Nat.le_refl _, rfl⟩

variable {l : ListT α} {xs : List (ℕ × α)}

lemma Represents.fresh_not_mem (h : Represents l xs) : l.fresh ∉ xs.map Prod.fst := by
  intro hmem
  obtain ⟨x, hx, he⟩ := mem_map.mp hmem
  have hlt := h.fresh x hx
  omega

lemma Represents.concat (h : Represents l xs) (value : α) {l' : ListT α}
    (hseg : Seg l'.heap none l'.root (xs ++ [(l.fresh, value)]) l'.tail none) (hfresh : l'.fresh = l.fresh + 1)
    (hlength : l'.length = l.length + 1) : Represents l' (xs ++ [(l.fresh, value)]) := by
  have hlen : (xs ++ [(l.fresh, value)]).length = xs.length + 1 := by
    rw [length_append]
    rfl
  refine ⟨hseg, ?_, fun x hx => ?_, ?_, ?_⟩
  · rw [map_append, nodup_append]
    refine ⟨h.nodup, nodup_singleton _, fun a ha b hb hab => ?_⟩
    rw [map_singleton, mem_singleton] at hb
    rw [hab, hb] at ha
    exact h.fresh_not_mem ha
  · rw [hfresh]
    rcases mem_append.mp hx with hx | hx
    · exact Nat.lt_succ_of_lt (h.fresh x hx)
    · rw [mem_singleton.mp hx]
      exact Nat.lt_succ_self _
  · rw [hlen, hfresh]
    exact Nat.succ_le_succ h.room
  · rw [hlen, hlength, h.length]

lemma Represents.pushBack (h : Represents l xs) (value : α) :
    ∃ l', l.pushBack value = some l' ∧ Represents l' (xs ++ [(l.fresh, value)]) ∧ l'.fresh = l.fresh + 1 := by
  have hnew := h.fresh_not_mem
  obtain rfl | ⟨ys, x, rfl⟩ := xs.eq_nil_or_concat'
  · obtain ⟨htail, hroot⟩ := h.seg
    have hpush : l.pushBack value = some ⟨update l.heap l.fresh (some ⟨value, none, none⟩), l.fresh + 1,
        some l.fresh, some l.fresh, l.length + 1⟩ := by
      simp only [pushBack, htail, hroot, if_true]
    refine ⟨_, hpush, h.concat value ?_ rfl rfl, rfl⟩
    exact seg_singleton.mpr ⟨rfl, rfl, update_self ..⟩
  · obtain ⟨before, hys, htail, hx⟩ := seg_concat.mp h.seg
    have hne : x.1 ≠ l.fresh := Nat.ne_of_lt (h.fresh x (by simp))
    have hx' : update l.heap l.fresh (some ⟨value, some x.1, none⟩) x.1 = some ⟨x.2, before, none⟩ := by
      rw [update_of_ne hne, hx]
    have hpush : l.pushBack value = some ⟨update (update l.heap l.fresh (some ⟨value, some x.1, none⟩)) x.1
        (some ⟨x.2, before, some l.fresh⟩), l.fresh + 1, l.root, some l.fresh, l.length + 1⟩ := by
      simp only [pushBack, htail, hx', map_some, if_neg hys.start_ne_none]
    refine ⟨_, hpush, h.concat value ?_ rfl rfl, rfl⟩
    have hnodup := h.nodup
    rw [map_append, nodup_append] at hnodup
    rw [map_append, mem_append, not_or] at hnew
    have hxys : x.1 ∉ ys.map Prod.fst := fun hmem => hnodup.2.2 x.1 hmem x.1 (by simp) rfl
    refine seg_concat.mpr ⟨some x.1, seg_concat.mpr ⟨before, (hys.update hnew.1 _).update hxys _, rfl, ?_⟩, rfl, ?_⟩
    · exact update_self ..
    · exact (update_of_ne (Ne.symm hne) ..).trans (update_self ..)

variable {a b : List (ℕ × α)} {x y : ℕ × α}

lemma Represents.without (h : Represents l (a ++ x :: b)) {l' : ListT α}
    (hseg : Seg l'.heap none l'.root (a ++ b) l'.tail none) (hfresh : l'.fresh = l.fresh)
    (hlength : l'.length = l.length - 1) : Represents l' (a ++ b) := by
  have hsub : (a ++ b).Sublist (a ++ x :: b) := List.Sublist.append_left (sublist_cons_self x b) a
  have hlen : (a ++ x :: b).length = (a ++ b).length + 1 := by
    simp only [length_append, length_cons]
    omega
  have hroom := h.room
  refine ⟨hseg, h.nodup.sublist (hsub.map _), fun y hy => ?_, ?_, ?_⟩
  · rw [hfresh]
    exact h.fresh y (hsub.subset hy)
  · rw [hfresh]
    omega
  · rw [hlength, h.length]
    omega

lemma Represents.removeFront (h : Represents l (x :: b)) :
    ∃ l', l.removeFront = some l' ∧ Represents l' b ∧ l'.fresh = l.fresh := by
  obtain ⟨hroot, next, hx, hb⟩ := h.seg
  have hnodup := h.nodup
  rw [map_cons, nodup_cons] at hnodup
  have hdone : ∀ l' : ListT α, Seg l'.heap none l'.root b l'.tail none → l'.fresh = l.fresh → l'.length = l.length - 1 →
      Represents l' b := fun l' => @Represents.without α l [] b x h l'
  cases b with
  | nil =>
    obtain ⟨-, rfl⟩ := hb
    have hremove : l.removeFront =
        some { l with heap := update l.heap x.1 none, root := none, tail := none, length := l.length - 1 } := by
      simp only [removeFront, hroot, hx, bind_some]
    exact ⟨_, hremove, hdone _ ⟨rfl, rfl⟩ rfl rfl, rfl⟩
  | cons y b =>
    obtain ⟨rfl, next', hy, hb⟩ := hb
    have hxy : y.1 ≠ x.1 := fun he => hnodup.1 (by simp [← he])
    have hremove : l.removeFront = some { l with
        heap := update (update l.heap y.1 (some ⟨y.2, none, next'⟩)) x.1 none
        root := some y.1
        length := l.length - 1 } := by
      simp only [removeFront, hroot, hx, bind_some, hy, map_some]
    refine ⟨_, hremove, hdone _ ⟨rfl, next', ?_, ?_⟩ rfl rfl, rfl⟩
    · exact (update_of_ne hxy ..).trans (update_self ..)
    · have hnodup' := hnodup.2
      rw [map_cons, nodup_cons] at hnodup'
      exact (hb.update hnodup'.1 _).update (fun hmem => hnodup.1 (mem_cons_of_mem _ hmem)) _

lemma Represents.seg_unlinked (h : Represents l (a ++ [y] ++ [x])) :
    ∃ before, l.tail = some x.1 ∧ l.heap x.1 = some ⟨x.2, some y.1, none⟩ ∧ l.heap y.1 = some ⟨y.2, before, some x.1⟩ ∧
      Seg (update l.heap y.1 (some ⟨y.2, before, none⟩)) none l.root (a ++ [y]) (some y.1) none := by
  obtain ⟨before, hay, htail, hx⟩ := seg_concat.mp h.seg
  obtain ⟨before', ha, rfl, hy⟩ := seg_concat.mp hay
  have hnodup := h.nodup
  rw [map_append, nodup_append, map_append, nodup_append] at hnodup
  have hya : y.1 ∉ a.map Prod.fst := fun hmem => hnodup.1.2.2 y.1 hmem y.1 (by simp) rfl
  exact ⟨before', htail, hx, hy, seg_concat.mpr ⟨before', ha.update hya _, rfl, update_self ..⟩⟩

lemma Represents.last_not_mem (h : Represents l (a ++ [x])) : x.1 ∉ a.map Prod.fst := by
  have hnodup := h.nodup
  rw [map_append, nodup_append] at hnodup
  exact fun hmem => hnodup.2.2 x.1 hmem x.1 (by simp) rfl

lemma Represents.withoutLast (h : Represents l (a ++ [x])) {l' : ListT α}
    (hseg : Seg l'.heap none l'.root a l'.tail none) (hfresh : l'.fresh = l.fresh)
    (hlength : l'.length = l.length - 1) : Represents l' a := by
  have hdone := @Represents.without α l a [] x h l'
  rw [append_nil] at hdone
  exact hdone hseg hfresh hlength

lemma Represents.removeBack (h : Represents l (a ++ [x])) :
    ∃ l', l.removeBack = some l' ∧ Represents l' a ∧ l'.fresh = l.fresh := by
  have hxa := h.last_not_mem
  obtain rfl | ⟨a, y, rfl⟩ := a.eq_nil_or_concat'
  · obtain ⟨-, htail, hx⟩ := seg_singleton.mp h.seg
    have hremove : l.removeBack =
        some { l with heap := update l.heap x.1 none, root := none, tail := none, length := l.length - 1 } := by
      simp only [removeBack, htail, hx, bind_some]
    exact ⟨_, hremove, h.withoutLast ⟨rfl, rfl⟩ rfl rfl, rfl⟩
  · obtain ⟨before, htail, hx, hy, hseg⟩ := h.seg_unlinked
    have hremove : l.removeBack = some { l with
        heap := update (update l.heap y.1 (some ⟨y.2, before, none⟩)) x.1 none
        tail := some y.1
        length := l.length - 1 } := by
      simp only [removeBack, htail, hx, bind_some, hy, map_some]
    exact ⟨_, hremove, h.withoutLast (hseg.update hxa none) rfl rfl, rfl⟩

lemma Represents.root_ne_last (h : Represents l (a ++ [y] ++ [x])) : l.root ≠ some x.1 := by
  obtain ⟨before, hay, -, -⟩ := seg_concat.mp h.seg
  obtain ⟨w, hw, he⟩ := hay.start_mem (by simp)
  rw [he]
  intro hwx
  have hmem : w.1 ∈ (a ++ [y]).map Prod.fst := mem_map_of_mem hw
  rw [some.inj hwx] at hmem
  exact h.last_not_mem hmem

lemma Represents.removeMiddle {z : ℕ × α} (h : Represents l (a ++ [y] ++ x :: z :: b)) :
    ∃ l', l.remove x.1 = some l' ∧ Represents l' (a ++ [y] ++ z :: b) ∧ l'.fresh = l.fresh := by
  obtain ⟨last, start, hay, rfl, next, hx, hzb⟩ := (seg_append ..).mp h.seg
  obtain ⟨before, ha, rfl, hy⟩ := seg_concat.mp hay
  have hnodup := h.nodup
  rw [map_append, nodup_append, map_cons, nodup_cons, map_append, nodup_append] at hnodup
  obtain ⟨⟨-, -, hya⟩, ⟨hxzb, hzbnodup⟩, hapart⟩ := hnodup
  rw [map_cons, nodup_cons] at hzbnodup
  -- the three nodes are three, and none of them is in `a` or `b` again
  have hfront : ∀ w ∈ a ++ [y], ∀ w' ∈ x :: z :: b, w.1 ≠ w'.1 := fun w hw w' hw' =>
    hapart w.1 (by rw [← map_append]; exact mem_map_of_mem hw) w'.1 (mem_map_of_mem hw')
  have hroot : l.root ≠ some x.1 := by
    obtain ⟨w, hw, he⟩ := hay.start_mem (by simp)
    rw [he]
    exact fun hwx => hfront w hw x (by simp) (some.inj hwx)
  have htail : l.tail ≠ some x.1 := by
    obtain ⟨w, hw, he⟩ := hzb.last_mem (by simp)
    rw [he]
    exact fun hwx => hxzb (some.inj hwx ▸ mem_map_of_mem hw)
  obtain ⟨rfl, next', hz, hb⟩ := hzb
  have hyx : y.1 ≠ x.1 := hfront y (by simp) x (by simp)
  have hyz : y.1 ≠ z.1 := hfront y (by simp) z (by simp)
  have hzx : z.1 ≠ x.1 := fun he => hxzb (by simp [← he])
  have hz' : update l.heap y.1 (some ⟨y.2, before, some z.1⟩) z.1 = some ⟨z.2, some x.1, next'⟩ := by
    rw [update_of_ne (Ne.symm hyz), hz]
  let heap := update (update (update l.heap y.1 (some ⟨y.2, before, some z.1⟩)) z.1
    (some ⟨z.2, some y.1, next'⟩)) x.1 none
  have hremove : l.remove x.1 = some { l with heap := heap, length := l.length - 1 } := by
    simp only [remove, if_neg hroot, if_neg htail, hx, bind_some, hy, hz', map_some]
    rfl
  have hnotin : ∀ w ∈ x :: z :: b, w.1 ∉ a.map Prod.fst := by
    intro w hw hmem
    obtain ⟨w', hw', he⟩ := mem_map.mp hmem
    exact hfront w' (mem_append_left _ hw') w hw he
  have hynotb : y.1 ∉ b.map Prod.fst := by
    intro hmem
    obtain ⟨w, hw, he⟩ := mem_map.mp hmem
    exact hfront y (by simp) w (by simp [hw]) he.symm
  have hxnotb : x.1 ∉ b.map Prod.fst := fun hmem => hxzb (mem_cons_of_mem _ hmem)
  refine ⟨_, hremove, h.without ((seg_append ..).mpr ⟨some y.1, some z.1, ?_, rfl, next', ?_, ?_⟩) rfl rfl, rfl⟩
  · refine seg_concat.mpr ⟨before, ?_, rfl, ?_⟩
    · exact ((ha.update (fun hmem => hya y.1 hmem y.1 (by simp) rfl) _).update (hnotin z (by simp)) _).update
        (hnotin x (by simp)) _
    · exact (update_of_ne hyx ..).trans ((update_of_ne hyz ..).trans (update_self ..))
  · exact (update_of_ne hzx ..).trans (update_self ..)
  · exact ((hb.update hynotb _).update hzbnodup.1 _).update hxnotb _

lemma Represents.remove (h : Represents l (a ++ x :: b)) :
    ∃ l', l.remove x.1 = some l' ∧ Represents l' (a ++ b) ∧ l'.fresh = l.fresh := by
  obtain rfl | ⟨a, y, rfl⟩ := a.eq_nil_or_concat'
  · have hroot : l.root = some x.1 := h.seg.1
    rw [remove, if_pos hroot]
    exact h.removeFront
  · cases b with
    | nil =>
      obtain ⟨-, -, htail, -⟩ := seg_concat.mp h.seg
      rw [append_nil, remove, if_neg h.root_ne_last, if_pos htail]
      exact h.removeBack
    | cons z b => exact h.removeMiddle

/-! ### Going over a list -/

def loop {β ρ : Type*} (body : β → ℕ → α → Option (ρ ⊕ β)) : List (ℕ × α) → β → Option (ρ ⊕ β)
  | [], b => some (.inr b)
  | x :: xs, b => (body b x.1 x.2).bind fun
      | .inl r => some (.inl r)
      | .inr b => loop body xs b

lemma rounds_seg {β ρ : Type*} {heap heap' : Heap α} (body : β → ℕ → α → Option (ρ ⊕ β)) : ∀ (xs : List (ℕ × α)) (n : ℕ)
    (prev start last : Option ℕ) (b : β), Seg heap prev start xs last none →
    (∀ x ∈ xs, ∀ node, heap x.1 = some node → ∃ previous, heap' x.1 = some { node with previous := previous }) →
    xs.length ≤ n → rounds heap' body n start b = loop body xs b
  | [], n, _, start, _, b, h, _, _ => by
    rw [h.2]
    cases n with
    | zero => rfl
    | succ n => rfl
  | x :: xs, 0, _, _, _, _, _, _, hn => absurd hn (Nat.not_succ_le_zero _)
  | x :: xs, n + 1, _, start, last, b, h, hsame, hn => by
    obtain ⟨rfl, next, hx, hxs⟩ := h
    obtain ⟨previous, hx'⟩ := hsame x mem_cons_self _ hx
    rw [rounds, hx', bind_some, loop]
    cases body b x.1 x.2 with
    | none => rfl
    | some outcome =>
      cases outcome with
      | inl r => rfl
      | inr b' =>
        exact rounds_seg body xs n (some x.1) next last b' hxs (fun y hy => hsame y (mem_cons_of_mem x hy))
          (Nat.le_of_succ_le_succ hn)

lemma Represents.forEach {β ρ : Type*} (h : Represents l xs) (body : β → ℕ → α → Option (ρ ⊕ β)) (b : β) :
    l.forEach body b = loop body xs b :=
  rounds_seg body xs l.fresh none l.root l.tail b h.seg (fun _ _ node hnode => ⟨node.previous, hnode⟩) h.room

lemma loop_find {ρ : Type*} {body : Unit → ℕ → α → Option (ρ ⊕ Unit)} {P : ℕ × α → Prop} [DecidablePred P]
    {f : ℕ × α → ρ} : ∀ {xs : List (ℕ × α)}, (∀ x ∈ xs, body () x.1 x.2 = some (if P x then .inl (f x) else .inr ())) →
    (∃ a x b, xs = a ++ x :: b ∧ (∀ y ∈ a, ¬ P y) ∧ P x ∧ loop body xs () = some (.inl (f x))) ∨
    (∀ x ∈ xs, ¬ P x) ∧ loop body xs () = some (.inr ())
  | [], _ => .inr ⟨nofun, rfl⟩
  | x :: xs, h => by
    obtain ⟨hx, hxs⟩ := forall_mem_cons.mp h
    rw [loop, hx, bind_some]
    by_cases hP : P x
    · rw [if_pos hP]
      exact .inl ⟨[], x, xs, rfl, nofun, hP, rfl⟩
    · rw [if_neg hP]
      rcases loop_find hxs with ⟨a, y, b, rfl, ha, hy, hloop⟩ | ⟨hnone, hloop⟩
      · exact .inl ⟨x :: a, y, b, rfl, forall_mem_cons.mpr ⟨hP, ha⟩, hy, hloop⟩
      · exact .inr ⟨forall_mem_cons.mpr ⟨hP, hnone⟩, hloop⟩

end WivOS.Lists
