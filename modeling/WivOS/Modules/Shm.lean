/-
# Shared memory

`create_chunk`, `shm_sbrk`, `shm_map`, `shm_release_chunk`, `shm_obtain` and `shm_release` of `modules/shm/shm.c`, for
the calls of one process. A name is what `strtok_r` takes a path apart into; the mappings of the process are in a list
that `shm_map` takes to be sorted. A new mapping goes to its back (`Mapped.map`), except for one that is put into a hole
through `list_push_before`. A mapping is its range of addresses.
-/
import WivOS.Lib.Machine
import WivOS.Mem.Pmm
import WivOS.Utils.Lists

namespace WivOS.Shm

open Function List Option WivOS.Lists

def userShmLow : ℕ := 0x0000400100000000

/-- The tokens that `_get_node` asks `strtok_r` for: the parts of a path between its dots, and behind the parts `[]` for
the `NULL` that it gets for an empty path, or for a second dot at the end of a path. -/
abbrev Name := List (List UInt8)

/-- No token is `NULL`. -/
def Plain (name : Name) : Prop := name ≠ [] ∧ [] ∉ name

/-- Besides, each part and the zero behind it fit in `name[256]` of a node, in front of the pointer to its chunk. -/
def Fits (name : Name) : Prop := Plain name ∧ ∀ part ∈ name, part.length < 256

instance (name : Name) : Decidable (Plain name) := inferInstanceAs (Decidable (_ ∧ _))

instance (name : Name) : Decidable (Fits name) := inferInstanceAs (Decidable (_ ∧ _))

structure Chunk where
  parent : Name
  refCount : ℤ
  pageCount : ℕ

structure Mapping where
  chunk : ℕ
  virt : ℕ

/-- The tree, with the chunk of each node (`some none` for a node whose chunk is `NULL`), the
chunks, and `shm_map` and `shm_alloc` of the process. -/
structure State where
  tree : Name → Option (Option ℕ)
  chunks : ℕ → Option Chunk
  fresh : ℕ
  shmMap : Option (ListT Mapping)
  shmAlloc : ℕ

namespace State

/-- `get_node` with `create`: the node and those above it are there afterwards. -/
def createNode (s : State) (name : Name) : State :=
  { s with tree := fun x => if s.tree x = none ∧ x ≠ [] ∧ x <+: name then some none else s.tree x }

def pagesOf (size : ℕ) : ℕ := (size + (pageSize - 1)) % 2 ^ 64 / pageSize * pageSize / pageSize

def sbrk (shmAlloc count : ℕ) : ℕ × ℕ :=
  let start := if shmAlloc % pageSize ≠ 0 then (shmAlloc + (pageSize - shmAlloc % pageSize)) % 2 ^ 64 else shmAlloc
  (start, (start + count * pageSize) % 2 ^ 64)

def holeBody (chunks : ℕ → Option Chunk) (need : ℕ) (lastAddress i : ℕ) (m : Mapping) : Option ((ℕ × ℕ) ⊕ ℕ) :=
  if lastAddress < m.virt ∧ need ≤ m.virt - lastAddress then some (.inl (i, lastAddress))
  else (chunks m.chunk).map fun c => .inr ((m.virt + c.pageCount * pageSize) % 2 ^ 64)

def map (s : State) (k pageCount : ℕ) : Option (State × ℕ) :=
  let need := pageCount * pageSize % 2 ^ 64
  let list := s.shmMap.getD ListT.create
  (list.forEach (holeBody s.chunks need) userShmLow).bind fun
    | .inl (node, lastAddress) =>
      (list.pushBefore node ⟨k, lastAddress⟩).map fun list => ({ s with shmMap := some list }, lastAddress)
    | .inr lastAddress =>
      if lastAddress < s.shmAlloc ∧ need ≤ s.shmAlloc - lastAddress then
        (list.pushBack ⟨k, lastAddress⟩).map fun list => ({ s with shmMap := some list }, lastAddress)
      else
        (list.pushBack ⟨k, (sbrk s.shmAlloc pageCount).1⟩).map fun list =>
          ({ s with shmMap := some list, shmAlloc := (sbrk s.shmAlloc pageCount).2 }, (sbrk s.shmAlloc pageCount).1)

def countUp (s : State) (k : ℕ) (c : Chunk) : State :=
  { s with chunks := update s.chunks k (some { c with refCount := c.refCount + 1 }) }

def createChunk (s : State) (name : Name) (size : ℕ) : State :=
  { s with
    tree := update s.tree name (some (some s.fresh))
    chunks := update s.chunks s.fresh (some ⟨name, 1, pagesOf size⟩)
    fresh := s.fresh + 1 }

/-- `shm_obtain`: the address and the number of pages, or `none` for `NULL`. A part that does not fit is in no node, so
that it is copied past the end of `name` in a new one; the length of a `NULL` token is asked for. -/
def obtain (s : State) (name : Name) (size : ℕ) : Option (State × Option (ℕ × ℕ)) :=
  if Fits name then
    let s := s.createNode name
    match s.tree name with
    | some (some k) => (s.chunks k).bind fun c =>
        ((s.countUp k c).map k c.pageCount).map fun r => (r.1, some (r.2, c.pageCount))
    | _ =>
      if size = 0 then some (s, none)
      else ((s.createChunk name size).map s.fresh (pagesOf size)).map fun r => (r.1, some (r.2, pagesOf size))
  else none

def releaseChunk (s : State) (k : ℕ) (c : Chunk) : State :=
  if c.refCount - 1 ≤ 0 then
    { s with tree := update s.tree c.parent (some none), chunks := update s.chunks k none }
  else { s with chunks := update s.chunks k (some { c with refCount := c.refCount - 1 }) }

def findBody (chunk : Option ℕ) (_ : Unit) (i : ℕ) (m : Mapping) : Option ((ℕ × Mapping) ⊕ Unit) :=
  some (if chunk = some m.chunk then .inl (i, m) else .inr ())

/-- `shm_release`: what `vmm_unmap` is called with, or `none` for -1. A `NULL` token is compared with the names of the
nodes it comes to; a call that comes to none is left out as well. -/
def release (s : State) (name : Name) : Option (State × Option (ℕ × ℕ)) :=
  if Plain name then
    match s.tree name with
    | none => some (s, none)
    | some chunk => s.shmMap.bind fun list => (list.forEach (findBody chunk) ()).bind fun
        | .inr () => some (s, none)
        | .inl (i, m) => (s.chunks m.chunk).bind fun c => (list.remove i).map fun list =>
            ({ s.releaseChunk m.chunk c with shmMap := some list }, some (m.virt, c.pageCount))
  else none

end State

/-! ### The mappings of the process -/

structure Held where
  name : Name
  virt : ℕ
  pageCount : ℕ
deriving DecidableEq

def Held.stop (m : Held) : ℕ := m.virt + m.pageCount * pageSize

inductive Call where
  | obtain (name : Name) (size : ℕ)
  | release (name : Name)

structure Session where
  state : State
  held : List Held

def Session.step (s : Session) : Call → Option Session
  | .obtain name size => (s.state.obtain name size).map fun r => match r.2 with
    | none => ⟨r.1, s.held⟩
    | some (virt, pageCount) => ⟨r.1, s.held ++ [⟨name, virt, pageCount⟩]⟩
  | .release name => (s.state.release name).map fun r => match r.2 with
    | none => ⟨r.1, s.held⟩
    | some (virt, pageCount) => ⟨r.1, s.held.erase ⟨name, virt, pageCount⟩⟩

/-- Some later `shm_release` of its name finds the mapping and unmaps it. -/
inductive Released : Session → Held → Prop
  | now {s : Session} {m : Held} {t : State} : s.state.release m.name = some (t, some (m.virt, m.pageCount)) →
      Released s m
  | later {s s' : Session} {m : Held} : s.step (.release m.name) = some s' → Released s' m → Released s m

structure Sound (s : Session) : Prop where
  disjoint : s.held.Pairwise fun a b => a.stop ≤ b.virt ∨ b.stop ≤ a.virt
  low : ∀ m ∈ s.held, userShmLow ≤ m.virt
  found : ∀ m ∈ s.held, Released s m

/-- No hole in front of a mapping has room for `need` bytes, from `lastAddress` on. -/
def NoHole (need : ℕ) : ℕ → List Held → Prop
  | _, [] => True
  | lastAddress, m :: held => ¬ (lastAddress < m.virt ∧ need ≤ m.virt - lastAddress) ∧ NoHole need m.stop held

/-- The pages that an `shm_obtain` maps, if it maps any. -/
def State.asks (s : State) (name : Name) (size : ℕ) : Option ℕ :=
  match s.tree name with
  | some (some k) => (s.chunks k).map Chunk.pageCount
  | _ => if size = 0 then none else some (State.pagesOf size)

/-- The calls that stay clear of holes, for names that the nodes can hold: a mapping fits in no hole in front of another,
its addresses do not wrap, and a chunk is released only by a process that has obtained one. -/
def Ok (s : Session) : Call → Prop
  | .obtain name size => Fits name ∧ ∀ n, s.state.asks name size = some n →
      NoHole (n * pageSize) userShmLow s.held ∧ s.state.shmAlloc + n * pageSize < 2 ^ 64
  | .release name => Plain name ∧ (s.state.tree name = none ∨ s.state.shmMap ≠ none)

instance decidableNoHole (need : ℕ) : ∀ (lastAddress : ℕ) (held : List Held), Decidable (NoHole need lastAddress held)
  | _, [] => isTrue trivial
  | lastAddress, m :: held =>
    have : Decidable (NoHole need m.stop held) := decidableNoHole need m.stop held
    inferInstanceAs (Decidable (¬ (lastAddress < m.virt ∧ need ≤ m.virt - lastAddress) ∧ NoHole need m.stop held))

instance decidableOk (s : Session) : ∀ call : Call, Decidable (Ok s call)
  | .obtain name size => inferInstanceAs (Decidable (Fits name ∧ ∀ n ∈ s.state.asks name size,
      NoHole (n * pageSize) userShmLow s.held ∧ s.state.shmAlloc + n * pageSize < 2 ^ 64))
  | .release name => inferInstanceAs (Decidable (Plain name ∧ (s.state.tree name = none ∨ s.state.shmMap ≠ none)))

/-! ### The invariant -/

structure Consistent (s : State) : Prop where
  fresh : ∀ k c, s.chunks k = some c → k < s.fresh
  parent : ∀ k c, s.chunks k = some c → s.tree c.parent = some (some k)
  named : ∀ k c, s.chunks k = some c → Plain c.parent
  chunk : ∀ name k, s.tree name = some (some k) → ∃ c, s.chunks k = some c ∧ c.parent = name

def view (chunks : ℕ → Option Chunk) (m : Mapping) : Held :=
  match chunks m.chunk with
  | none => ⟨[], m.virt, 0⟩
  | some c => ⟨c.parent, m.virt, c.pageCount⟩

def views (chunks : ℕ → Option Chunk) (xs : List (ℕ × Mapping)) : List Held := xs.map fun x => view chunks x.2

/-- The mappings in the list are sorted, and below `shm_alloc`. -/
structure Mapped (s : State) (xs : List (ℕ × Mapping)) : Prop where
  list : Represents (s.shmMap.getD ListT.create) xs
  chunk : ∀ x ∈ xs, (s.chunks x.2.chunk).isSome = true
  sorted : (views s.chunks xs).Pairwise fun a b => a.stop ≤ b.virt
  low : ∀ m ∈ views s.chunks xs, userShmLow ≤ m.virt
  below : ∀ m ∈ views s.chunks xs, m.stop ≤ s.shmAlloc
  start : userShmLow ≤ s.shmAlloc
  aligned : s.shmAlloc % pageSize = 0
  fits : s.shmAlloc < 2 ^ 64

def uses (xs : List (ℕ × Mapping)) (k : ℕ) : ℕ := xs.countP fun x => x.2.chunk = k

/-- They are what the process has obtained, and each chunk counts them, at least. -/
structure Inv (s : Session) (xs : List (ℕ × Mapping)) : Prop where
  mapped : Mapped s.state xs
  consistent : Consistent s.state
  held : s.held = views s.state.chunks xs
  counts : ∀ k c, s.state.chunks k = some c → (uses xs k : ℤ) ≤ c.refCount

/-! ### Mapping a chunk -/

def lastStop : ℕ → List Held → ℕ
  | last, [] => last
  | _, m :: held => lastStop m.stop held

section

variable {s s' : State} {xs : List (ℕ × Mapping)} {chunks : ℕ → Option Chunk} {k : ℕ} {c : Chunk} {m : Mapping}
  {held : List Held}

lemma views_append (chunks : ℕ → Option Chunk) (a b : List (ℕ × Mapping)) :
    views chunks (a ++ b) = views chunks a ++ views chunks b := map_append

lemma views_cons (chunks : ℕ → Option Chunk) (x : ℕ × Mapping) (b : List (ℕ × Mapping)) :
    views chunks (x :: b) = view chunks x.2 :: views chunks b := rfl

lemma view_eq (h : chunks m.chunk = some c) : view chunks m = ⟨c.parent, m.virt, c.pageCount⟩ := by
  rw [view, h]

lemma view_virt (chunks : ℕ → Option Chunk) (m : Mapping) : (view chunks m).virt = m.virt := by
  rw [view]
  split <;> rfl

lemma view_update_of_ne (h : m.chunk ≠ k) (o : Option Chunk) : view (update chunks k o) m = view chunks m := by
  rw [view, update_of_ne h, view]

lemma isSome_update {k' : ℕ} (h : (chunks k').isSome = true) (c : Chunk) :
    (update chunks k (some c) k').isSome = true := by
  by_cases hk : k' = k
  · rw [hk, update_self, isSome_some]
  · rw [update_of_ne hk, h]

lemma view_update_count (hc : chunks k = some c) (n : ℤ) (m : Mapping) :
    view (update chunks k (some { c with refCount := n })) m = view chunks m := by
  by_cases hk : m.chunk = k
  · subst hk
    rw [view_eq hc, view_eq (update_self ..)]
  · exact view_update_of_ne hk _

lemma Mapped.congr (h : Mapped s xs) (hmap : s'.shmMap = s.shmMap) (halloc : s'.shmAlloc = s.shmAlloc)
    (hchunk : ∀ x ∈ xs, (s'.chunks x.2.chunk).isSome = true) (hview : views s'.chunks xs = views s.chunks xs) :
    Mapped s' xs where
  list := hmap ▸ h.list
  chunk := hchunk
  sorted := hview ▸ h.sorted
  low := hview ▸ h.low
  below := by
    rw [hview, halloc]
    exact h.below
  start := halloc ▸ h.start
  aligned := halloc ▸ h.aligned
  fits := halloc ▸ h.fits

lemma lastStop_concat (last : ℕ) (held : List Held) (m : Held) : lastStop last (held ++ [m]) = m.stop := by
  induction held generalizing last with
  | nil => rfl
  | cons m' held ih => exact ih m'.stop

lemma Held.virt_le_stop (m : Held) : m.virt ≤ m.stop := Nat.le_add_right _ _

lemma le_lastStop {low : ℕ} (h : ∀ m ∈ held, low ≤ m.virt) : low ≤ lastStop low held := by
  obtain rfl | ⟨rest, m, rfl⟩ := held.eq_nil_or_concat'
  · exact Nat.le_refl low
  · rw [lastStop_concat]
    exact Nat.le_trans (h m (by simp)) m.virt_le_stop

lemma stop_le_lastStop (hsorted : held.Pairwise fun a b => a.stop ≤ b.virt) (last : ℕ) :
    ∀ m ∈ held, m.stop ≤ lastStop last held := by
  intro m hm
  obtain rfl | ⟨rest, m', rfl⟩ := held.eq_nil_or_concat'
  · cases hm
  · rw [lastStop_concat]
    rw [pairwise_append] at hsorted
    rcases mem_append.mp hm with hm | hm
    · exact Nat.le_trans (hsorted.2.2 m hm m' (by simp)) m'.virt_le_stop
    · rw [mem_singleton.mp hm]

lemma loop_holeBody_cons {need last : ℕ} {x : ℕ × Mapping} (hchunk : ∀ y ∈ x :: xs, (chunks y.2.chunk).isSome = true)
    (hfits : ∀ m ∈ views chunks (x :: xs), m.stop < 2 ^ 64) (hhole : ¬ (last < x.2.virt ∧ need ≤ x.2.virt - last)) :
    loop (State.holeBody chunks need) (x :: xs) last = loop (State.holeBody chunks need) xs (view chunks x.2).stop := by
  obtain ⟨c, hc⟩ := isSome_iff_exists.mp (hchunk x mem_cons_self)
  have hlt := hfits (view chunks x.2) mem_cons_self
  rw [view_eq hc, Held.stop] at hlt ⊢
  rw [loop, State.holeBody, if_neg hhole, hc, map_some, bind_some, Nat.mod_eq_of_lt hlt]

lemma loop_holeBody (chunks : ℕ → Option Chunk) (need : ℕ) : ∀ (xs : List (ℕ × Mapping)) (last : ℕ),
    (∀ x ∈ xs, (chunks x.2.chunk).isSome = true) → (∀ m ∈ views chunks xs, m.stop < 2 ^ 64) →
    NoHole need last (views chunks xs) →
    loop (State.holeBody chunks need) xs last = some (.inr (lastStop last (views chunks xs)))
  | [], _, _, _, _ => rfl
  | x :: xs, last, hchunk, hfits, ⟨hhole, hrest⟩ => by
    simp only [view_virt] at hhole
    rw [loop_holeBody_cons hchunk hfits hhole]
    exact loop_holeBody chunks need xs _ (fun y hy => hchunk y (mem_cons_of_mem x hy))
      (fun m hm => hfits m (mem_cons_of_mem _ hm)) hrest

lemma sbrk_eq {shmAlloc count : ℕ} (haligned : shmAlloc % pageSize = 0) (hfits : shmAlloc + count * pageSize < 2 ^ 64) :
    State.sbrk shmAlloc count = (shmAlloc, shmAlloc + count * pageSize) := by
  rw [State.sbrk, if_neg (not_not.mpr haligned), Nat.mod_eq_of_lt hfits]

lemma Mapped.concat (h : Mapped s xs) (hc : s.chunks k = some c) {list : ListT Mapping} {i virt alloc : ℕ}
    (hlist : Represents list (xs ++ [(i, ⟨k, virt⟩)])) (hbehind : ∀ m ∈ views s.chunks xs, m.stop ≤ virt)
    (hlow : userShmLow ≤ virt) (hend : virt + c.pageCount * pageSize ≤ alloc) (halloc : s.shmAlloc ≤ alloc)
    (haligned : alloc % pageSize = 0) (hfits : alloc < 2 ^ 64) :
    Mapped { s with shmMap := some list, shmAlloc := alloc } (xs ++ [(i, ⟨k, virt⟩)]) := by
  have hviews : views s.chunks (xs ++ [(i, ⟨k, virt⟩)]) = views s.chunks xs ++ [⟨c.parent, virt, c.pageCount⟩] := by
    rw [views_append, views_cons, view_eq hc]
    rfl
  refine ⟨hlist, fun x hx => ?_, ?_, ?_, ?_, Nat.le_trans h.start halloc, haligned, hfits⟩
  · rcases mem_append.mp hx with hx | hx
    · exact h.chunk x hx
    · rw [mem_singleton.mp hx]
      exact isSome_iff_exists.mpr ⟨c, hc⟩
  · rw [hviews, pairwise_append]
    refine ⟨h.sorted, pairwise_singleton .., fun a ha b hb => ?_⟩
    rw [mem_singleton.mp hb]
    exact hbehind a ha
  · intro m hm
    rw [hviews] at hm
    rcases mem_append.mp hm with hm | hm
    · exact h.low m hm
    · rw [mem_singleton.mp hm]
      exact hlow
  · intro m hm
    rw [hviews] at hm
    rcases mem_append.mp hm with hm | hm
    · exact Nat.le_trans (h.below m hm) halloc
    · rw [mem_singleton.mp hm]
      exact hend

/-- **`shm_map` with no hole** puts the mapping behind the others. -/
lemma Mapped.map (h : Mapped s xs) (hc : s.chunks k = some c)
    (hhole : NoHole (c.pageCount * pageSize) userShmLow (views s.chunks xs))
    (hfits : s.shmAlloc + c.pageCount * pageSize < 2 ^ 64) :
    ∃ list virt alloc i, s.map k c.pageCount = some ({ s with shmMap := some list, shmAlloc := alloc }, virt) ∧
      Mapped { s with shmMap := some list, shmAlloc := alloc } (xs ++ [(i, ⟨k, virt⟩)]) := by
  have hneed : c.pageCount * pageSize % 2 ^ 64 = c.pageCount * pageSize :=
    Nat.mod_eq_of_lt (Nat.lt_of_le_of_lt (Nat.le_add_left _ _) hfits)
  have hwalk := loop_holeBody s.chunks (c.pageCount * pageSize) xs userShmLow h.chunk
    (fun m hm => Nat.lt_of_le_of_lt (h.below m hm) h.fits) hhole
  rw [← h.list.forEach] at hwalk
  simp only [State.map, hneed, hwalk, bind_some]
  by_cases hroom : lastStop userShmLow (views s.chunks xs) < s.shmAlloc ∧
      c.pageCount * pageSize ≤ s.shmAlloc - lastStop userShmLow (views s.chunks xs)
  · obtain ⟨list, hpush, hlist, -⟩ := h.list.pushBack ⟨k, lastStop userShmLow (views s.chunks xs)⟩
    refine ⟨list, _, s.shmAlloc, _, ?_, h.concat hc hlist (stop_le_lastStop h.sorted _)
      (le_lastStop h.low) ?_ (Nat.le_refl _)
      h.aligned h.fits⟩
    · rw [if_pos hroom, hpush, map_some]
    · omega
  · obtain ⟨list, hpush, hlist, -⟩ := h.list.pushBack ⟨k, s.shmAlloc⟩
    refine ⟨list, _, s.shmAlloc + c.pageCount * pageSize, _, ?_, h.concat hc hlist h.below h.start (Nat.le_refl _)
      (Nat.le_add_right _ _) ?_ hfits⟩
    · rw [if_neg hroom, sbrk_eq h.aligned hfits, hpush, map_some]
    · rw [Nat.add_mul_mod_self_right, h.aligned]

end

/-! ### The tree and the chunks -/

section

variable {s : State} {xs : List (ℕ × Mapping)} {name : Name} {k : ℕ} {c : Chunk} {x : Name}

lemma createNode_some {o : Option ℕ} (h : s.tree x = some o) (name : Name) :
    (s.createNode name).tree x = some o := by
  have hne : ¬ (s.tree x = none ∧ x ≠ [] ∧ x <+: name) := by
    rw [h]
    exact fun hnone => some_ne_none o hnone.1
  exact (if_neg hne).trans h

lemma createNode_none (hname : name ≠ []) (h : s.tree name = none) : (s.createNode name).tree name = some none :=
  if_pos ⟨h, hname, prefix_rfl⟩

lemma some_of_createNode (h : (s.createNode name).tree x = some (some k)) : s.tree x = some (some k) := by
  by_cases hnew : s.tree x = none ∧ x ≠ [] ∧ x <+: name
  · have hnone : (s.createNode name).tree x = some none := if_pos hnew
    rw [hnone] at h
    cases h
  · exact (if_neg hnew).symm.trans h

section

variable (h : Consistent s)
include h

lemma Consistent.createNode (name : Name) : Consistent (s.createNode name) where
  fresh := h.fresh
  parent k c hc := createNode_some (h.parent k c hc) name
  named := h.named
  chunk x k hx := h.chunk x k (some_of_createNode hx)

lemma Consistent.fresh_none : s.chunks s.fresh = none := by
  cases hc : s.chunks s.fresh with
  | none => rfl
  | some c => exact absurd (h.fresh _ _ hc) (Nat.lt_irrefl _)

lemma Consistent.recount (hc : s.chunks k = some c) (n : ℤ) (list : Option (ListT Mapping)) :
    Consistent { s with chunks := update s.chunks k (some { c with refCount := n }), shmMap := list } := by
  have hold : ∀ k' c', update s.chunks k (some { c with refCount := n }) k' = some c' →
      ∃ c'', s.chunks k' = some c'' ∧ c''.parent = c'.parent := by
    intro k' c' h'
    by_cases hk : k' = k
    · subst hk
      rw [update_self] at h'
      exact ⟨c, hc, by rw [← some.inj h']⟩
    · rw [update_of_ne hk] at h'
      exact ⟨c', h', rfl⟩
  refine ⟨fun k' c' h' => ?_, fun k' c' h' => ?_, fun k' c' h' => ?_, fun x k' hx => ?_⟩
  · obtain ⟨c'', hc'', -⟩ := hold k' c' h'
    exact h.fresh k' c'' hc''
  · obtain ⟨c'', hc'', hparent⟩ := hold k' c' h'
    rw [← hparent]
    exact h.parent k' c'' hc''
  · obtain ⟨c'', hc'', hparent⟩ := hold k' c' h'
    rw [← hparent]
    exact h.named k' c'' hc''
  · obtain ⟨c', hc', hparent⟩ := h.chunk x k' hx
    by_cases hk : k' = k
    · subst hk
      rw [hc] at hc'
      exact ⟨_, update_self .., by rw [← hparent, ← some.inj hc']⟩
    · exact ⟨c', (update_of_ne hk ..).trans hc', hparent⟩

lemma Consistent.createChunk (hname : Plain name) (hnode : s.tree name = some none) (size : ℕ) :
    Consistent (s.createChunk name size) := by
  refine ⟨fun k c hc => ?_, fun k c hc => ?_, fun k c hc => ?_, fun x k hx => ?_⟩
  all_goals dsimp only [State.createChunk] at *
  · by_cases hk : k = s.fresh
    · omega
    · rw [update_of_ne hk] at hc
      exact Nat.lt_succ_of_lt (h.fresh k c hc)
  · by_cases hk : k = s.fresh
    · subst hk
      rw [update_self] at hc
      rw [← some.inj hc, update_self]
    · rw [update_of_ne hk] at hc
      have hparent := h.parent k c hc
      have hne : c.parent ≠ name := by
        intro he
        rw [he, hnode] at hparent
        cases hparent
      rw [update_of_ne hne, hparent]
  · by_cases hk : k = s.fresh
    · subst hk
      rw [update_self] at hc
      rw [← some.inj hc]
      exact hname
    · rw [update_of_ne hk] at hc
      exact h.named k c hc
  · by_cases hxn : x = name
    · subst hxn
      rw [update_self] at hx
      cases hx
      exact ⟨_, update_self .., rfl⟩
    · rw [update_of_ne hxn] at hx
      obtain ⟨c, hc, hparent⟩ := h.chunk x k hx
      exact ⟨c, (update_of_ne (Nat.ne_of_lt (h.fresh k c hc)) ..).trans hc, hparent⟩

lemma Consistent.free (hc : s.chunks k = some c) (list : Option (ListT Mapping)) :
    Consistent { s with
      tree := update s.tree c.parent (some none)
      chunks := update s.chunks k none
      shmMap := list } := by
  have hold : ∀ k' c', update s.chunks k none k' = some c' → k' ≠ k ∧ s.chunks k' = some c' := by
    intro k' c' h'
    by_cases hk : k' = k
    · subst hk
      rw [update_self] at h'
      cases h'
    · rw [update_of_ne hk] at h'
      exact ⟨hk, h'⟩
  refine ⟨fun k' c' h' => h.fresh k' c' (hold k' c' h').2, fun k' c' h' => ?_, fun k' c' h' =>
    h.named k' c' (hold k' c' h').2,
    fun x k' hx => ?_⟩
  · obtain ⟨hk, hc'⟩ := hold k' c' h'
    have hparent := h.parent k' c' hc'
    have hne : c'.parent ≠ c.parent := by
      intro he
      rw [he, h.parent k c hc] at hparent
      exact hk (some.inj (some.inj hparent)).symm
    exact (update_of_ne hne ..).trans hparent
  · dsimp only at hx
    by_cases hxc : x = c.parent
    · subst hxc
      rw [update_self] at hx
      cases hx
    · rw [update_of_ne hxc] at hx
      obtain ⟨c', hc', hparent⟩ := h.chunk x k' hx
      have hk : k' ≠ k := by
        intro he
        subst he
        rw [hc] at hc'
        exact hxc (by rw [← hparent, some.inj hc'])
      exact ⟨c', (update_of_ne hk ..).trans hc', hparent⟩

end

end

end WivOS.Shm
