/-
# Shared memory of several processes

Runs of `shm_obtain`, `shm_release` and `execve` by any number of processes. The tables of the processes and the pages
of the chunks are those of `Lib/Shared.lean`; `vmm_free_pml4` gives back every page that a table maps
(`Vmm.vmmFreePml4_gives_back`). A chunk counts its mappings, but `execve` gives back its pages with the old table
(`pages_freed_while_mapped`).
-/
import Mathlib.Algebra.BigOperators.Fin
import WivOS.Lib.Shared
import WivOS.Modules.ShmRun

namespace WivOS.Shm

open Function List Option WivOS.Lists Machine
open Shared (Pages Paged)

/-- `shm_map` and `shm_alloc` of a process, and the mappings that its address space has. -/
structure Proc where
  shmMap : Option (ListT Mapping)
  shmAlloc : ℕ
  mappings : List Mapping

/-- The tree, the chunks and `n` processes. `pages` has the pages of the chunks (`phys` and
`pageCount`, also of those that are gone) and the lower halves of the page tables. -/
structure World (n : ℕ) where
  tree : Name → Option (Option ℕ)
  chunks : ℕ → Option Chunk
  fresh : ℕ
  procs : Fin n → Proc
  pages : Pages n

inductive Step (n : ℕ) where
  /-- `answer` is the page that `pmm_alloc` finds for a new chunk; `0` is `NULL`. -/
  | obtain (pid : Fin n) (name : Name) (size answer : ℕ)
  | release (pid : Fin n) (name : Name)
  /-- `program` is what the new page table maps. -/
  | execve (pid : Fin n) (program : List (ℕ × ℕ))

namespace World

variable {n : ℕ}

def state (w : World n) (pid : Fin n) : State :=
  ⟨w.tree, w.chunks, w.fresh, (w.procs pid).shmMap, (w.procs pid).shmAlloc⟩

def put (w : World n) (pid : Fin n) (s : State) (mappings : List Mapping) (pages : Pages n) : World n where
  tree := s.tree
  chunks := s.chunks
  fresh := s.fresh
  procs := update w.procs pid ⟨s.shmMap, s.shmAlloc, mappings⟩
  pages := pages

/-- The pages of a new chunk. If there are none, its `phys` is `NULL` all the same. -/
def allocPages (w : World n) (k answer pageCount : ℕ) : Pages n :=
  if answer = 0 then w.pages.place k 0 pageCount else w.pages.create k answer pageCount

def obtain (w : World n) (pid : Fin n) (name : Name) (size answer : ℕ) : Option (World n) :=
  ((w.state pid).obtain name size).map fun r =>
    match r.2, (r.1.tree name).join with
    | some (virt, pageCount), some k =>
      let pages := if k = w.fresh then w.allocPages k answer pageCount else w.pages
      w.put pid r.1 ((w.procs pid).mappings ++ [⟨k, virt⟩]) (pages.map pid k (virt / pageSize))
    | _, _ => w.put pid r.1 (w.procs pid).mappings w.pages

def release (w : World n) (pid : Fin n) (name : Name) : Option (World n) :=
  ((w.state pid).release name).map fun r =>
    match r.2, (w.tree name).join with
    | some (virt, pageCount), some k =>
      let pages := w.pages.unmap pid (virt / pageSize) pageCount
      -- the last one gives the pages back
      let pages := if (r.1.chunks k).isSome then pages else pages.destroy k
      w.put pid r.1 ((w.procs pid).mappings.eraseP fun m => m.chunk = k ∧ m.virt = virt) pages
    | _, _ => w.put pid r.1 (w.procs pid).mappings w.pages

def execve (w : World n) (pid : Fin n) (program : List (ℕ × ℕ)) : World n :=
  w.put pid (w.state pid) [] (w.pages.replace pid program)

def step (w : World n) : Step n → Option (World n)
  | .obtain pid name size answer => w.obtain pid name size answer
  | .release pid name => w.release pid name
  | .execve pid program => some (w.execve pid program)

def mappingsOf (w : World n) (k : ℕ) : ℕ := ∑ pid, (w.procs pid).mappings.countP fun m => m.chunk = k

structure Sound (w : World n) : Prop where
  /-- A chunk that is there counts its mappings. -/
  counts : ∀ k c, w.chunks k = some c → c.refCount = w.mappingsOf k
  /-- The pages of a chunk have been given back once if nobody maps it any more, and not before. -/
  returned : ∀ k < w.fresh, ∀ i < w.pages.size k, w.pages.returned (k, i) = if w.mappingsOf k = 0 then 1 else 0
  /-- The address space of a process has the pages of its mappings. -/
  mapped : ∀ pid, ∀ m ∈ (w.procs pid).mappings, ∀ i < w.pages.size m.chunk,
    (m.virt / pageSize + i, w.pages.base m.chunk + i) ∈ w.pages.table pid
  /-- No page of a chunk that an address space has, has been given back. -/
  held : ∀ pid, ∀ x ∈ w.pages.table pid, ∀ k i, w.pages.owner x.2 = some (k, i) → w.pages.returned (k, i) = 0

/-- `pmm_alloc` finds pages that it has not given out. -/
def Granted (w : World n) : Step n → Prop
  | .obtain _ name size answer => (w.tree name).join = none → answer ≠ 0 →
      ∀ i < State.pagesOf size, w.pages.out (answer + i) = false
  | .release _ _ => True
  | .execve _ program => ∀ x ∈ program, w.pages.out x.2 = false

def held (w : World n) (pid : Fin n) : List Held := (w.procs pid).mappings.map (view w.chunks)

/-- The calls that stay clear of holes, as for one process, find pages for a new chunk, and replace no
address space with a chunk mapped. -/
def Ok (w : World n) : Step n → Prop
  | .obtain pid name size answer => Shm.Ok ⟨w.state pid, w.held pid⟩ (.obtain name size) ∧
      ((w.tree name).join = none → answer ≠ 0)
  | .release pid name => Shm.Ok ⟨w.state pid, w.held pid⟩ (.release name)
  | .execve pid _ => (w.procs pid).mappings = []

instance (w : World n) : ∀ op, Decidable (w.Granted op)
  | .obtain _ name size answer => inferInstanceAs (Decidable ((w.tree name).join = none → answer ≠ 0 →
      ∀ i < State.pagesOf size, w.pages.out (answer + i) = false))
  | .release _ _ => isTrue trivial
  | .execve _ program => inferInstanceAs (Decidable (∀ x ∈ program, w.pages.out x.2 = false))

instance (w : World n) : ∀ op, Decidable (w.Ok op)
  | .obtain pid name size answer => inferInstanceAs (Decidable (Shm.Ok ⟨w.state pid, w.held pid⟩ (.obtain name size) ∧
      ((w.tree name).join = none → answer ≠ 0)))
  | .release pid name => inferInstanceAs (Decidable (Shm.Ok ⟨w.state pid, w.held pid⟩ (.release name)))
  | .execve pid _ => decidable_of_iff ((w.procs pid).mappings.isEmpty = true) isEmpty_iff

/-! ### The invariant -/

def maps (w : World n) (pid : Fin n) : List (ℕ × ℕ) := (w.procs pid).mappings.map fun m => (m.chunk, m.virt / pageSize)

def total (xs : Fin n → List (ℕ × Mapping)) (k : ℕ) : ℕ := ∑ pid, uses (xs pid) k

/-- The lists of the processes are sorted and hold what the address spaces have, a chunk counts its
mappings and has one at least, and the pages are in order. -/
structure Inv (w : World n) (xs : Fin n → List (ℕ × Mapping)) : Prop where
  mapped : ∀ pid, Mapped (w.state pid) (xs pid)
  consistent : ∀ pid, Consistent (w.state pid)
  mappings : ∀ pid, (w.procs pid).mappings = (xs pid).map Prod.snd
  counts : ∀ k c, w.chunks k = some c → c.refCount = total xs k
  used : ∀ k c, w.chunks k = some c → 0 < total xs k
  size : ∀ k c, w.chunks k = some c → w.pages.size k = c.pageCount
  paged : Paged (fun k => (w.chunks k).isSome = true) w.fresh w.maps w.pages

section

variable {w : World n} {xs : Fin n → List (ℕ × Mapping)} {pid : Fin n} {name : Name} {k : ℕ} {c : Chunk}

lemma uses_le_total (xs : Fin n → List (ℕ × Mapping)) (pid : Fin n) (k : ℕ) : uses (xs pid) k ≤ total xs k :=
  Nat.le.intro (Finset.add_sum_erase Finset.univ (fun q => uses (xs q) k) (Finset.mem_univ pid))

lemma total_update (xs : Fin n → List (ℕ × Mapping)) (pid : Fin n) (ys : List (ℕ × Mapping)) (k : ℕ) :
    total (update xs pid ys) k + uses (xs pid) k = total xs k + uses ys k := by
  have hupdate : (fun q => uses (update xs pid ys q) k) = update (fun q => uses (xs q) k) pid (uses ys k) :=
    funext fun q => Function.apply_update (fun _ l => uses l k) xs pid ys q
  have hsum := Finset.add_sum_erase Finset.univ (fun q => uses (xs q) k) (Finset.mem_univ pid)
  rw [total, hupdate, Finset.sum_update_of_mem (Finset.mem_univ pid), Finset.sdiff_singleton_eq_erase, total, ← hsum]
  omega

lemma total_eq_zero_iff : total xs k = 0 ↔ ∀ pid, ∀ x ∈ xs pid, x.2.chunk ≠ k := by
  rw [total, Finset.sum_eq_zero_iff]
  refine forall_congr' fun pid => (forall_prop_of_true (Finset.mem_univ pid)).trans ?_
  rw [uses, countP_eq_zero]
  simp only [decide_eq_true_eq, ne_eq]

lemma mappingsOf_eq (h : ∀ pid, (w.procs pid).mappings = (xs pid).map Prod.snd) (k : ℕ) :
    w.mappingsOf k = total xs k := by
  refine Finset.sum_congr rfl fun pid _ => ?_
  rw [h pid, countP_map]
  rfl

lemma Inv.session (h : Inv w xs) (pid : Fin n) : Shm.Inv ⟨w.state pid, w.held pid⟩ (xs pid) where
  mapped := h.mapped pid
  consistent := h.consistent pid
  held := by
    show (w.procs pid).mappings.map (view w.chunks) = views w.chunks (xs pid)
    rw [h.mappings, List.map_map]
    rfl
  counts k c hc := by
    rw [h.counts k c hc]
    exact_mod_cast uses_le_total xs pid k

lemma Inv.sound (h : Inv w xs) : w.Sound where
  counts k c hc := by rw [mappingsOf_eq h.mappings, h.counts k c hc]
  returned k hk i hi := by
    rw [mappingsOf_eq h.mappings]
    cases hc : w.chunks k with
    | none =>
      have hzero : total xs k = 0 := by
        refine total_eq_zero_iff.mpr fun pid x hx => ?_
        rintro rfl
        have hsome := (h.mapped pid).chunk x hx
        rw [show (w.state pid).chunks x.2.chunk = none from hc] at hsome
        cases hsome
      rw [if_pos hzero]
      exact h.paged.dead k i hk (by rw [hc]; exact Bool.false_ne_true) hi
    | some c =>
      rw [if_neg (Nat.pos_iff_ne_zero.mp (h.used k c hc))]
      exact (h.paged.live k i (by rw [hc]; rfl) hi).1
  mapped pid m hm i hi := (h.paged.mapped pid _ (mem_map_of_mem hm)).2 i hi
  held _ _ hx _ _ howner := h.paged.returned_eq_zero hx howner

/-! ### One call -/

lemma maps_put (w : World n) (pid : Fin n) (s : State) (mappings : List Mapping) (pages : Pages n) :
    (w.put pid s mappings pages).maps = update w.maps pid (mappings.map fun m => (m.chunk, m.virt / pageSize)) :=
  funext fun q => Function.apply_update (fun _ (p : Proc) => p.mappings.map fun m : Mapping =>
    (m.chunk, m.virt / pageSize)) w.procs pid
    ⟨s.shmMap, s.shmAlloc, mappings⟩ q

lemma Inv.put (h : Inv w xs) {s : State} {ys : List (ℕ × Mapping)} {pages : Pages n} (hmapped : Mapped s ys)
    (hconsistent : Consistent s)
    (hothers : ∀ q ≠ pid, ∀ x ∈ xs q, (s.chunks x.2.chunk).isSome = true ∧ view s.chunks x.2 = view w.chunks x.2)
    (hcounts : ∀ k c, s.chunks k = some c → c.refCount = total (update xs pid ys) k ∧
      0 < total (update xs pid ys) k ∧ pages.size k = c.pageCount)
    (hpaged : Paged (fun k => (s.chunks k).isSome = true) s.fresh
      (update w.maps pid (ys.map fun x => (x.2.chunk, x.2.virt / pageSize))) pages) :
    Inv (w.put pid s (ys.map Prod.snd) pages) (update xs pid ys) := by
  have hself : (w.put pid s (ys.map Prod.snd) pages).procs pid = ⟨s.shmMap, s.shmAlloc, ys.map Prod.snd⟩ :=
    update_self ..
  have hother : ∀ q ≠ pid, (w.put pid s (ys.map Prod.snd) pages).procs q = w.procs q := fun q hq => update_of_ne hq ..
  refine ⟨fun q => ?_, fun q => ⟨hconsistent.fresh, hconsistent.parent, hconsistent.named, hconsistent.chunk⟩,
    fun q => ?_,
    fun k c hc => (hcounts k c hc).1, fun k c hc => (hcounts k c hc).2.1, fun k c hc => (hcounts k c hc).2.2, ?_⟩
  · by_cases hq : q = pid
    · subst hq
      rw [state, hself, update_self]
      exact hmapped
    · rw [state, hother q hq, update_of_ne hq]
      exact (h.mapped q).congr rfl rfl (fun x hx => (hothers q hq x hx).1)
        (map_congr_left fun x hx => (hothers q hq x hx).2)
  · by_cases hq : q = pid
    · subst hq
      rw [hself, update_self]
    · rw [hother q hq, update_of_ne hq, h.mappings q]
  · rw [maps_put, List.map_map]
    exact hpaged

lemma pages_apart {virt virt' count : ℕ} (h : virt + count * pageSize ≤ virt') :
    virt / pageSize + count ≤ virt' / pageSize := by
  have hdiv := Nat.div_le_div_right (c := pageSize) h
  rwa [Nat.add_mul_div_right _ _ (by decide : 0 < pageSize)] at hdiv

lemma stop_view {chunks : ℕ → Option Chunk} {size : ℕ → ℕ} (hsize : ∀ k c, chunks k = some c → size k = c.pageCount)
    {m : Mapping} (hm : (chunks m.chunk).isSome = true) : (view chunks m).stop = m.virt + size m.chunk * pageSize := by
  obtain ⟨c, hc⟩ := isSome_iff_exists.mp hm
  rw [view_eq hc, Held.stop, hsize _ c hc]

lemma Inv.map (h : Inv w xs) {t : State} {pages : Pages n} (hmapped : Mapped t (xs pid)) (hconsistent : Consistent t)
    (hc : t.chunks k = some c)
    (hothers : ∀ q ≠ pid, ∀ x ∈ xs q, (t.chunks x.2.chunk).isSome = true ∧ view t.chunks x.2 = view w.chunks x.2)
    (hcounts : ∀ k' c', t.chunks k' = some c' → c'.refCount = (total xs k' + if k = k' then 1 else 0 : ℕ) ∧
      0 < (total xs k' + if k = k' then 1 else 0) ∧ pages.size k' = c'.pageCount)
    (hpaged : Paged (fun k => (t.chunks k).isSome = true) t.fresh w.maps pages)
    (hhole : NoHole (c.pageCount * pageSize) userShmLow (views t.chunks (xs pid)))
    (hfits : t.shmAlloc + c.pageCount * pageSize < 2 ^ 64) :
    ∃ s virt xs', t.map k c.pageCount = some (s, virt) ∧ s.tree = t.tree ∧
      Inv (w.put pid s ((w.procs pid).mappings ++ [⟨k, virt⟩]) (pages.map pid k (virt / pageSize))) xs' := by
  obtain ⟨list, virt, alloc, i, hmap, hlast⟩ := hmapped.map hc hhole hfits
  generalize hys : xs pid ++ [(i, (⟨k, virt⟩ : Mapping))] = ys at hlast
  have hmappings : (w.procs pid).mappings ++ [⟨k, virt⟩] = ys.map Prod.snd := by
    rw [← hys, map_append, h.mappings]
    rfl
  have htotal : ∀ k', total (update xs pid ys) k' = total xs k' + if k = k' then 1 else 0 := by
    intro k'
    have hupdate := total_update xs pid ys k'
    rw [← hys, uses_concat, hys] at hupdate
    omega
  refine ⟨_, virt, update xs pid ys, hmap, rfl, ?_⟩
  rw [hmappings]
  refine h.put hlast ⟨hconsistent.fresh, hconsistent.parent, hconsistent.named, hconsistent.chunk⟩ hothers
    (fun k' c' hc' => by rw [htotal]; exact hcounts k' c' hc') ?_
  have hmaps : ys.map (fun x => (x.2.chunk, x.2.virt / pageSize)) = w.maps pid ++ [(k, virt / pageSize)] := by
    rw [← hys, map_append, maps, h.mappings, List.map_map]
    rfl
  rw [hmaps]
  refine hpaged.map (by rw [hc]; rfl) fun m hm => .inl ?_
  -- the new mapping is behind the others
  rw [maps, h.mappings, List.map_map] at hm
  obtain ⟨x, hx, rfl⟩ := mem_map.mp hm
  have hsorted := hlast.sorted
  rw [← hys, views_append, pairwise_append] at hsorted
  have hbehind := hsorted.2.2 _ (mem_map_of_mem hx) _ mem_cons_self
  rw [view_virt, stop_view (fun k c hc => (hcounts k c hc).2.2) (hmapped.chunk x hx)] at hbehind
  exact pages_apart hbehind

lemma Inv.others (h : Inv w xs) {t : State} (q : Fin n) {x : ℕ × Mapping} (hx : x ∈ xs q) {o : Chunk}
    (hchunks : t.chunks = update w.chunks k (some o)) (hview : view t.chunks x.2 = view w.chunks x.2) :
    (t.chunks x.2.chunk).isSome = true ∧ view t.chunks x.2 = view w.chunks x.2 := by
  refine ⟨?_, hview⟩
  rw [hchunks]
  exact isSome_update ((h.mapped q).chunk x hx) o

lemma Inv.obtain_chunk (h : Inv w xs) {size : ℕ} (hok : Shm.Ok ⟨w.state pid, w.held pid⟩ (.obtain name size))
    (htree : w.tree name = some (some k)) (answer : ℕ) :
    ∃ w', w.obtain pid name size answer = some w' ∧ ∃ xs', Inv w' xs' := by
  obtain ⟨hname, hok⟩ := hok
  obtain ⟨c, hc, hparent⟩ := (h.consistent pid).chunk name k htree
  have hc' : w.chunks k = some c := hc
  obtain ⟨hready, hviews⟩ := (h.session pid).ready_countUp hc name
  obtain ⟨hhole, hfits⟩ := hok c.pageCount
    (by simp only [State.asks, show (w.state pid).tree name = _ from htree, hc, map_some])
  generalize ht : ((w.state pid).createNode name).countUp k c = t at hready hviews
  have hchunks : t.chunks = update w.chunks k (some { c with refCount := c.refCount + 1 }) := by rw [← ht]; rfl
  have hcounts : ∀ k' c', t.chunks k' = some c' → c'.refCount = (total xs k' + if k = k' then 1 else 0 : ℕ) ∧
      0 < (total xs k' + if k = k' then 1 else 0) ∧ w.pages.size k' = c'.pageCount := by
    intro k' c' hk'
    rw [hchunks] at hk'
    by_cases hk : k = k'
    · subst hk
      rw [update_self] at hk'
      obtain rfl := some.inj hk'
      rw [if_pos rfl]
      have := h.counts k c hc'
      exact ⟨by push_cast; omega, Nat.succ_pos _, h.size k c hc'⟩
    · rw [update_of_ne (Ne.symm hk)] at hk'
      rw [if_neg hk]
      exact ⟨h.counts k' c' hk', h.used k' c' hk', h.size k' c' hk'⟩
  have hpaged : Paged (fun k => (t.chunks k).isSome = true) t.fresh w.maps w.pages := by
    rw [show t.fresh = w.fresh by rw [← ht]; rfl, hchunks]
    refine h.paged.congr fun k' => ?_
    by_cases hk : k' = k
    · subst hk
      rw [update_self, hc']
      exact Iff.rfl
    · rw [update_of_ne hk]
  have hothers : ∀ q ≠ pid, ∀ x ∈ xs q, (t.chunks x.2.chunk).isSome = true ∧ view t.chunks x.2 = view w.chunks x.2 := by
    intro q _ x hx
    refine h.others q hx hchunks ?_
    rw [hchunks]
    exact view_update_count hc' _ x.2
  obtain ⟨s, virt, xs', hmap, hstree, hinv⟩ := h.map hready.mapped hready.consistent hready.chunk hothers hcounts hpaged
    (by rw [hviews]; exact hhole) (by rw [← ht]; exact hfits)
  have hjoin : (s.tree name).join = some k := by
    rw [hstree, ← ht]
    exact congrArg Option.join (createNode_some htree name)
  have hne : k ≠ w.fresh := Nat.ne_of_lt ((h.consistent pid).fresh k c hc)
  refine ⟨_, ?_, xs', hinv⟩
  have hmap' : t.map k c.pageCount = some (s, virt) := hmap
  rw [World.obtain, Shm.obtain_chunk hname htree hc, ht, hmap']
  simp only [map_some, hjoin, if_neg hne]

lemma join_eq_none {name : Name} (hjoin : (w.tree name).join = none) : ∀ k, w.tree name ≠ some (some k) := by
  intro k htree
  rw [htree] at hjoin
  cases hjoin

lemma Inv.createNode (h : Inv w xs) (name : Name) :
    Inv (w.put pid ((w.state pid).createNode name) (w.procs pid).mappings w.pages) xs := by
  have hmaps : (xs pid).map (fun x => (x.2.chunk, x.2.virt / pageSize)) = w.maps pid := by
    rw [maps, h.mappings, List.map_map]
    rfl
  have hmapped : Mapped ((w.state pid).createNode name) (xs pid) :=
    (h.mapped pid).congr rfl rfl (h.mapped pid).chunk rfl
  have hinv := @Inv.put _ _ _ pid h _ _ w.pages hmapped ((h.consistent pid).createNode name)
    (fun q _ x hx => ⟨(h.mapped q).chunk x hx, rfl⟩)
    (fun k c hc => by
      rw [update_eq_self]
      exact ⟨h.counts k c hc, h.used k c hc, h.size k c hc⟩)
    (by
      rw [hmaps, update_eq_self]
      exact h.paged)
  rwa [update_eq_self, ← h.mappings] at hinv

lemma Inv.obtain_new (h : Inv w xs) {size answer : ℕ} (hok : w.Ok (.obtain pid name size answer))
    (hgranted : w.Granted (.obtain pid name size answer)) (hjoin : (w.tree name).join = none) :
    ∃ w', w.obtain pid name size answer = some w' ∧ ∃ xs', Inv w' xs' := by
  obtain ⟨⟨hname, hok⟩, hanswer⟩ := hok
  have hanswer := hanswer hjoin
  have htree : ∀ k, (w.state pid).tree name ≠ some (some k) := join_eq_none hjoin
  by_cases hsize : size = 0
  · refine ⟨w.put pid ((w.state pid).createNode name) (w.procs pid).mappings w.pages, ?_, _, h.createNode name⟩
    rw [World.obtain, Shm.obtain_new hname htree, if_pos hsize, map_some]
  · obtain ⟨hhole, hfits⟩ := hok _ (by rw [asks_new htree, if_neg hsize])
    obtain ⟨hready, hviews⟩ := (h.session pid).ready_createChunk hname htree size
    generalize ht : ((w.state pid).createNode name).createChunk name size = t at hready hviews
    have hchunks : t.chunks = update w.chunks w.fresh (some ⟨name, 1, State.pagesOf size⟩) := by rw [← ht]; rfl
    have hfresh : t.fresh = w.fresh + 1 := by rw [← ht]; rfl
    have hnone : w.chunks w.fresh = none := (h.consistent pid).fresh_none
    have hunused : ∀ q, ∀ x ∈ xs q, x.2.chunk ≠ w.fresh := by
      intro q x hx he
      have hsome : (w.chunks x.2.chunk).isSome = true := (h.mapped q).chunk x hx
      rw [he, hnone] at hsome
      cases hsome
    have hcounts : ∀ k' c', t.chunks k' = some c' → c'.refCount = (total xs k' + if w.fresh = k' then 1 else 0 : ℕ) ∧
        0 < (total xs k' + if w.fresh = k' then 1 else 0) ∧
        (w.pages.create w.fresh answer (State.pagesOf size)).size k' = c'.pageCount := by
      intro k' c' hk'
      rw [hchunks] at hk'
      by_cases hk : w.fresh = k'
      · subst hk
        rw [update_self] at hk'
        obtain rfl := some.inj hk'
        rw [if_pos rfl, total_eq_zero_iff.mpr hunused]
        exact ⟨rfl, Nat.one_pos, update_self ..⟩
      · rw [update_of_ne (Ne.symm hk)] at hk'
        rw [if_neg hk]
        exact ⟨h.counts k' c' hk', h.used k' c' hk', (update_of_ne (Ne.symm hk) ..).trans (h.size k' c' hk')⟩
    have hpaged : Paged (fun k => (t.chunks k).isSome = true) t.fresh w.maps
        (w.pages.create w.fresh answer (State.pagesOf size)) := by
      rw [hfresh, hchunks]
      refine (h.paged.create (hgranted hjoin hanswer)).congr fun k' => ?_
      by_cases hk : k' = w.fresh
      · rw [hk, update_self]
        exact iff_of_true rfl (Or.inr rfl)
      · rw [update_of_ne hk]
        exact ⟨Or.inl, fun hor => hor.resolve_right hk⟩
    have hothers : ∀ q ≠ pid, ∀ x ∈ xs q, (t.chunks x.2.chunk).isSome = true ∧
        view t.chunks x.2 = view w.chunks x.2 := by
      intro q _ x hx
      refine h.others q hx hchunks ?_
      rw [hchunks]
      exact view_update_of_ne (hunused q x hx) _
    obtain ⟨s, virt, xs', hmap, hstree, hinv⟩ :=
      h.map hready.mapped hready.consistent hready.chunk hothers hcounts hpaged
      (by rw [hviews]; exact hhole) (by rw [← ht]; exact hfits)
    have hjoin'' : (s.tree name).join = some w.fresh := by
      rw [hstree, ← ht]
      exact congrArg Option.join (update_self name (some (some w.fresh)) ((w.state pid).createNode name).tree)
    have hmap' : t.map (w.state pid).fresh (State.pagesOf size) = some (s, virt) := hmap
    refine ⟨_, ?_, xs', hinv⟩
    rw [World.obtain, Shm.obtain_new hname htree, if_neg hsize, ht, hmap']
    simp only [map_some, hjoin'', ↓reduceIte, allocPages, if_neg hanswer]
    rfl

lemma Inv.obtain (h : Inv w xs) {size answer : ℕ} (hok : w.Ok (.obtain pid name size answer))
    (hgranted : w.Granted (.obtain pid name size answer)) :
    ∃ w', w.obtain pid name size answer = some w' ∧ ∃ xs', Inv w' xs' := by
  cases hjoin : (w.tree name).join with
  | none => exact h.obtain_new hok hgranted hjoin
  | some k => exact h.obtain_chunk hok.1 (join_eq_some_iff.mp hjoin) answer

lemma put_unchanged (w : World n) (pid : Fin n) : w.put pid (w.state pid) (w.procs pid).mappings w.pages = w := by
  rw [put]
  have hprocs : update w.procs pid (w.procs pid) = w.procs := update_eq_self ..
  exact congrArg (fun procs => (⟨w.tree, w.chunks, w.fresh, procs, w.pages⟩ : World n)) hprocs

lemma Inv.unmap {a b : List (ℕ × Mapping)} {x : ℕ × Mapping} (h : Inv w xs) (hxs : xs pid = a ++ x :: b) :
    Paged (fun k => (w.chunks k).isSome = true) w.fresh
      (update w.maps pid ((a ++ b).map fun x => (x.2.chunk, x.2.virt / pageSize)))
      (w.pages.unmap pid (x.2.virt / pageSize) (w.pages.size x.2.chunk)) := by
  have hmaps : w.maps pid = a.map (fun x => (x.2.chunk, x.2.virt / pageSize)) ++
      (x.2.chunk, x.2.virt / pageSize) :: b.map fun x => (x.2.chunk, x.2.virt / pageSize) := by
    rw [maps, h.mappings, List.map_map, hxs, map_append, map_cons]
    rfl
  rw [map_append]
  refine h.paged.unmap hmaps fun m hm => ?_
  rw [← map_append] at hm
  obtain ⟨y, hy, rfl⟩ := mem_map.mp hm
  -- a mapping is before this one in the list, or behind it
  have hmapped := h.mapped pid
  rw [hxs] at hmapped
  have hstop : ∀ y ∈ a ++ x :: b, (view w.chunks y.2).stop = y.2.virt + w.pages.size y.2.chunk * pageSize :=
    fun y hy => stop_view h.size (hmapped.chunk y hy)
  have hsorted := hmapped.sorted
  rw [views_append, pairwise_append, views_cons, pairwise_cons] at hsorted
  rcases mem_append.mp hy with hya | hyb
  · have hbefore := hsorted.2.2 _ (mem_map_of_mem hya) _ mem_cons_self
    rw [view_virt, show view (w.state pid).chunks y.2 = view w.chunks y.2 from rfl, hstop y (by simp [hya])] at hbefore
    exact Or.inl (pages_apart hbefore)
  · have hbehind := hsorted.2.1.1 _ (mem_map_of_mem hyb)
    rw [view_virt, show view (w.state pid).chunks x.2 = view w.chunks x.2 from rfl, hstop x (by simp)] at hbehind
    exact Or.inr (pages_apart hbehind)

section

variable {a b : List (ℕ × Mapping)} {x : ℕ × Mapping} {s : State}

lemma total_without (hxs : xs pid = a ++ x :: b) (k : ℕ) :
    total (update xs pid (a ++ b)) k + (if x.2.chunk = k then 1 else 0) = total xs k := by
  have hupdate := total_update xs pid (a ++ b) k
  rw [hxs, uses_middle] at hupdate
  omega

section

variable (h : Inv w xs)
include h

lemma Inv.counts_without (hxs : xs pid = a ++ x :: b) {c' : Chunk} (hk : k ≠ x.2.chunk) (hc' : w.chunks k = some c') :
    c'.refCount = total (update xs pid (a ++ b)) k ∧ 0 < total (update xs pid (a ++ b)) k ∧
      w.pages.size k = c'.pageCount := by
  have hsame := total_without hxs k
  rw [if_neg (Ne.symm hk), Nat.add_zero] at hsame
  rw [hsame]
  exact ⟨h.counts k c' hc', h.used k c' hc', h.size k c' hc'⟩

lemma Inv.maps_ne {ys : List (ℕ × Mapping)} (hnone : ∀ q, ∀ y ∈ update xs pid ys q, y.2.chunk ≠ k) (q : Fin n)
    {m : ℕ × ℕ} (hm : m ∈ update w.maps pid (ys.map fun x => (x.2.chunk, x.2.virt / pageSize)) q) : m.1 ≠ k := by
  by_cases hq : q = pid
  · subst hq
    rw [update_self] at hm
    obtain ⟨y, hy, rfl⟩ := mem_map.mp hm
    exact hnone q y (by rw [update_self]; exact hy)
  · rw [update_of_ne hq, maps, h.mappings, List.map_map] at hm
    obtain ⟨y, hy, rfl⟩ := mem_map.mp hm
    exact hnone q y (by rw [update_of_ne hq]; exact hy)

section

variable (hxs : xs pid = a ++ x :: b) (hc : w.chunks x.2.chunk = some c) (hmapped : Mapped s (a ++ b))
  (hconsistent : Consistent s)
include hxs hc hmapped hconsistent

lemma Inv.release_last (hchunks : s.chunks = update w.chunks x.2.chunk none) (hfresh : s.fresh = w.fresh)
    (hlast : total xs x.2.chunk ≤ 1) :
    Inv (w.put pid s ((a ++ b).map Prod.snd) ((w.pages.unmap pid (x.2.virt / pageSize) c.pageCount).destroy x.2.chunk))
      (update xs pid (a ++ b)) := by
  have hpaged := h.unmap hxs
  rw [h.size _ c hc] at hpaged
  have hzero : total (update xs pid (a ++ b)) x.2.chunk = 0 := by
    have hown := total_without hxs x.2.chunk
    rw [if_pos rfl] at hown
    omega
  have hnone := total_eq_zero_iff.mp hzero
  refine h.put hmapped hconsistent (fun q hq y hy => ?_) (fun k c' hc' => ?_) ?_
  · have hne := hnone q y (by rw [update_of_ne hq]; exact hy)
    rw [hchunks, update_of_ne hne]
    exact ⟨(h.mapped q).chunk y hy, view_update_of_ne hne _⟩
  · rw [hchunks] at hc'
    by_cases hk : k = x.2.chunk
    · rw [hk, update_self] at hc'
      cases hc'
    · rw [update_of_ne hk] at hc'
      exact h.counts_without hxs hk hc'
  · rw [hfresh, hchunks]
    refine (hpaged.destroy (by rw [hc]; rfl) fun q m hm => h.maps_ne hnone q hm).congr fun k => ?_
    by_cases hk : k = x.2.chunk
    · rw [hk, update_self]
      exact iff_of_false Bool.false_ne_true fun hand => hand.2 rfl
    · rw [update_of_ne hk]
      exact ⟨fun hsome => ⟨hsome, hk⟩, And.left⟩

lemma Inv.release_counted (hchunks : s.chunks = update w.chunks x.2.chunk (some { c with refCount := c.refCount - 1 }))
    (hfresh : s.fresh = w.fresh) (hmore : 1 < total xs x.2.chunk) :
    Inv (w.put pid s ((a ++ b).map Prod.snd) (w.pages.unmap pid (x.2.virt / pageSize) c.pageCount))
      (update xs pid (a ++ b)) := by
  have hpaged := h.unmap hxs
  rw [h.size _ c hc] at hpaged
  refine h.put hmapped hconsistent (fun q _ y hy => ?_) (fun k c' hc' => ?_) ?_
  · refine h.others q hy hchunks ?_
    rw [hchunks]
    exact view_update_count hc _ y.2
  · rw [hchunks] at hc'
    by_cases hk : k = x.2.chunk
    · rw [hk, update_self] at hc'
      obtain rfl := some.inj hc'
      have hcount := h.counts _ c hc
      have hown := total_without hxs x.2.chunk
      rw [if_pos rfl] at hown
      rw [hk]
      refine ⟨?_, by omega, h.size _ c hc⟩
      dsimp only
      omega
    · rw [update_of_ne hk] at hc'
      exact h.counts_without hxs hk hc'
  · rw [hfresh, hchunks]
    refine hpaged.congr fun k => ?_
    by_cases hk : k = x.2.chunk
    · rw [hk, update_self, hc]
      exact Iff.rfl
    · rw [update_of_ne hk]

end

lemma Inv.release_found (hxs : xs pid = a ++ x :: b) (hfirst : ∀ y ∈ a, y.2.chunk ≠ x.2.chunk)
    (hc : w.chunks x.2.chunk = some c) {list : ListT Mapping} (hlist : Represents list (a ++ b))
    (hs : { (w.state pid).releaseChunk x.2.chunk c with shmMap := some list } = s) :
    Inv (w.put pid s ((a ++ b).map Prod.snd)
      (if (s.chunks x.2.chunk).isSome then w.pages.unmap pid (x.2.virt / pageSize) c.pageCount
        else (w.pages.unmap pid (x.2.virt / pageSize) c.pageCount).destroy x.2.chunk)) (update xs pid (a ++ b)) := by
  have hsession := h.session pid
  rw [hxs] at hsession
  have hafter := hsession.releaseChunk hfirst hc hlist
  have hmapped : Mapped s (a ++ b) := hs ▸ hafter.mapped
  have hconsistent : Consistent s := hs ▸ hafter.consistent
  have hcount := h.counts _ c hc
  by_cases hlast : c.refCount - 1 ≤ 0
  · have hchunks : s.chunks = update w.chunks x.2.chunk none := by
      rw [← hs, State.releaseChunk, if_pos hlast]
      rfl
    have hfresh : s.fresh = w.fresh := by
      rw [← hs, State.releaseChunk, if_pos hlast]
      rfl
    have hgone : ¬ (s.chunks x.2.chunk).isSome = true := by
      rw [hchunks, update_self]
      exact Bool.false_ne_true
    rw [if_neg hgone]
    exact h.release_last hxs hc hmapped hconsistent hchunks hfresh (by omega)
  · have hchunks : s.chunks = update w.chunks x.2.chunk (some { c with refCount := c.refCount - 1 }) := by
      rw [← hs, State.releaseChunk, if_neg hlast]
      rfl
    have hfresh : s.fresh = w.fresh := by
      rw [← hs, State.releaseChunk, if_neg hlast]
      rfl
    have hthere : (s.chunks x.2.chunk).isSome = true := by
      rw [hchunks, update_self]
      rfl
    rw [if_pos hthere]
    exact h.release_counted hxs hc hmapped hconsistent hchunks hfresh (by omega)

end

end

lemma Inv.release (h : Inv w xs) (hok : w.Ok (.release pid name)) :
    ∃ w', w.release pid name = some w' ∧ ∃ xs', Inv w' xs' := by
  obtain ⟨hname, hok⟩ := hok
  rcases hok with htree | hmap
  · have hrelease : (w.state pid).release name = some (w.state pid, none) := by
      have htree' : (w.state pid).tree name = none := htree
      simp only [State.release, if_pos hname, htree']
    refine ⟨w, ?_, xs, h⟩
    rw [World.release, hrelease, map_some]
    simp only [put_unchanged]
  · obtain ⟨list, hmap⟩ := ne_none_iff_exists'.mp hmap
    rcases (h.session pid).release_walk hmap hname with
      ⟨hrelease, -⟩ | ⟨a, x, b, c, list', hxs, htree, hfirst, hc, -, hlist', hrelease⟩
    · refine ⟨w, ?_, xs, h⟩
      rw [World.release, show (w.state pid).release name = _ from hrelease, map_some]
      simp only [put_unchanged]
    · have hjoin : (w.tree name).join = some x.2.chunk := join_eq_some_iff.mpr htree
      have hmappings : (w.procs pid).mappings.eraseP (fun m => m.chunk = x.2.chunk ∧ m.virt = x.2.virt) =
          (a ++ b).map Prod.snd := by
        have hbefore : ∀ m ∈ a.map Prod.snd, ¬ decide (m.chunk = x.2.chunk ∧ m.virt = x.2.virt) = true := by
          intro m hm
          obtain ⟨y, hy, rfl⟩ := mem_map.mp hm
          rw [decide_eq_true_iff]
          exact fun hand => hfirst y hy hand.1
        rw [h.mappings, hxs, map_append, map_cons, eraseP_append_right _ hbefore,
          eraseP_cons_of_pos (by simp), map_append]
      refine ⟨_, ?_, _, h.release_found hxs hfirst hc hlist' rfl⟩
      rw [World.release, show (w.state pid).release name = _ from hrelease, map_some, ← hmappings]
      simp only [hjoin]

lemma Inv.execve (h : Inv w xs) {program : List (ℕ × ℕ)} (hok : w.Ok (.execve pid program))
    (hgranted : w.Granted (.execve pid program)) : Inv (w.execve pid program) xs := by
  have hmappings : (w.procs pid).mappings = [] := hok
  have hnil : xs pid = [] := map_eq_nil_iff.mp ((h.mappings pid).symm.trans hmappings)
  have hmaps : w.maps pid = [] := by
    rw [maps, hmappings]
    rfl
  have hinv := @Inv.put _ _ _ pid h _ _ (w.pages.replace pid program) (h.mapped pid) (h.consistent pid)
    (fun q _ x hx => ⟨(h.mapped q).chunk x hx, rfl⟩)
    (fun k c hc => by
      rw [update_eq_self]
      exact ⟨h.counts k c hc, h.used k c hc, h.size k c hc⟩)
    (by
      rw [hnil, map_nil, ← hmaps, update_eq_self]
      exact h.paged.replace hmaps hgranted)
  rwa [update_eq_self, hnil] at hinv

end

/-! ### Runs -/

/-- No process has made a call. Each has a table of pages of its own. -/
structure Start (w : World n) : Prop where
  tree : ∀ name k, w.tree name ≠ some (some k)
  chunks : ∀ k, w.chunks k = none
  fresh : w.fresh = 0
  procs : ∀ pid, w.procs pid = ⟨none, userShmLow, []⟩
  out : ∀ pid, ∀ x ∈ w.pages.table pid, w.pages.out x.2 = true
  owner : ∀ p, w.pages.owner p = none
  own : ∀ pid pid', ∀ x ∈ w.pages.table pid, ∀ x' ∈ w.pages.table pid', x.2 = x'.2 → pid = pid'
  returned : ∀ o, w.pages.returned o = 0

lemma Start.inv {w : World n} (h : Start w) : Inv w fun _ => [] := by
  have hmaps : ∀ pid, w.maps pid = [] := by
    intro pid
    rw [maps, h.procs]
    rfl
  have hdead : ∀ k, ¬ (w.chunks k).isSome = true := by
    intro k
    rw [h.chunks]
    exact Bool.false_ne_true
  have hstart : ∀ pid, Shm.Start ⟨w.state pid, []⟩ := by
    intro pid
    refine ⟨rfl, ?_, ?_, ⟨fun k c hc => ?_, fun k c hc => ?_, fun k c hc => ?_, fun name k hk =>
      absurd hk (h.tree name k)⟩,
      fun k c hc => ?_⟩
    · show (w.procs pid).shmMap = none
      rw [h.procs]
    · show (w.procs pid).shmAlloc = userShmLow
      rw [h.procs]
    all_goals exact absurd (show w.chunks k = some c from hc) (by rw [h.chunks]; nofun)
  refine ⟨fun pid => (hstart pid).inv.mapped, fun pid => (hstart pid).consistent, fun pid => by rw [h.procs]; rfl,
    fun k c hc => absurd hc (by rw [h.chunks]; nofun), fun k c hc => absurd hc (by rw [h.chunks]; nofun),
    fun k c hc => absurd hc (by rw [h.chunks]; nofun), ?_⟩
  refine ⟨fun k hk => absurd hk (hdead k), fun k i hk => absurd hk (hdead k), fun k i hk => ?_, fun k i _ =>
    h.returned _,
    h.out, fun u x _ k i howner => ?_, fun u u' x hx x' hx' heq _ => h.own u u' x hx x' hx' heq, fun u m hm => ?_⟩
  · rw [h.fresh] at hk
    exact absurd hk (Nat.not_lt_zero k)
  · rw [h.owner] at howner
    cases howner
  · rw [hmaps] at hm
    cases hm

end World

/-- **The pages of a chunk are given back once**, when nobody maps it any more, in runs that stay clear of
holes and of an `execve` by a process that maps a chunk. -/
theorem chunk_pages_returned_once {n : ℕ} (w : World n) (hstart : World.Start w) (ops : List (Step n))
    (hops : Along World.step (fun w op => w.Granted op ∧ w.Ok op) w ops) :
    ∃ w', run World.step w ops = some w' ∧ w'.Sound := by
  have hstep : ∀ (w : World n) (op : Step n), (∃ xs, w.Inv xs) → w.Granted op ∧ w.Ok op →
      ∃ w', w.step op = some w' ∧ ∃ xs, w'.Inv xs := by
    rintro w op ⟨xs, hinv⟩ ⟨hgranted, hok⟩
    cases op with
    | obtain pid name size answer => exact hinv.obtain hok hgranted
    | release pid name => exact hinv.release hok
    | execve pid program => exact ⟨_, rfl, xs, hinv.execve hok hgranted⟩
  obtain ⟨w', hrun, xs, hinv⟩ := run_total_along World.step hstep ops w ⟨_, hstart.inv⟩ hops
  exact ⟨w', hrun, hinv.sound⟩

def twoProcs : World 2 where
  tree := fun _ => none
  chunks := fun _ => none
  fresh := 0
  procs := fun _ => ⟨none, userShmLow, []⟩
  pages := {
    base := fun _ => 0
    size := fun _ => 0
    table := fun pid => [(0x400, 0x100 + pid)]
    out := fun p => decide (p = 0x100 ∨ p = 0x101)
    owner := fun _ => none
    returned := fun _ => 0 }

lemma start_twoProcs : World.Start twoProcs := by
  refine ⟨nofun, fun _ => rfl, rfl, fun _ => rfl, ?_, fun _ => rfl, ?_, fun _ => rfl⟩
  · decide
  · decide

/-- Both map a chunk of two pages and release it; the first one starts another program in between. -/
theorem chunk_pages_returned_once_two : ∃ w',
    run World.step twoProcs [.obtain 0 [[97]] 8192 0x200, .obtain 1 [[97]] 0 0,
    .release 0 [[97]], .execve 0 [(0x400, 0x300)], .release 1 [[97]]] = some w' ∧ w'.Sound :=
  chunk_pages_returned_once twoProcs start_twoProcs _ (by decide +kernel)

/-- Both map a chunk of one page, and the first one starts another program: the page is given back, and
the second one still maps it. -/
theorem pages_freed_while_mapped : ∃ w', run World.step twoProcs [.obtain 0 [[97]] 4096 0x200, .obtain 1 [[97]] 0 0,
    .execve 0 [(0x400, 0x300)]] = some w' ∧ w'.mappingsOf 0 = 1 ∧ w'.pages.returned (0, 0) = 1 ∧
      w'.pages.out 0x200 = false ∧
    (userShmLow / pageSize, 0x200) ∈ w'.pages.table 1 ∧ (w'.chunks 0).map Chunk.refCount = some 2 :=
  exists_run World.step (by decide +kernel)

end WivOS.Shm
