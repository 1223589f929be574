/-
# Runs of shared memory calls

The calls keep the list of the mappings sorted, and each chunk's count at or above its mappings, as long as no mapping
is put into a hole (`Inv.obtain`, `Inv.release`, `mappings_disjoint_and_found`). One that is need not be found, and the
next mapping may get its addresses (`mapping_lost`).
-/
import WivOS.Modules.Shm

namespace WivOS.Shm

open Function List Option WivOS.Lists Machine

/-! ### The calls -/

variable {list : ListT Mapping} {x : ℕ × Mapping} {t : State}

section

variable {s : Session} {xs : List (ℕ × Mapping)} {name : Name} {k : ℕ} {c : Chunk} {a b : List (ℕ × Mapping)}
  {chunk : Option ℕ}

lemma uses_concat (xs : List (ℕ × Mapping)) (i k virt k' : ℕ) :
    uses (xs ++ [(i, ⟨k, virt⟩)]) k' = uses xs k' + if k = k' then 1 else 0 := by
  rw [uses, countP_append, uses, countP_singleton]
  simp only [decide_eq_true_eq]

lemma uses_middle (a b : List (ℕ × Mapping)) (x : ℕ × Mapping) (k : ℕ) :
    uses (a ++ x :: b) k = uses (a ++ b) k + if x.2.chunk = k then 1 else 0 := by
  simp only [uses, countP_append, countP_cons, decide_eq_true_eq]
  omega

lemma obtain_chunk {s : State} (hname : Fits name) (htree : s.tree name = some (some k)) (hc : s.chunks k = some c)
    (size : ℕ) : s.obtain name size =
      (((s.createNode name).countUp k c).map k c.pageCount).map fun r => (r.1, some (r.2, c.pageCount)) := by
  have hc' : (s.createNode name).chunks k = some c := hc
  simp only [State.obtain, if_pos hname, createNode_some htree name, hc', bind_some]

lemma createNode_new {s : State} (hname : name ≠ []) (htree : ∀ k, s.tree name ≠ some (some k)) :
    (s.createNode name).tree name = some none := by
  cases hnode : s.tree name with
  | none => exact createNode_none hname hnode
  | some chunk =>
    cases chunk with
    | none => exact createNode_some hnode name
    | some k => exact absurd hnode (htree k)

lemma obtain_new {s : State} (hname : Fits name) (htree : ∀ k, s.tree name ≠ some (some k)) (size : ℕ) :
    s.obtain name size = if size = 0 then some (s.createNode name, none)
      else (((s.createNode name).createChunk name size).map s.fresh (State.pagesOf size)).map
        fun r => (r.1, some (r.2, State.pagesOf size)) := by
  simp only [State.obtain, if_pos hname, createNode_new hname.1.1 htree]
  rfl

lemma asks_new {s : State} (htree : ∀ k, s.tree name ≠ some (some k)) (size : ℕ) :
    s.asks name size = if size = 0 then none else some (State.pagesOf size) := by
  cases hnode : s.tree name with
  | none => simp only [State.asks, hnode]
  | some chunk =>
    cases chunk with
    | none => simp only [State.asks, hnode]
    | some k => exact absurd hnode (htree k)

structure Ready (s : State) (xs : List (ℕ × Mapping)) (k : ℕ) (c : Chunk) : Prop where
  mapped : Mapped s xs
  consistent : Consistent s
  chunk : s.chunks k = some c
  counts : ∀ k' c', s.chunks k' = some c' → ((uses xs k' + if k = k' then 1 else 0 : ℕ) : ℤ) ≤ c'.refCount

lemma Ready.map {s : State} (h : Ready s xs k c)
    (hhole : NoHole (c.pageCount * pageSize) userShmLow (views s.chunks xs))
    (hfits : s.shmAlloc + c.pageCount * pageSize < 2 ^ 64) : ∃ t virt xs', s.map k c.pageCount = some (t, virt) ∧
      Inv ⟨t, views s.chunks xs ++ [⟨c.parent, virt, c.pageCount⟩]⟩ xs' := by
  obtain ⟨list, virt, alloc, i, hmap, hmapped⟩ := h.mapped.map h.chunk hhole hfits
  have hconsistent := h.consistent
  refine ⟨_, virt, _, hmap, hmapped, ⟨hconsistent.fresh, hconsistent.parent, hconsistent.named, hconsistent.chunk⟩, ?_,
    fun k' c' hc' => ?_⟩
  · dsimp only
    rw [views_append, views_cons, view_eq h.chunk]
    rfl
  · rw [uses_concat]
    exact h.counts k' c' hc'

lemma Inv.ready_countUp (h : Inv s xs) (hc : s.state.chunks k = some c) (name : Name) :
    Ready ((s.state.createNode name).countUp k c) xs k { c with refCount := c.refCount + 1 } ∧
      views ((s.state.createNode name).countUp k c).chunks xs = s.held := by
  have hviews : views ((s.state.createNode name).countUp k c).chunks xs = views s.state.chunks xs :=
    map_congr_left fun x _ => view_update_count hc _ x.2
  refine ⟨⟨h.mapped.congr rfl rfl (fun x hx => isSome_update (h.mapped.chunk x hx) _) hviews,
    (h.consistent.createNode name).recount hc _ _, update_self .., fun k' c' hc' => ?_⟩, hviews.trans h.held.symm⟩
  by_cases hk : k = k'
  · subst hk
    have hcount := h.counts k c hc
    have hc'' := (update_self k _ s.state.chunks).symm.trans hc'
    rw [if_pos rfl, ← some.inj hc'']
    push_cast
    omega
  · have hc'' := (update_of_ne (Ne.symm hk) _ s.state.chunks).symm.trans hc'
    rw [if_neg hk]
    exact h.counts k' c' hc''

lemma Inv.ready_createChunk (h : Inv s xs) (hname : Fits name) (htree : ∀ k, s.state.tree name ≠ some (some k))
    (size : ℕ) :
    Ready ((s.state.createNode name).createChunk name size) xs s.state.fresh ⟨name, 1, State.pagesOf size⟩ ∧
      views ((s.state.createNode name).createChunk name size).chunks xs = s.held := by
  have hother : ∀ x ∈ xs, x.2.chunk ≠ s.state.fresh := by
    intro x hx he
    have hsome := h.mapped.chunk x hx
    rw [he, h.consistent.fresh_none] at hsome
    cases hsome
  have hviews : views ((s.state.createNode name).createChunk name size).chunks xs = views s.state.chunks xs :=
    map_congr_left fun x hx => view_update_of_ne (hother x hx) _
  refine ⟨⟨h.mapped.congr rfl rfl (fun x hx => isSome_update (h.mapped.chunk x hx) _) hviews,
    (h.consistent.createNode name).createChunk hname.1 (createNode_new hname.1.1 htree) size, update_self ..,
    fun k' c' hc' => ?_⟩, hviews.trans h.held.symm⟩
  by_cases hk : s.state.fresh = k'
  · subst hk
    have huses : uses xs s.state.fresh = 0 := countP_eq_zero.mpr fun x hx => by simp [hother x hx]
    have hc'' := (update_self s.state.fresh _ s.state.chunks).symm.trans hc'
    rw [if_pos rfl, huses, ← some.inj hc'']
    rfl
  · have hc'' := (update_of_ne (Ne.symm hk) _ s.state.chunks).symm.trans hc'
    rw [if_neg hk]
    exact h.counts k' c' hc''

/-- **What an `shm_obtain` does**: it asks for nothing, or comes to `shm_map`. -/
lemma Inv.obtain_cases (h : Inv s xs) (hname : Fits name) (size : ℕ) :
    (s.state.asks name size = none ∧ s.state.obtain name size = some (s.state.createNode name, none)) ∨
    ∃ t k c, s.state.asks name size = some c.pageCount ∧ c.parent = name ∧ t.shmAlloc = s.state.shmAlloc ∧
      Ready t xs k c ∧
      views t.chunks xs = s.held ∧
      s.state.obtain name size = (t.map k c.pageCount).map fun r => (r.1, some (r.2, c.pageCount)) := by
  by_cases htree : ∃ k, s.state.tree name = some (some k)
  · obtain ⟨k, htree⟩ := htree
    obtain ⟨c, hc, hparent⟩ := h.consistent.chunk name k htree
    obtain ⟨hready, hviews⟩ := h.ready_countUp hc name
    refine .inr ⟨(s.state.createNode name).countUp k c, k, { c with refCount := c.refCount + 1 }, ?_, hparent, rfl,
      hready, hviews,
      obtain_chunk hname htree hc size⟩
    simp only [State.asks, htree, hc, map_some]
  · have hnew := not_exists.mp htree
    by_cases hsize : size = 0
    · exact .inl ⟨by rw [asks_new hnew, if_pos hsize], by rw [obtain_new hname hnew, if_pos hsize]⟩
    · obtain ⟨hready, hviews⟩ := h.ready_createChunk hname hnew size
      exact .inr ⟨(s.state.createNode name).createChunk name size, s.state.fresh, ⟨name, 1, State.pagesOf size⟩,
        by rw [asks_new hnew, if_neg hsize], rfl, rfl, hready, hviews, by rw [obtain_new hname hnew, if_neg hsize]⟩

lemma Inv.obtain (h : Inv s xs) {size : ℕ} (hok : Ok s (.obtain name size)) :
    ∃ s', s.step (.obtain name size) = some s' ∧ ∃ xs', Inv s' xs' := by
  obtain ⟨hname, hok⟩ := hok
  rcases h.obtain_cases hname size with ⟨-, hobtain⟩ | ⟨t, k, c, hasks, rfl, halloc, hready, hviews, hobtain⟩
  · refine ⟨⟨s.state.createNode name, s.held⟩, ?_, xs, h.mapped.congr rfl rfl h.mapped.chunk rfl,
      h.consistent.createNode name,
      h.held, h.counts⟩
    rw [Session.step, hobtain, map_some]
  · obtain ⟨hhole, hfits⟩ := hok _ hasks
    obtain ⟨t', virt, xs', hmap, hinv⟩ := hready.map (hviews ▸ hhole) (halloc ▸ hfits)
    rw [hviews] at hinv
    refine ⟨_, ?_, xs', hinv⟩
    rw [Session.step, hobtain, hmap, map_some, map_some]

lemma loop_findBody (chunk : Option ℕ) (xs : List (ℕ × Mapping)) :
    (∃ a x b, xs = a ++ x :: b ∧ (∀ y ∈ a, ¬ chunk = some y.2.chunk) ∧ chunk = some x.2.chunk ∧
      loop (State.findBody chunk) xs () = some (.inl x)) ∨
    (∀ x ∈ xs, ¬ chunk = some x.2.chunk) ∧ loop (State.findBody chunk) xs () = some (.inr ()) :=
  loop_find fun _ _ => rfl

lemma release_not_found {s : State} (hname : Plain name) (htree : s.tree name = some chunk)
    (hmap : s.shmMap = some list) (hwalk : list.forEach (State.findBody chunk) () = some (.inr ())) :
    s.release name = some (s, none) := by
  simp only [State.release, if_pos hname, htree, hmap, bind_some, hwalk]

lemma release_found {s : State} {list' : ListT Mapping} (hname : Plain name)
    (htree : s.tree name = some chunk) (hmap : s.shmMap = some list)
    (hwalk : list.forEach (State.findBody chunk) () = some (.inl x)) (hc : s.chunks x.2.chunk = some c)
    (hremove : list.remove x.1 = some list') :
    s.release name = some ({ s.releaseChunk x.2.chunk c with shmMap := some list' }, some (x.2.virt, c.pageCount)) := by
  simp only [State.release, if_pos hname, htree, hmap, bind_some, hwalk, hc, hremove, map_some]

lemma Mapped.without {s : State} (h : Mapped s (a ++ x :: b))
    (hmap : t.shmMap = some list) (hlist : Represents list (a ++ b)) (halloc : t.shmAlloc = s.shmAlloc)
    (hchunk : ∀ y ∈ a ++ b, (t.chunks y.2.chunk).isSome = true)
    (hviews : views t.chunks (a ++ b) = views s.chunks (a ++ b)) : Mapped t (a ++ b) := by
  have hsub : (a ++ b).Sublist (a ++ x :: b) := List.Sublist.append_left (sublist_cons_self x b) a
  have hsub' : (views s.chunks (a ++ b)).Sublist (views s.chunks (a ++ x :: b)) := hsub.map _
  refine ⟨by rw [hmap]; exact hlist, hchunk, ?_, ?_, ?_, by rw [halloc]; exact h.start, by rw [halloc]; exact h.aligned,
    by rw [halloc]; exact h.fits⟩
  · rw [hviews]
    exact h.sorted.sublist hsub'
  · rw [hviews]
    exact fun m hm => h.low m (hsub'.subset hm)
  · rw [hviews, halloc]
    exact fun m hm => h.below m (hsub'.subset hm)

lemma Consistent.view_ne {s : State} (h : Consistent s) {m m' : Mapping} (hm : (s.chunks m.chunk).isSome = true)
    (hm' : (s.chunks m'.chunk).isSome = true) (hne : m.chunk ≠ m'.chunk) : view s.chunks m ≠ view s.chunks m' := by
  obtain ⟨c, hc⟩ := isSome_iff_exists.mp hm
  obtain ⟨c', hc'⟩ := isSome_iff_exists.mp hm'
  rw [view_eq hc, view_eq hc']
  intro he
  have hparent := h.parent _ _ hc
  rw [(Held.mk.inj he).1, h.parent _ _ hc'] at hparent
  exact hne (some.inj (some.inj hparent)).symm

section

variable (h : Inv s (a ++ x :: b)) (hfirst : ∀ y ∈ a, y.2.chunk ≠ x.2.chunk)
include h hfirst

lemma Inv.held_erase :
    s.held.erase (view s.state.chunks x.2) = views s.state.chunks (a ++ b) := by
  have hnot : view s.state.chunks x.2 ∉ views s.state.chunks a := by
    intro hmem
    obtain ⟨y, hy, he⟩ := mem_map.mp hmem
    exact h.consistent.view_ne (h.mapped.chunk y (by simp [hy])) (h.mapped.chunk x (by simp)) (hfirst y hy) he
  rw [h.held, views_append, views_cons, erase_append_right _ hnot, erase_cons_head, views_append]

lemma Inv.without
    (hlist : Represents list (a ++ b)) (hmap : t.shmMap = some list) (halloc : t.shmAlloc = s.state.shmAlloc)
    (hconsistent : Consistent t)
    (hsame : ∀ y ∈ a ++ b, (t.chunks y.2.chunk).isSome = true ∧ view t.chunks y.2 = view s.state.chunks y.2)
    (hcounts : ∀ k c, t.chunks k = some c → (uses (a ++ b) k : ℤ) ≤ c.refCount) :
    Inv ⟨t, s.held.erase (view s.state.chunks x.2)⟩ (a ++ b) := by
  have hviews : views t.chunks (a ++ b) = views s.state.chunks (a ++ b) := map_congr_left fun y hy => (hsame y hy).2
  exact ⟨h.mapped.without hmap hlist halloc (fun y hy => (hsame y hy).1) hviews, hconsistent,
    (h.held_erase hfirst).trans hviews.symm, hcounts⟩

lemma Inv.releaseChunk (hc : s.state.chunks x.2.chunk = some c)
    (hlist : Represents list (a ++ b)) :
    Inv ⟨{ s.state.releaseChunk x.2.chunk c with shmMap := some list }, s.held.erase (view s.state.chunks x.2)⟩
      (a ++ b) := by
  have hsome : ∀ y ∈ a ++ b, (s.state.chunks y.2.chunk).isSome = true := fun y hy =>
    h.mapped.chunk y ((List.Sublist.append_left (sublist_cons_self x b) a).subset hy)
  have hown := h.counts _ c hc
  rw [uses_middle, if_pos rfl] at hown
  push_cast at hown
  have hothers : ∀ k c', k ≠ x.2.chunk → s.state.chunks k = some c' → (uses (a ++ b) k : ℤ) ≤ c'.refCount := by
    intro k c' hk hc'
    have hle := h.counts k c' hc'
    rw [uses_middle, if_neg (Ne.symm hk)] at hle
    exact hle
  by_cases hlast : c.refCount - 1 ≤ 0
  · -- the count is one, so no other mapping has the chunk
    have huses : uses (a ++ b) x.2.chunk = 0 := by omega
    have hnone : ∀ y ∈ a ++ b, y.2.chunk ≠ x.2.chunk := fun y hy he => countP_eq_zero.mp huses y hy (by simp [he])
    rw [State.releaseChunk, if_pos hlast]
    refine h.without hfirst hlist rfl rfl (h.consistent.free hc _) (fun y hy => ⟨?_, view_update_of_ne (hnone y hy) _⟩)
      fun k c' hc' => ?_
    · dsimp only
      rw [update_of_ne (hnone y hy)]
      exact hsome y hy
    · dsimp only at hc'
      by_cases hk : k = x.2.chunk
      · rw [hk, update_self] at hc'
        cases hc'
      · rw [update_of_ne hk] at hc'
        exact hothers k c' hk hc'
  · rw [State.releaseChunk, if_neg hlast]
    refine h.without hfirst hlist rfl rfl (h.consistent.recount hc _ _)
      (fun y hy => ⟨isSome_update (hsome y hy) _, view_update_count hc _ y.2⟩) fun k c' hc' => ?_
    dsimp only at hc'
    by_cases hk : k = x.2.chunk
    · rw [hk, update_self] at hc'
      rw [hk, ← some.inj hc']
      dsimp only
      omega
    · rw [update_of_ne hk] at hc'
      exact hothers k c' hk hc'

end

/-- **What an `shm_release` does**: it finds no mapping with the chunk of the name, or takes the first
one out of the list. -/
lemma Inv.release_walk (h : Inv s xs) (hmap : s.state.shmMap = some list) (hname : Plain name) :
    (s.state.release name = some (s.state, none) ∧ ∀ x ∈ xs, s.state.tree name ≠ some (some x.2.chunk)) ∨
    ∃ a x b c list', xs = a ++ x :: b ∧ s.state.tree name = some (some x.2.chunk) ∧ (∀ y ∈ a, y.2.chunk ≠ x.2.chunk) ∧
      s.state.chunks x.2.chunk = some c ∧ c.parent = name ∧ Represents list' (a ++ b) ∧ s.state.release name =
        some ({ s.state.releaseChunk x.2.chunk c with shmMap := some list' }, some (x.2.virt, c.pageCount)) := by
  have hlist := h.mapped.list
  rw [hmap, getD_some] at hlist
  cases htree : s.state.tree name with
  | none => exact .inl ⟨by simp only [State.release, if_pos hname, htree], fun x _ => by nofun⟩
  | some chunk =>
    rcases loop_findBody chunk xs with ⟨a, x, b, rfl, ha, rfl, hloop⟩ | ⟨hxs, hloop⟩
    · obtain ⟨c, hc, hparent⟩ := h.consistent.chunk name _ htree
      obtain ⟨list', hremove, hlist', -⟩ := hlist.remove
      exact .inr ⟨a, x, b, c, list', rfl, rfl, fun y hy he => ha y hy (congrArg some he.symm), hc, hparent, hlist',
        release_found hname htree hmap ((hlist.forEach ..).trans hloop) hc hremove⟩
    · refine .inl ⟨release_not_found hname htree hmap ((hlist.forEach ..).trans hloop), fun x hx he => hxs x hx ?_⟩
      exact some.inj he

lemma Inv.release_cases (h : Inv s xs) (hmap : s.state.shmMap = some list) (hname : Plain name) :
    (s.state.release name = some (s.state, none) ∧ ∀ m ∈ s.held, m.name ≠ name) ∨
    ∃ m t xs', m ∈ s.held ∧ m.name = name ∧ s.state.release name = some (t, some (m.virt, m.pageCount)) ∧
      Inv ⟨t, s.held.erase m⟩ xs' := by
  rcases h.release_walk hmap hname with ⟨hrelease, hne⟩ | ⟨a, x, b, c, list', rfl, -, ha, hc, hparent, hlist', hrelease⟩
  · refine .inl ⟨hrelease, fun m hm he => ?_⟩
    rw [h.held] at hm
    obtain ⟨x, hx, rfl⟩ := mem_map.mp hm
    -- a mapping of the name has the chunk of the node
    obtain ⟨c, hc⟩ := isSome_iff_exists.mp (h.mapped.chunk x hx)
    rw [view_eq hc] at he
    have hnode := h.consistent.parent _ c hc
    rw [show c.parent = name from he] at hnode
    exact hne x hx hnode
  · have hmem : view s.state.chunks x.2 ∈ s.held := by
      rw [h.held]
      exact mem_map_of_mem (by simp)
    refine .inr ⟨view s.state.chunks x.2, _, a ++ b, hmem, ?_, ?_, h.releaseChunk ha hc hlist'⟩
    · rw [view_eq hc, hparent]
    · rw [hrelease, view_eq hc]

lemma Inv.release (h : Inv s xs) (hok : Ok s (.release name)) :
    ∃ s', s.step (.release name) = some s' ∧ ∃ xs', Inv s' xs' := by
  obtain ⟨hname, hok⟩ := hok
  rcases hok with htree | hmap
  · refine ⟨s, ?_, xs, h⟩
    simp only [Session.step, State.release, if_pos hname, htree, map_some]
  · obtain ⟨list, hmap⟩ := ne_none_iff_exists'.mp hmap
    rcases h.release_cases hmap hname with ⟨hrelease, -⟩ | ⟨m, t, xs', -, rfl, hrelease, hinv⟩
    · exact ⟨s, by rw [Session.step, hrelease, map_some], xs, h⟩
    · exact ⟨_, by rw [Session.step, hrelease, map_some], xs', hinv⟩

/-- **What was obtained is released**: by the `shm_release` that comes to it in the list. -/
lemma Inv.released : ∀ (n : ℕ) {s : Session} {xs : List (ℕ × Mapping)}, Inv s xs → s.held.length ≤ n →
    ∀ m ∈ s.held, Released s m
  | 0, s, xs, h, hn, m, hm => by
    rw [length_eq_zero_iff.mp (Nat.le_zero.mp hn)] at hm
    cases hm
  | n + 1, s, xs, h, hn, m, hm => by
    have hviews := hm
    rw [h.held] at hviews
    obtain ⟨x, hx, hview⟩ := mem_map.mp hviews
    obtain ⟨c, hc⟩ := isSome_iff_exists.mp (h.mapped.chunk x hx)
    have hname : Plain m.name := by
      rw [← hview, view_eq hc]
      exact h.consistent.named _ c hc
    have hmap : s.state.shmMap ≠ none := by
      intro hnone
      have hlength := h.mapped.list.length
      rw [hnone] at hlength
      rw [length_eq_zero_iff.mp hlength.symm] at hx
      cases hx
    obtain ⟨list, hmap⟩ := ne_none_iff_exists'.mp hmap
    rcases h.release_cases hmap hname with ⟨-, hnone⟩ | ⟨m', t, xs', hm', hsame, hrelease, hinv⟩
    · exact absurd rfl (hnone m hm)
    · by_cases hmm : m = m'
      · subst hmm
        exact .now hrelease
      · have hstep : s.step (.release m.name) = some ⟨t, s.held.erase m'⟩ := by
          rw [Session.step, hrelease, map_some, ← hsame]
        have hlength := length_erase_of_mem hm'
        have hle : (s.held.erase m').length ≤ n := by omega
        exact .later hstep (Inv.released n hinv hle m ((mem_erase_of_ne hmm).mpr hm))

end

/-! ### Mappings that are not found -/

lemma release_none {s : State} {name : Name} (h : s.release name = some (t, none)) : t = s := by
  rw [State.release] at h
  split at h
  · split at h
    · cases h
      rfl
    · obtain ⟨list, -, h⟩ := bind_eq_some_iff.mp h
      obtain ⟨found, -, h⟩ := bind_eq_some_iff.mp h
      cases found with
      | inr b =>
        cases h
        rfl
      | inl x =>
        obtain ⟨c, -, h⟩ := bind_eq_some_iff.mp h
        obtain ⟨list', -, h⟩ := map_eq_some_iff.mp h
        cases h
  · cases h

lemma not_released {s : Session} {m : Held} (h : s.state.release m.name = some (t, none)) : ¬ Released s m := by
  intro hreleased
  induction hreleased with
  | now hnow =>
    rw [h] at hnow
    cases hnow
  | later hstep _ ih =>
    rw [Session.step, h] at hstep
    cases hstep
    exact ih (release_none h ▸ h)

/-! ### Runs -/

structure Start (s : Session) : Prop where
  held : s.held = []
  shmMap : s.state.shmMap = none
  shmAlloc : s.state.shmAlloc = userShmLow
  consistent : Consistent s.state
  counts : ∀ k c, s.state.chunks k = some c → 0 ≤ c.refCount

lemma Start.inv {s : Session} (h : Start s) : Inv s [] where
  mapped := {
    list := by
      rw [h.shmMap]
      exact represents_create
    chunk := nofun
    sorted := List.Pairwise.nil
    low := nofun
    below := nofun
    start := Nat.le_of_eq h.shmAlloc.symm
    aligned := by
      rw [h.shmAlloc]
      rfl
    fits := by
      rw [h.shmAlloc]
      decide }
  consistent := h.consistent
  held := h.held
  counts := h.counts

lemma Inv.sound {s : Session} {xs : List (ℕ × Mapping)} (h : Inv s xs) : Sound s where
  disjoint := by
    rw [h.held]
    exact h.mapped.sorted.imp Or.inl
  low := by
    rw [h.held]
    exact h.mapped.low
  found := h.released s.held.length (Nat.le_refl _)

/-- **The mappings are disjoint and found again** after calls that stay clear of holes. -/
theorem mappings_disjoint_and_found (s : Session) (hstart : Start s) (calls : List Call)
    (hcalls : Along Session.step Ok s calls) : ∃ t, run Session.step s calls = some t ∧ Sound t := by
  have hstep : ∀ (s : Session) (call : Call), (∃ xs, Inv s xs) → Ok s call →
      ∃ s', s.step call = some s' ∧ ∃ xs, Inv s' xs := by
    rintro s call ⟨xs, hinv⟩ hok
    cases call with
    | obtain name size => exact hinv.obtain hok
    | release name => exact hinv.release hok
  obtain ⟨t, hrun, xs, hinv⟩ := run_total_along Session.step hstep calls s ⟨[], hstart.inv⟩ hcalls
  exact ⟨t, hrun, hinv.sound⟩

def initial : Session := ⟨⟨fun _ => none, fun _ => none, 0, none, userShmLow⟩, []⟩

lemma start_initial : Start initial := ⟨rfl, rfl, rfl, ⟨nofun, nofun, nofun, nofun⟩, nofun⟩

/-- Two pages do not fit in front of `b`, where `a` was. -/
theorem mappings_disjoint_and_found_two_pages : ∃ t, run Session.step initial
    [.obtain [[97]] 4096, .obtain [[98]] 4096, .release [[97]], .obtain [[99], [100]] 8192, .release [[98]]] = some t ∧
    Sound t :=
  mappings_disjoint_and_found initial start_initial _ (by decide +kernel)

/-- One page fits there, twice. -/
theorem mapping_lost : ∃ t, run Session.step initial
    [.obtain [[97]] 4096, .obtain [[98]] 4096, .release [[97]], .obtain [[99]] 4096, .obtain [[100]] 4096] = some t ∧
      ¬ t.held.Pairwise (fun a b => a.stop ≤ b.virt ∨ b.stop ≤ a.virt) ∧ ∃ m ∈ t.held, ¬ Released t m := by
  obtain ⟨t, hrun, hheld, hrelease⟩ : ∃ t, run Session.step initial
      [.obtain [[97]] 4096, .obtain [[98]] 4096, .release [[97]], .obtain [[99]] 4096, .obtain [[100]] 4096] = some t ∧
      t.held = [⟨[[98]], userShmLow + pageSize, 1⟩, ⟨[[99]], userShmLow, 1⟩, ⟨[[100]], userShmLow, 1⟩] ∧
      (t.state.release [[99]]).map Prod.snd = some none := exists_run Session.step (by decide +kernel)
  obtain ⟨⟨u, o⟩, hu, ho⟩ := map_eq_some_iff.mp hrelease
  dsimp only at ho
  subst ho
  refine ⟨t, hrun, ?_, ⟨[[99]], userShmLow, 1⟩, ?_, not_released hu⟩
  · rw [hheld]
    decide
  · rw [hheld]
    simp

end WivOS.Shm
