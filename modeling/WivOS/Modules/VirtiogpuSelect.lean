/-
# What a client of the VirtIO GPU has selected

`currentResource` and `currentCtx` of a client, along the runs of `Modules/Virtiogpu.lean`: what the two parts of a call
do to the selection is one of four things (`Choice`). `VIRTGPU_IOCTL_TRANSFER_AND_FLUSH` runs on into
`VIRTGPU_IOCTL_SET_RESOURCE_ID` if nothing is to be flushed, and `VIRTGPU_IOCTL_SET_CONTEXT_ID` selects a resource as
the context.
-/
import WivOS.Modules.Virtiogpu

namespace WivOS.Virtiogpu

open List Option Machine

/-- `reference->ctxs`: `gpu_open` puts the default context there, and no request adds to it. -/
def Reference.ctxs (_ : Reference) : List Ctx := [.default]

def Step.caller : Step → Caller
  | .open c => c
  | .ioctl c _ => c
  | .answer c _ => c

structure Selected (s : State) (op : Step) (s' : State) : Prop where
  resource : ∀ c, ∀ r ∈ s.getReference c, ∀ r' ∈ s'.getReference c, r'.currentResource ≠ r.currentResource →
    (∃ arg, op = .ioctl c (.setResourceId arg)) ∧ ∃ k, r'.currentResource = some k ∧ k < r'.resources.length
  context : ∀ c, ∀ r ∈ s.getReference c, ∀ r' ∈ s'.getReference c, r'.currentCtx ≠ r.currentCtx →
    ∃ arg, op = .ioctl c (.setContextId arg)

def InCtxs (s : State) : Prop := ∀ r ∈ s.references, r.currentCtx ∈ r.ctxs

/-- The case for the request runs on, with the index of another resource than the current one. -/
structure Reference.RunsOn (r : Reference) (arg : TransferAndFlush) : Prop where
  current : r.currentResource.isSome
  notFlush : arg.notFlush ≠ 0
  index : arg.rect.width < r.resources.length
  other : r.currentResource ≠ some arg.rect.width

instance (r : Reference) (arg : TransferAndFlush) : Decidable (r.RunsOn arg) :=
  decidable_of_iff (r.currentResource.isSome ∧ arg.notFlush ≠ 0 ∧ arg.rect.width < r.resources.length ∧
      r.currentResource ≠ some arg.rect.width)
    ⟨fun ⟨h₁, h₂, h₃, h₄⟩ => ⟨h₁, h₂, h₃, h₄⟩, fun h => ⟨h.current, h.notFlush, h.index, h.other⟩⟩

/-- The argument of a call that waits for the answer to its transfer. -/
def Waiting.transferred : Waiting → Option TransferAndFlush
  | .transfer arg => some arg
  | _ => none

def Reference.transferring (r : Reference) : Option TransferAndFlush := r.waiting.bind Waiting.transferred

/-- A part of a call that does not run on, and that does not find a resource to take as a context. -/
def Reference.Proper (r : Reference) : Step → Prop
  | .ioctl _ (.transferAndFlush (some arg)) => arg.notTransfer ≠ 0 → ¬ r.RunsOn arg
  | .ioctl _ (.setContextId (some index)) => r.resources.length ≤ index
  | .answer _ type => type = okNodata → ∀ arg ∈ r.transferring, ¬ r.RunsOn arg
  | _ => True

open Reference

instance (r : Reference) (op : Step) : Decidable (r.Proper op) := by
  unfold Proper
  split <;> infer_instance

def Proper (s : State) (op : Step) : Prop := ∀ r ∈ s.getReference op.caller, r.Proper op

instance (s : State) (op : Step) : Decidable (Proper s op) :=
  inferInstanceAs (Decidable (∀ r ∈ s.getReference op.caller, r.Proper op))

/-! ### One client -/

section

variable {s s' : State} {r r' : Reference} {c : Caller} {op : Step}

def Outcome.reference : Outcome → Reference
  | .returns _ r => r
  | .sends _ r => r

def Reference.Valid (r : Reference) : Prop := ∀ k ∈ r.currentResource, k < r.resources.length

/-- The selection stays; there may be more resources. -/
structure Reference.Stays (r r' : Reference) : Prop where
  caller : r'.caller = r.caller
  resources : r.resources.length ≤ r'.resources.length
  currentResource : r'.currentResource = r.currentResource
  currentCtx : r'.currentCtx = r.currentCtx

/-- What a part of a call does to the selection. -/
inductive Choice (r : Reference) : Step → Reference → Prop
  | stays (op : Step) (r' : Reference) (h : r.Stays r') (hproper : r.Proper op) : Choice r op r'
  | resource (c : Caller) (k : ℕ) (r' : Reference) (h : { r with currentResource := some k }.Stays r')
      (hk : k < r.resources.length) : Choice r (.ioctl c (.setResourceId (some k))) r'
  | context (c : Caller) (k : ℕ) (r' : Reference) (h : { r with currentCtx := .resource k }.Stays r')
      (hk : k < r.resources.length) : Choice r (.ioctl c (.setContextId (some k))) r'
  | runsOn (op : Step) (arg : TransferAndFlush) (r' : Reference)
      (h : { r with currentResource := some arg.rect.width }.Stays r') (hruns : r.RunsOn arg)
      (hop : ∀ c index, op ≠ .ioctl c (.setResourceId index)) (hproper : ¬ r.Proper op) : Choice r op r'

lemma Reference.Stays.refl (r : Reference) : r.Stays r := ⟨rfl, Nat.le_refl _, rfl, rfl⟩

lemma Reference.Valid.not_runsOn (hvalid : r.Valid) (hcurrent : r.current = none) (arg : TransferAndFlush) :
    ¬ r.RunsOn arg := by
  intro h
  obtain ⟨k, hk⟩ := isSome_iff_exists.mp h.current
  rw [current, hk, bind_some, getElem?_eq_getElem (hvalid k hk)] at hcurrent
  cases hcurrent

lemma Reference.isSome_of_current {x : Resource} (h : r.current = some x) : r.currentResource.isSome := by
  rw [current, bind_eq_some_iff] at h
  obtain ⟨k, hk, -⟩ := h
  rw [hk]
  rfl

lemma Reference.setResourceId_cases (r : Reference) (index : ℕ) :
    r.resources.length ≤ index ∧ (r.setResourceId index).reference = r ∨
      index < r.resources.length ∧ (r.setResourceId index).reference = { r with currentResource := some index } := by
  rw [setResourceId]
  split
  · rename_i hnone
    exact .inl ⟨getElem?_eq_none_iff.mp hnone, rfl⟩
  · rename_i hsome
    exact .inr ⟨(List.getElem?_eq_some_iff.mp hsome).1, rfl⟩

lemma Reference.flush_cases {current : Resource} (hcurrent : r.current = some current) (arg : TransferAndFlush) :
    ¬ r.RunsOn arg ∧ r.Stays (r.flush current arg).reference ∨
      r.RunsOn arg ∧ (r.flush current arg).reference = { r with currentResource := some arg.rect.width } := by
  rw [flush]
  split
  · rename_i hflush
    exact .inl ⟨fun h => h.notFlush hflush, rfl, Nat.le_refl _, rfl, rfl⟩
  · rename_i hflush
    rcases r.setResourceId_cases arg.rect.width with ⟨hle, heq⟩ | ⟨hlt, heq⟩
    · rw [heq]
      exact .inl ⟨fun h => Nat.not_lt.mpr hle h.index, .refl r⟩
    · rw [heq]
      by_cases hsame : r.currentResource = some arg.rect.width
      · exact .inl ⟨fun h => h.other hsame, rfl, Nat.le_refl _, hsame.symm, rfl⟩
      · exact .inr ⟨⟨r.isSome_of_current hcurrent, hflush, hlt, hsame⟩, rfl⟩

lemma Reference.ioctl_choice (hvalid : r.Valid) (c : Caller) (request : Request) :
    Choice r (.ioctl c request) (r.ioctl request).reference := by
  have hself : r.Proper (.ioctl c request) → Choice r (.ioctl c request) r := .stays _ _ (.refl r)
  have hsends : ∀ waiting, r.Proper (.ioctl c request) → Choice r (.ioctl c request) { r with waiting } :=
    fun _ => .stays _ _ ⟨rfl, Nat.le_refl _, rfl, rfl⟩
  cases request with
  | createResource2d arg =>
    cases arg with
    | none => exact hself trivial
    | some arg =>
      refine .stays _ _ ?_ trivial
      dsimp only [ioctl, Outcome.reference, allocate]
      split
      · exact ⟨rfl, Nat.le_refl _, rfl, rfl⟩
      · exact ⟨rfl, (length_modify ..).ge, rfl, rfl⟩
  | getDisplayInfo arg =>
    cases arg with
    | none => exact hself trivial
    | some _ => exact hsends _ trivial
  | resourceAttachBacking arg phys =>
    cases arg with
    | none => exact hself trivial
    | some arg =>
      dsimp only [ioctl]
      split
      · exact hself trivial
      · exact hsends _ trivial
  | setScanout arg =>
    cases arg with
    | none => exact hself trivial
    | some arg =>
      dsimp only [ioctl]
      split
      · exact hself trivial
      · exact hsends _ trivial
  | transferAndFlush arg =>
    cases arg with
    | none => exact hself trivial
    | some arg =>
      dsimp only [ioctl]
      split
      · rename_i hcurrent
        exact hself fun _ => hvalid.not_runsOn hcurrent arg
      · rename_i hcurrent
        split
        · rename_i htransfer
          exact hsends _ fun hne => absurd htransfer hne
        · rename_i htransfer
          rcases r.flush_cases hcurrent arg with ⟨hnot, hstays⟩ | ⟨hruns, heq⟩
          · exact .stays _ _ hstays fun _ => hnot
          · rw [heq]
            exact .runsOn _ arg _ (.refl _) hruns (fun c index h => by cases h) fun hproper => hproper htransfer hruns
  | setResourceId arg =>
    cases arg with
    | none => exact hself trivial
    | some index =>
      rcases r.setResourceId_cases index with ⟨-, heq⟩ | ⟨hlt, heq⟩
      · rw [ioctl, heq]
        exact hself trivial
      · rw [ioctl, heq]
        exact .resource c index _ (.refl _) hlt
  | setContextId arg =>
    cases arg with
    | none => exact hself trivial
    | some index =>
      dsimp only [ioctl, setContextId]
      split
      · rename_i hnone
        exact hself (getElem?_eq_none_iff.mp hnone)
      · rename_i hsome
        exact .context c index _ (.refl _) (List.getElem?_eq_some_iff.mp hsome).1
  | updateCursor arg =>
    cases arg with
    | none => exact hself trivial
    | some arg =>
      dsimp only [ioctl]
      split
      · exact hsends _ trivial
      · exact hself trivial
  | other => exact hself trivial

lemma Reference.answer_choice (hvalid : r.Valid) (c : Caller) {waiting : Waiting} (hwaiting : r.waiting = some waiting)
    (type : ℕ) : Choice r (.answer c type) (r.answer waiting type).reference := by
  -- only a transfer can run on
  have hproper : r.transferring = none → r.Proper (.answer c type) := by
    intro hnone _ arg harg
    rw [hnone] at harg
    cases harg
  have htransferring : r.transferring = waiting.transferred := by rw [transferring, hwaiting, bind_some]
  have hself : r.Proper (.answer c type) → Choice r (.answer c type) { r with waiting := none } :=
    .stays _ _ ⟨rfl, Nat.le_refl _, rfl, rfl⟩
  cases waiting with
  | create id =>
    dsimp only [answer]
    split
    · exact hself (hproper htransferring)
    · refine .stays _ _ ⟨rfl, ?_, rfl, rfl⟩ (hproper htransferring)
      exact length_append.symm ▸ Nat.le_add_right _ _
  | scanout scanoutID =>
    dsimp only [answer]
    split
    · exact hself (hproper htransferring)
    · split
      · exact hself (hproper htransferring)
      · exact .stays _ _ ⟨rfl, (length_modify ..).ge, rfl, rfl⟩ (hproper htransferring)
  | transfer arg =>
    dsimp only [answer]
    split
    · rename_i htype
      exact hself fun ht => absurd ht htype
    · rename_i htype
      have htype : type = okNodata := Decidable.not_not.mp htype
      split
      · rename_i hcurrent
        exact hself fun _ arg' _ => hvalid.not_runsOn hcurrent arg'
      · rename_i hcurrent
        rcases flush_cases hcurrent arg with ⟨hnot, hstays⟩ | ⟨hruns, heq⟩
        · refine .stays _ _ ⟨hstays.caller, hstays.resources, hstays.currentResource, hstays.currentCtx⟩ fun _ arg'
            harg' hruns => ?_
          rw [htransferring] at harg'
          obtain rfl := some.inj harg'
          exact hnot ⟨hruns.current, hruns.notFlush, hruns.index, hruns.other⟩
        · have hruns : r.RunsOn arg := ⟨hruns.current, hruns.notFlush, hruns.index, hruns.other⟩
          rw [heq]
          exact .runsOn _ arg _ ⟨rfl, Nat.le_refl _, rfl, rfl⟩ hruns (fun c index h => by cases h)
            fun hproper => hproper htype arg htransferring hruns
  | info =>
    dsimp only [answer]
    split <;> exact hself (hproper htransferring)
  | attach =>
    dsimp only [answer]
    split <;> exact hself (hproper htransferring)
  | flush =>
    dsimp only [answer]
    split <;> exact hself (hproper htransferring)
  | cursor => exact hself (hproper htransferring)

lemma Choice.valid (h : Choice r op r') (hvalid : r.Valid) : r'.Valid := by
  intro k hk
  cases h with
  | stays op r' h hproper =>
    rw [h.currentResource] at hk
    exact Nat.lt_of_lt_of_le (hvalid k hk) h.resources
  | resource c index r' h hindex =>
    rw [h.currentResource, mem_some] at hk
    exact hk ▸ Nat.lt_of_lt_of_le hindex h.resources
  | context c index r' h hindex =>
    rw [h.currentResource] at hk
    exact Nat.lt_of_lt_of_le (hvalid k hk) h.resources
  | runsOn op arg r' h hruns hop hproper =>
    rw [h.currentResource, mem_some] at hk
    exact hk ▸ Nat.lt_of_lt_of_le hruns.index h.resources

lemma Choice.caller (h : Choice r op r') : r'.caller = r.caller := by
  cases h with
  | stays op r' h => exact h.caller
  | resource c index r' h => exact h.caller
  | context c index r' h => exact h.caller
  | runsOn op arg r' h => exact h.caller

/-! ### All clients -/

lemma getReference_set (hcaller : r'.caller = c) (d : Caller) :
    (s.set c r').getReference d = (s.getReference d).map fun x => if x.caller = c then r' else x := by
  have hp : ((fun x : Reference => decide (x.caller = d)) ∘ fun x => if x.caller = c then r' else x) =
      fun x => decide (x.caller = d) := by
    funext x
    by_cases hx : x.caller = c
    · simp [hx, hcaller]
    · simp [hx]
  rw [State.getReference, State.set, find?_map, hp, State.getReference]

lemma getReference_set_self (h : s.getReference c = some r) (hcaller : r'.caller = c) :
    (s.set c r').getReference c = some r' := by
  rw [getReference_set hcaller, h, map_some, if_pos (getReference_mem h).2]

lemma getReference_set_other {d : Caller} (hd : d ≠ c) (hcaller : r'.caller = c) :
    (s.set c r').getReference d = s.getReference d := by
  rw [getReference_set hcaller]
  cases h : s.getReference d with
  | none => rfl
  | some x =>
    have hx : x.caller = d := (getReference_mem h).2
    rw [map_some, if_neg (hx ▸ hd)]

/-- **A step** is a choice of its client, or no client is concerned by it. -/
lemma step_choice (hvalid : ∀ r ∈ s.references, r.Valid) (h : step s op = some s') :
    (∃ new, s'.references = s.references ++ new ∧ ∀ r ∈ new, r = newReference op.caller) ∧ Proper s op ∨
      ∃ r r', s.getReference op.caller = some r ∧ Choice r op r' ∧ s'.references = (s.set op.caller r').references := by
  have hsame : ∃ new, s.references = s.references ++ new ∧ ∀ r ∈ new, r = newReference op.caller :=
    ⟨[], (append_nil _).symm, fun _ h => absurd h not_mem_nil⟩
  cases op with
  | «open» c =>
    obtain rfl := some.inj h
    refine .inl ⟨?_, fun r _ => trivial⟩
    rw [State.open]
    split
    · exact hsame
    · exact ⟨_, rfl, fun r hr => mem_singleton.mp hr⟩
  | ioctl c request =>
    rw [step] at h
    split at h
    · rename_i hnone
      obtain rfl := some.inj h
      refine .inl ⟨hsame, fun r hr => ?_⟩
      cases hnone.symm.trans hr
    · rename_i r hr
      split at h
      · cases h
      · obtain rfl := some.inj h
        refine .inr ⟨r, _, hr, r.ioctl_choice (hvalid r (getReference_mem hr).1) c request, ?_⟩
        cases r.ioctl request <;> rfl
  | answer c type =>
    simp only [step, bind_eq_bind, bind_eq_some_iff] at h
    obtain ⟨r, hr, waiting, hwaiting, hs'⟩ := h
    obtain rfl := some.inj hs'
    refine .inr ⟨r, _, hr, r.answer_choice (hvalid r (getReference_mem hr).1) c hwaiting type, ?_⟩
    have hnote : ((s.perform c (r.answer waiting type)).note c waiting type).references =
        (s.perform c (r.answer waiting type)).references := by
      cases waiting with
      | create id =>
        rw [State.note]
        split <;> rfl
      | _ => rfl
    rw [hnote]
    cases r.answer waiting type <;> rfl

structure Chosen (s : State) : Prop where
  ctxs : InCtxs s
  valid : ∀ r ∈ s.references, r.Valid

lemma selected_of_append {new : List Reference} (h : s'.references = s.references ++ new) : Selected s op s' := by
  have hsame : ∀ d, ∀ r ∈ s.getReference d, ∀ r' ∈ s'.getReference d, r' = r := by
    intro d r hr r' hr'
    have hr : s.references.find? _ = some r := hr
    rw [mem_def, State.getReference, h, find?_append, hr, some_or] at hr'
    exact (some.inj hr').symm
  refine ⟨fun d r hr r' hr' hne => ?_, fun d r hr r' hr' hne => ?_⟩
  · exact absurd (by rw [hsame d r hr r' hr']) hne
  · exact absurd (by rw [hsame d r hr r' hr']) hne

lemma selected_of_choice (hr : s.getReference op.caller = some r) (hcaller : r'.caller = op.caller)
    (hs' : s'.references = (s.set op.caller r').references) :
    Selected s op s' ↔ (r'.currentResource ≠ r.currentResource → (∃ arg, op = .ioctl op.caller (.setResourceId arg)) ∧
      ∃ k, r'.currentResource = some k ∧ k < r'.resources.length) ∧
      (r'.currentCtx ≠ r.currentCtx → ∃ arg, op = .ioctl op.caller (.setContextId arg)) := by
  have hget : ∀ d, s'.getReference d = (s.set op.caller r').getReference d := fun d => by
    rw [State.getReference, hs', State.getReference]
  have hself := (hget op.caller).trans (getReference_set_self hr hcaller)
  constructor
  · intro h
    exact ⟨h.resource op.caller r hr r' hself, h.context op.caller r hr r' hself⟩
  · rintro ⟨hresource, hcontext⟩
    -- the other clients keep their references
    have hother : ∀ d, d ≠ op.caller → ∀ x ∈ s.getReference d, ∀ x' ∈ s'.getReference d, x' = x := by
      intro d hd x hx x' hx'
      rw [mem_def, hget, getReference_set_other hd hcaller, mem_def.mp hx] at hx'
      exact (some.inj hx').symm
    have hown : ∀ x ∈ s.getReference op.caller, ∀ x' ∈ s'.getReference op.caller, x = r ∧ x' = r' := by
      intro x hx x' hx'
      exact ⟨some.inj ((mem_def.mp hx).symm.trans hr), some.inj ((mem_def.mp hx').symm.trans hself)⟩
    refine ⟨fun d x hx x' hx' hne => ?_, fun d x hx x' hx' hne => ?_⟩
    · by_cases hd : d = op.caller
      · subst hd
        obtain ⟨rfl, rfl⟩ := hown x hx x' hx'
        exact hresource hne
      · exact absurd (by rw [hother d hd x hx x' hx']) hne
    · by_cases hd : d = op.caller
      · subst hd
        obtain ⟨rfl, rfl⟩ := hown x hx x' hx'
        exact hcontext hne
      · exact absurd (by rw [hother d hd x hx x' hx']) hne

lemma inCtxs_iff : InCtxs s ↔ ∀ r ∈ s.references, r.currentCtx = .default :=
  forall₂_congr fun _ _ => mem_singleton

/-- **One step.** It selects what it should exactly if it is a proper one. -/
lemma Chosen.step_iff (hs : Chosen s) (h : step s op = some s') : (Selected s op s' ∧ InCtxs s') ↔ Proper s op := by
  rcases step_choice hs.valid h with ⟨⟨new, hs', hnew⟩, hproper⟩ | ⟨r, r', hr, hchoice, hs'⟩
  · refine iff_of_true ⟨selected_of_append hs', ?_⟩ hproper
    intro x hx
    rw [hs', mem_append] at hx
    rcases hx with hx | hx
    · exact hs.ctxs x hx
    · rw [hnew x hx]
      exact mem_singleton_self _
  · obtain ⟨hmem, hcaller⟩ := getReference_mem hr
    have hcaller' := hchoice.caller.trans hcaller
    have hctx : r.currentCtx = .default := inCtxs_iff.mp hs.ctxs r hmem
    have hin : InCtxs s' ↔ r'.currentCtx = .default := by
      rw [inCtxs_iff, hs']
      refine ⟨fun h => h r' ?_, fun h x hx => ?_⟩
      · exact (getReference_mem (getReference_set_self hr hcaller')).1
      · rcases mem_set hx with rfl | ⟨hx, -⟩
        · exact h
        · exact inCtxs_iff.mp hs.ctxs x hx
    have hproper : Proper s op ↔ r.Proper op := by
      refine ⟨fun h => h r hr, fun h x hx => ?_⟩
      rwa [← some.inj (hr.symm.trans hx)]
    rw [selected_of_choice hr hcaller' hs', hin, hproper]
    cases hchoice with
    | stays op r' hstays hproper =>
      exact iff_of_true ⟨⟨fun hne => absurd hstays.currentResource hne, fun hne => absurd hstays.currentCtx hne⟩,
        hstays.currentCtx.trans hctx⟩ hproper
    | resource c k r' hstays hk =>
      refine iff_of_true ⟨⟨fun _ => ⟨⟨_, rfl⟩, k, hstays.currentResource, ?_⟩, fun hne => absurd hstays.currentCtx hne⟩,
        hstays.currentCtx.trans hctx⟩ trivial
      exact Nat.lt_of_lt_of_le hk hstays.resources
    | context c k r' hstays hk =>
      refine iff_of_false (fun h => ?_) (fun h => Nat.not_lt.mpr h hk)
      cases hstays.currentCtx.symm.trans h.2
    | runsOn op arg r' hstays hruns hop hproper =>
      refine iff_of_false (fun h => ?_) hproper
      obtain ⟨⟨arg', harg'⟩, -⟩ := h.1.1 fun heq => hruns.other (heq.symm.trans hstays.currentResource)
      exact hop _ _ harg'

lemma Chosen.step (hs : Chosen s) (hproper : Proper s op) (h : step s op = some s') : Chosen s' := by
  refine ⟨((hs.step_iff h).mpr hproper).2, fun x hx => ?_⟩
  rcases step_choice hs.valid h with ⟨⟨new, hs', hnew⟩, -⟩ | ⟨r, r', hr, hchoice, hs'⟩
  · rw [hs', mem_append] at hx
    rcases hx with hx | hx
    · exact hs.valid x hx
    · rw [hnew x hx]
      exact nofun
  · rw [hs'] at hx
    rcases mem_set hx with rfl | ⟨hx, -⟩
    · exact hchoice.valid (hs.valid r (getReference_mem hr).1)
    · exact hs.valid x hx

end

/-- **The selection of the clients**, after any requests that are all proper: each has one of its
contexts, and the next step selects what it should exactly if it is a proper one. -/
theorem selection_iff {ops : List Step} {s : State} (h : run step init ops = some s)
    (hproper : Along step Proper init ops) :
    InCtxs s ∧ ∀ op s', step s op = some s' → ((Selected s op s' ∧ InCtxs s') ↔ Proper s op) := by
  have hs : Chosen s := run_invariant_along step (fun _ _ _ hs hproper h => Chosen.step hs hproper h) ops init s
    ⟨nofun, nofun⟩ hproper h
  exact ⟨hs.ctxs, fun op s' h => hs.step_iff h⟩

def twoResources : List Step :=
  [.open ⟨1, 0⟩, .ioctl ⟨1, 0⟩ (.createResource2d (some (1, ⟨640, 480⟩))), .answer ⟨1, 0⟩ okNodata,
    .ioctl ⟨1, 0⟩ (.createResource2d (some (1, ⟨64, 64⟩))), .answer ⟨1, 0⟩ okNodata,
    .ioctl ⟨1, 0⟩ (.setResourceId (some 0))]

theorem selection_two_resources : Along step Proper init twoResources ∧ ∃ s, run step init twoResources = some s ∧
    (InCtxs s ∧ ∀ op s', step s op = some s' → ((Selected s op s' ∧ InCtxs s') ↔ Proper s op)) := by
  have hproper : Along step Proper init twoResources := by decide +kernel
  exact ⟨hproper, _, rfl, selection_iff rfl hproper⟩

/-- A transfer of a rectangle of width 1, without a flush, selects the second resource; and the request
for the context 0 selects the first one as a context. -/
theorem transfer_selects_resource : ∃ s s' s'', run step init twoResources = some s ∧
    step s (.ioctl ⟨1, 0⟩ (.transferAndFlush (some ⟨⟨1, 1⟩, 1, 1⟩))) = some s' ∧
    step s' (.ioctl ⟨1, 0⟩ (.setContextId (some 0))) = some s'' ∧
    ¬ Selected s (.ioctl ⟨1, 0⟩ (.transferAndFlush (some ⟨⟨1, 1⟩, 1, 1⟩))) s' ∧ ¬ InCtxs s'' := by
  refine ⟨_, _, _, rfl, rfl, rfl, fun h => ?_, fun h => ?_⟩
  · obtain ⟨⟨arg, harg⟩, -⟩ := h.resource ⟨1, 0⟩ _ rfl _ rfl (by decide)
    cases harg
  · exact absurd (h _ mem_cons_self) (by decide)

end WivOS.Virtiogpu
