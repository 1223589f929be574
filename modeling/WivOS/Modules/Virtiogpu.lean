/-
# The resources of the VirtIO GPU

`gpu_open` and `gpu_ioctl` of `modules/virtiogpu/main.c`, and runs of them by any number of callers, who go on while
one waits for the host. `sent` and `created` are the commands sent and the ids of the `RESOURCE_CREATE_2D` commands that
succeeded. Every caller counts its ids from 15 on, while the host has one space of ids for all.
`VIRTGPU_IOCTL_SET_CONTEXT_ID` takes the context from the list of the resources, and its counter from behind one.
-/
import WivOS.Lib.Machine
import WivOS.Mem.Pmm

namespace WivOS.Virtiogpu

open Option Machine

structure Caller where
  pid : ℕ
  tid : ℕ
deriving DecidableEq

/-- `virtgpu_resource_t`. Nothing reads the other fields; `word` is the one a hundred bytes from
the start, in the same page, where a `virtgpu_ctx_t` has its `resourceAllocator`. -/
structure Resource where
  id : ℕ
  scanoutID : ℕ
  word : ℕ
deriving DecidableEq

/-- What `currentCtx` points to: the context that `gpu_open` made, or a resource. -/
inductive Ctx where
  | default
  | resource (index : ℕ)
deriving DecidableEq

structure Rect where
  width : ℕ
  height : ℕ
deriving DecidableEq

structure TransferAndFlush where
  rect : Rect
  notTransfer : ℕ
  notFlush : ℕ
deriving DecidableEq

inductive Waiting where
  | create (id : ℕ)
  | info
  | attach
  | scanout (scanoutID : ℕ)
  | transfer (arg : TransferAndFlush)
  | flush
  | cursor
deriving DecidableEq

/-- `virtgpu_node_reference_t`, with the `resourceAllocator` of its own context and the call
that the caller is in. -/
structure Reference where
  caller : Caller
  resources : List Resource
  resourceAllocator : ℕ
  currentCtx : Ctx
  currentResource : Option ℕ
  waiting : Option Waiting
deriving DecidableEq

inductive Command where
  | resourceCreate2d (resourceID format : ℕ) (rect : Rect)
  | getDisplayInfo
  | resourceAttachBacking (resourceID address length : ℕ)
  | setScanout (resourceID scanoutID : ℕ) (rect : Rect)
  | transferToHost2d (ctxID resourceID : ℕ) (rect : Rect)
  | resourceFlush (ctxID resourceID : ℕ) (rect : Rect)
  | updateCursor (resourceID scanoutID x y hotX hotY : ℕ)
deriving DecidableEq

/-- The resource that a command is about, if it does not create it. -/
def Command.addressed : Command → Option ℕ
  | .resourceCreate2d .. => none
  | .getDisplayInfo => none
  | .resourceAttachBacking id .. => some id
  | .setScanout id .. => some id
  | .transferToHost2d _ id _ => some id
  | .resourceFlush _ id _ => some id
  | .updateCursor id .. => some id

/-- The requests with their arguments; `none` is a null pointer. -/
inductive Request where
  | createResource2d (arg : Option (ℕ × Rect))
  | getDisplayInfo (arg : Option Unit)
  /-- The address and the length, and what `vmm_get_phys` says about the address. -/
  | resourceAttachBacking (arg : Option (ℕ × ℕ)) (phys : ℕ)
  | setScanout (arg : Option (Rect × ℕ))
  | transferAndFlush (arg : Option TransferAndFlush)
  | setResourceId (arg : Option ℕ)
  | setContextId (arg : Option ℕ)
  /-- The index of the resource, then `x`, `y`, `hotX` and `hotY`. -/
  | updateCursor (arg : Option (ℕ × ℕ × ℕ × ℕ × ℕ))
  | other

/-- `VIRTIO_GPU_RESP_OK_NODATA` and `VIRTIO_GPU_RESP_OK_DISPLAY_INFO`. -/
def okNodata : ℕ := 0x1100
def okDisplayInfo : ℕ := 0x1101

def minusOne : ℕ := 2 ^ 64 - 1

inductive Outcome where
  | returns (value : ℕ) (r : Reference)
  | sends (command : Command) (r : Reference)

namespace Reference

def current (r : Reference) : Option Resource := r.currentResource.bind fun k => r.resources[k]?

def ctxID (r : Reference) : ℕ :=
  match r.currentCtx with
  | .default => 0
  | .resource k => (r.resources[k]?.map Resource.id).getD 0

def allocate (r : Reference) : ℕ × Reference :=
  match r.currentCtx with
  | .default => (r.resourceAllocator, { r with resourceAllocator := (r.resourceAllocator + 1) % 2 ^ 32 })
  | .resource k => ((r.resources[k]?.map Resource.word).getD 0,
      { r with resources := r.resources.modify k fun x => { x with word := (x.word + 1) % 2 ^ 32 } })

def setResourceId (r : Reference) (index : ℕ) : Outcome :=
  match r.resources[index]? with
  | none => .returns minusOne r
  | some _ => .returns 0 { r with currentResource := some index }

def setContextId (r : Reference) (index : ℕ) : Outcome :=
  match r.resources[index]? with
  | none => .returns minusOne r
  | some _ => .returns 0 { r with currentCtx := .resource index }

/-- The second half of `VIRTGPU_IOCTL_TRANSFER_AND_FLUSH`. If nothing is to be flushed, the case
runs on into `VIRTGPU_IOCTL_SET_RESOURCE_ID`, and the first word of its argument is the index. -/
def flush (r : Reference) (current : Resource) (arg : TransferAndFlush) : Outcome :=
  if arg.notFlush = 0 then .sends (.resourceFlush r.ctxID current.id arg.rect) { r with waiting := some .flush }
  else r.setResourceId arg.rect.width

def ioctl (r : Reference) : Request → Outcome
  | .createResource2d (some (format, rect)) =>
    let (id, r) := r.allocate
    .sends (.resourceCreate2d id format rect) { r with waiting := some (.create id) }
  | .getDisplayInfo (some ()) => .sends .getDisplayInfo { r with waiting := some .info }
  | .resourceAttachBacking (some (address, length)) phys =>
    match r.current with
    | none => .returns minusOne r
    | some current =>
      let address := if r.caller.pid = 0 then (address + 2 ^ 64 - memPhysOffset) % 2 ^ 64 else phys
      .sends (.resourceAttachBacking current.id address length) { r with waiting := some .attach }
  | .setScanout (some (rect, scanoutID)) =>
    match r.current with
    | none => .returns minusOne r
    | some current => .sends (.setScanout current.id scanoutID rect) { r with waiting := some (.scanout scanoutID) }
  | .transferAndFlush (some arg) =>
    match r.current with
    | none => .returns minusOne r
    | some current =>
      if arg.notTransfer = 0 then
        .sends (.transferToHost2d r.ctxID current.id arg.rect) { r with waiting := some (.transfer arg) }
      else r.flush current arg
  | .setResourceId (some index) => r.setResourceId index
  | .setContextId (some index) => r.setContextId index
  | .updateCursor (some (index, x, y, hotX, hotY)) =>
    match r.current, r.resources[index]? with
    | some current, some resource =>
      .sends (.updateCursor resource.id current.scanoutID x y hotX hotY) { r with waiting := some .cursor }
    | _, _ => .returns minusOne r
  | _ => .returns minusOne r

def answer (r : Reference) (waiting : Waiting) (type : ℕ) : Outcome :=
  let r := { r with waiting := none }
  match waiting with
  | .create id =>
    if type ≠ okNodata then .returns minusOne r
    else .returns r.resources.length { r with resources := r.resources ++ [⟨id, 0, 0⟩] }
  | .info => if type ≠ okDisplayInfo then .returns minusOne r else .returns 16 r
  | .attach => if type ≠ okNodata then .returns minusOne r else .returns 0 r
  | .scanout scanoutID =>
    if type ≠ okNodata then .returns minusOne r
    else match r.currentResource with
      | none => .returns 0 r
      | some k => .returns 0 { r with resources := r.resources.modify k fun x => { x with scanoutID } }
  | .transfer arg =>
    if type ≠ okNodata then .returns minusOne r
    else match r.current with
      | none => .returns minusOne r
      | some current => r.flush current arg
  | .flush => if type ≠ okNodata then .returns minusOne r else .returns 0 r
  | .cursor => .returns 0 r

end Reference

/-! ### Runs -/

structure State where
  references : List Reference
  sent : List (Caller × Command)
  created : List (Caller × ℕ)

def State.getReference (s : State) (c : Caller) : Option Reference := s.references.find? (·.caller = c)

def State.set (s : State) (c : Caller) (r : Reference) : State :=
  { s with references := s.references.map fun x => if x.caller = c then r else x }

def newReference (c : Caller) : Reference := ⟨c, [], 15, .default, none, none⟩

def State.open (s : State) (c : Caller) : State :=
  match s.getReference c with
  | some _ => s
  | none => { s with references := s.references ++ [newReference c] }

def State.perform (s : State) (c : Caller) : Outcome → State
  | .returns _ r => s.set c r
  | .sends command r => { s.set c r with sent := s.sent ++ [(c, command)] }

def State.note (s : State) (c : Caller) (waiting : Waiting) (type : ℕ) : State :=
  match waiting with
  | .create id => if type = okNodata then { s with created := s.created ++ [(c, id)] } else s
  | _ => s

inductive Step where
  | open (c : Caller)
  | ioctl (c : Caller) (request : Request)
  /-- The host answers the command of the caller. -/
  | answer (c : Caller) (type : ℕ)

def step (s : State) : Step → Option State
  | .open c => some (s.open c)
  | .ioctl c request =>
    match s.getReference c with
    | none => some s
    | some r => if r.waiting.isSome then none else some (s.perform c (r.ioctl request))
  | .answer c type => do
    let r ← s.getReference c
    let waiting ← r.waiting
    some ((s.perform c (r.answer waiting type)).note c waiting type)

def init : State := ⟨[], [], []⟩

/-- The ids are distinct, none is the driver's own, and the commands of a caller are about its own
resources only. -/
structure Separate (s : State) : Prop where
  distinct : (s.created.map Prod.snd).Nodup
  reserved : 2 ∉ s.created.map Prod.snd
  own : ∀ x ∈ s.sent, ∀ id ∈ x.2.addressed, id ≠ 2 ∧ ∀ y ∈ s.created, y.2 = id → y.1 = x.1

def Reference.Active (r : Reference) : Prop := r.resources ≠ [] ∨ ∃ id, r.waiting = some (.create id)

instance (r : Reference) : Decidable r.Active :=
  decidable_of_iff (r.resources ≠ [] ∨ r.waiting.any fun | .create _ => true | _ => false) <| by
    refine or_congr_right ?_
    rcases r.waiting with _ | waiting
    · simp
    · cases waiting <;> simp

def Step.creates : Step → Option Caller
  | .ioctl c (.createResource2d _) => some c
  | _ => none

/-- No other caller has a resource or is creating one, and the id comes from the context of
`gpu_open`, whose counter has not gone round. -/
def Lone (s : State) (op : Step) : Prop :=
  ∀ c ∈ op.creates, (∀ r ∈ s.references, r.caller ≠ c → ¬ r.Active) ∧
    ∀ r ∈ s.references, r.caller = c → r.currentCtx = .default ∧ 15 ≤ r.resourceAllocator

instance (s : State) (op : Step) : Decidable (Lone s op) :=
  inferInstanceAs (Decidable (∀ c ∈ op.creates, (∀ r ∈ s.references, r.caller ≠ c → ¬ r.Active) ∧
    ∀ r ∈ s.references, r.caller = c → r.currentCtx = .default ∧ 15 ≤ r.resourceAllocator))

/-! ### What a step does -/

section

variable {s s' : State} {r r' : Reference} {c : Caller} {sent : List (Caller × Command)} {op : Step} {waiting : Waiting}
  {x : Resource}

/-- Nothing about the resources, their ids and the counter changes. -/
structure Keeps (r r' : Reference) : Prop where
  caller : r'.caller = r.caller
  ids : r'.resources.map Resource.id = r.resources.map Resource.id
  resourceAllocator : r'.resourceAllocator = r.resourceAllocator
  waiting : ∀ id, r'.waiting ≠ some (.create id)

/-- Such a change, with a command about a resource of the caller at most. -/
def Outcome.Quiet (r : Reference) : Outcome → Prop
  | .returns _ r' => Keeps r r'
  | .sends command r' => Keeps r r' ∧ ∀ id ∈ command.addressed, id ∈ r.resources.map Resource.id

lemma Keeps.self (h : r.waiting = none) : Keeps r r := ⟨rfl, rfl, rfl, by simp [h]⟩

lemma Keeps.active (h : Keeps r r') (ha : r'.Active) : r.Active := by
  rcases ha with hne | ⟨id, hid⟩
  · left
    intro hnil
    have hids := h.ids
    rw [hnil, List.map_nil, List.map_eq_nil_iff] at hids
    exact hne hids
  · exact absurd hid (h.waiting id)

lemma ids_modify (resources : List Resource) (k : ℕ) {f : Resource → Resource} (hf : ∀ x, (f x).id = x.id) :
    (resources.modify k f).map Resource.id = resources.map Resource.id := by
  refine List.ext_getElem? fun i => ?_
  rw [List.getElem?_map, List.getElem?_map, List.getElem?_modify]
  split
  · cases resources[i]? with
    | none => rfl
    | some x => simp [hf]
  · cases resources[i]? with
    | none => rfl
    | some x => rfl

lemma Reference.current_mem (h : r.current = some x) : x.id ∈ r.resources.map Resource.id := by
  rw [Reference.current, bind_eq_some_iff] at h
  obtain ⟨k, -, hk⟩ := h
  exact List.mem_map_of_mem (List.mem_of_getElem? hk)

lemma Reference.setResourceId_quiet (h : r.waiting = none) (index : ℕ) : (r.setResourceId index).Quiet r := by
  rw [Reference.setResourceId]
  split
  · exact Keeps.self h
  · exact ⟨rfl, rfl, rfl, by simp [h]⟩

lemma Reference.setContextId_quiet (h : r.waiting = none) (index : ℕ) : (r.setContextId index).Quiet r := by
  rw [Reference.setContextId]
  split
  · exact Keeps.self h
  · exact ⟨rfl, rfl, rfl, by simp [h]⟩

lemma Reference.flush_quiet (h : r.waiting = none) {current : Resource} (hcurrent : r.current = some current)
    (arg : TransferAndFlush) : (r.flush current arg).Quiet r := by
  rw [Reference.flush]
  split
  · refine ⟨⟨rfl, rfl, rfl, fun id h => by cases h⟩, fun id hid => ?_⟩
    obtain rfl := mem_some.mp hid
    exact r.current_mem hcurrent
  · exact r.setResourceId_quiet h _

lemma quiet_sends {command : Command} (hx : x.id ∈ r.resources.map Resource.id)
    (hcommand : command.addressed = some x.id) (hwaiting : ∀ id, waiting ≠ .create id) :
    (Outcome.sends command { r with waiting := some waiting }).Quiet r := by
  refine ⟨⟨rfl, rfl, rfl, fun id h => hwaiting id (some.inj h)⟩, fun id hid => ?_⟩
  rw [hcommand] at hid
  obtain rfl := mem_some.mp hid
  exact hx

lemma Reference.ioctl_quiet (h : r.waiting = none) {request : Request}
    (hrequest : ∀ arg, request ≠ .createResource2d (some arg)) : (r.ioctl request).Quiet r := by
  have hself : ∀ value, (Outcome.returns value r).Quiet r := fun _ => Keeps.self h
  cases request with
  | createResource2d arg =>
    cases arg with
    | none => exact hself _
    | some arg => exact absurd rfl (hrequest arg)
  | getDisplayInfo arg =>
    cases arg with
    | none => exact hself _
    | some _ => exact ⟨⟨rfl, rfl, rfl, fun id h => by cases h⟩, fun id hid => by cases hid⟩
  | resourceAttachBacking arg phys =>
    cases arg with
    | none => exact hself _
    | some arg =>
      dsimp only [Reference.ioctl]
      split
      · exact hself _
      · rename_i hcurrent
        exact quiet_sends (r.current_mem hcurrent) rfl fun id h => by cases h
  | setScanout arg =>
    cases arg with
    | none => exact hself _
    | some arg =>
      dsimp only [Reference.ioctl]
      split
      · exact hself _
      · rename_i hcurrent
        exact quiet_sends (r.current_mem hcurrent) rfl fun id h => by cases h
  | transferAndFlush arg =>
    cases arg with
    | none => exact hself _
    | some arg =>
      dsimp only [Reference.ioctl]
      split
      · exact hself _
      · rename_i hcurrent
        split
        · exact quiet_sends (r.current_mem hcurrent) rfl fun id h => by cases h
        · exact r.flush_quiet h hcurrent arg
  | setResourceId arg =>
    cases arg with
    | none => exact hself _
    | some index => exact r.setResourceId_quiet h index
  | setContextId arg =>
    cases arg with
    | none => exact hself _
    | some index => exact r.setContextId_quiet h index
  | updateCursor arg =>
    cases arg with
    | none => exact hself _
    | some arg =>
      dsimp only [Reference.ioctl]
      split
      · rename_i hresource
        exact quiet_sends (List.mem_map_of_mem (List.mem_of_getElem? hresource)) rfl fun id h => by cases h
      · exact hself _
  | other => exact hself _

lemma Reference.answer_quiet (r : Reference) {type : ℕ}
    (hwaiting : ∀ id, waiting = .create id → type ≠ okNodata) :
    (r.answer waiting type).Quiet { r with waiting := none } := by
  have hself : ∀ value, (Outcome.returns value { r with waiting := none }).Quiet { r with waiting := none } :=
    fun _ => Keeps.self rfl
  cases waiting with
  | create id =>
    simp only [Reference.answer, if_pos (hwaiting id rfl)]
    exact hself _
  | info =>
    dsimp only [Reference.answer]
    split <;> exact hself _
  | attach =>
    dsimp only [Reference.answer]
    split <;> exact hself _
  | scanout scanoutID =>
    dsimp only [Reference.answer]
    split
    · exact hself _
    · split
      · exact hself _
      · exact ⟨rfl, ids_modify _ _ fun _ => rfl, rfl, fun id h => by cases h⟩
  | transfer arg =>
    dsimp only [Reference.answer]
    split
    · exact hself _
    · split
      · exact hself _
      · rename_i hcurrent
        exact Reference.flush_quiet rfl hcurrent arg
  | flush =>
    dsimp only [Reference.answer]
    split <;> exact hself _
  | cursor => exact hself _

lemma getReference_mem (h : s.getReference c = some r) : r ∈ s.references ∧ r.caller = c :=
  ⟨List.mem_of_find?_eq_some h, by simpa using List.find?_some h⟩

lemma getReference_none (h : s.getReference c = none) : ∀ r ∈ s.references, r.caller ≠ c := by
  rw [State.getReference, List.find?_eq_none] at h
  intro r hr heq
  exact h r hr (by simpa using heq)

lemma mem_set {x : Reference} (h : x ∈ (s.set c r').references) : x = r' ∨ x ∈ s.references ∧ x.caller ≠ c := by
  obtain ⟨y, hy, hx⟩ := List.mem_map.mp h
  split at hx
  · exact .inl hx.symm
  · rename_i hne
    subst hx
    exact .inr ⟨hy, hne⟩

/-- What a step can do. -/
inductive Effect (s : State) (op : Step) : State → Prop
  | none : Effect s op s
  | opened (c : Caller) (hc : s.getReference c = none) :
      Effect s op { s with references := s.references ++ [newReference c] }
  | quiet (c : Caller) (r r' : Reference) (sent : List (Caller × Command)) (hr : s.getReference c = some r)
      (hk : Keeps r r') (hsent : ∀ x ∈ sent, x ∈ s.sent ∨
        x.1 = c ∧ ∀ id ∈ x.2.addressed, id ∈ r.resources.map Resource.id) :
      Effect s op { s.set c r' with sent }
  | creating (c : Caller) (r : Reference) (arg : ℕ × Rect) (hop : op = .ioctl c (.createResource2d (some arg)))
      (hr : s.getReference c = some r) :
      Effect s op { s.set c { r.allocate.2 with waiting := some (.create r.allocate.1) } with
        sent := s.sent ++ [(c, .resourceCreate2d r.allocate.1 arg.1 arg.2)] }
  | created (c : Caller) (r : Reference) (id : ℕ) (hr : s.getReference c = some r)
      (hid : r.waiting = some (.create id)) :
      Effect s op { s.set c { r with waiting := .none, resources := r.resources ++ [⟨id, 0, 0⟩] } with
        created := s.created ++ [(c, id)] }

lemma effect_perform {outcome : Outcome} (hr : s.getReference c = some r)
    (h : outcome.Quiet { r with waiting := none }) : Effect s op (s.perform c outcome) := by
  cases outcome with
  | returns value r' =>
    exact .quiet c r r' s.sent hr ⟨h.caller, h.ids, h.resourceAllocator, h.waiting⟩ fun x hx => .inl hx
  | sends command r' =>
    obtain ⟨hk, hids⟩ := h
    refine .quiet c r r' _ hr ⟨hk.caller, hk.ids, hk.resourceAllocator, hk.waiting⟩ fun x hx => ?_
    rcases List.mem_append.mp hx with hx | hx
    · exact .inl hx
    · obtain rfl := List.mem_singleton.mp hx
      exact .inr ⟨rfl, hids⟩

lemma step_cases (h : step s op = some s') : Effect s op s' := by
  cases op with
  | «open» c =>
    obtain rfl := some.inj h
    rw [State.open]
    split
    · exact .none
    · rename_i hc
      exact .opened c hc
  | ioctl c request =>
    rw [step] at h
    split at h
    · obtain rfl := some.inj h
      exact .none
    · rename_i r hr
      split at h
      · cases h
      · rename_i hidle
        rw [not_isSome_iff_eq_none] at hidle
        obtain rfl := some.inj h
        by_cases hrequest : ∃ arg, request = .createResource2d (some arg)
        · obtain ⟨arg, rfl⟩ := hrequest
          exact .creating c r arg rfl hr
        · have hquiet := r.ioctl_quiet hidle fun arg harg => hrequest ⟨arg, harg⟩
          have hsame : { r with waiting := none } = r := by rw [← hidle]
          exact effect_perform hr (hsame ▸ hquiet)
  | answer c type =>
    simp only [step, bind_eq_bind, bind_eq_some_iff] at h
    obtain ⟨r, hr, waiting, hw, hs'⟩ := h
    obtain rfl := some.inj hs'
    by_cases hcreate : ∃ id, waiting = .create id ∧ type = okNodata
    · obtain ⟨id, rfl, rfl⟩ := hcreate
      exact .created c r id hr hw
    · have hnote : (s.perform c (r.answer waiting type)).note c waiting type = s.perform c (r.answer waiting type) := by
        cases waiting with
        | create id => exact if_neg fun ht => hcreate ⟨id, rfl, ht⟩
        | _ => rfl
      rw [hnote]
      exact effect_perform hr (r.answer_quiet fun id hid ht => hcreate ⟨id, hid, ht⟩)

/-! ### The invariant -/

/-- One caller has all the resources, and their ids are below its counter. -/
structure Inv (s : State) : Prop where
  counter : ∀ r ∈ s.references, r.resourceAllocator < 2 ^ 32
  ids : ∀ x ∈ s.created, 15 ≤ x.2 ∧ (∃ r ∈ s.references, r.caller = x.1) ∧ ∀ r ∈ s.references, r.caller = x.1 →
    r.resources ≠ [] ∧ (15 ≤ r.resourceAllocator → x.2 < r.resourceAllocator)
  own : ∀ r ∈ s.references, ∀ id ∈ r.resources.map Resource.id, (r.caller, id) ∈ s.created
  pending : ∀ r ∈ s.references, ∀ id, r.waiting = some (.create id) →
    15 ≤ id ∧ (15 ≤ r.resourceAllocator → id < r.resourceAllocator) ∧ ∀ x ∈ s.created, x.2 < id
  single : ∀ r ∈ s.references, ∀ r' ∈ s.references, r.Active → r'.Active → r.caller = r'.caller
  distinct : (s.created.map Prod.snd).Nodup
  sent : ∀ x ∈ s.sent, ∀ id ∈ x.2.addressed, (x.1, id) ∈ s.created

lemma inv_init : Inv init := ⟨nofun, nofun, nofun, nofun, nofun, List.nodup_nil, nofun⟩

lemma not_active_newReference (c : Caller) : ¬ (newReference c).Active := by
  rintro (h | ⟨id, hid⟩)
  · exact h rfl
  · cases hid

lemma Inv.opened (hs : Inv s) (hc : s.getReference c = none) :
    Inv { s with references := s.references ++ [newReference c] } := by
  have hmem : ∀ x ∈ s.references ++ [newReference c], x ∈ s.references ∨ x = newReference c := fun x hx => by
    simpa using hx
  have hne := getReference_none hc
  refine ⟨fun r hr => ?_, fun x hx => ?_, fun r hr => ?_, fun r hr => ?_,
    fun r hr r' hr' ha ha' => ?_, hs.distinct, hs.sent⟩
  · rcases hmem r hr with hr | rfl
    · exact hs.counter r hr
    · exact (by decide : 15 < 2 ^ 32)
  · obtain ⟨hle, ⟨r0, hr0, hcaller⟩, hall⟩ := hs.ids x hx
    refine ⟨hle, ⟨r0, List.mem_append_left _ hr0, hcaller⟩, fun r hr hrx => ?_⟩
    rcases hmem r hr with hr | rfl
    · exact hall r hr hrx
    · exact absurd (hcaller.trans hrx.symm) (hne r0 hr0)
  · rcases hmem r hr with hr | rfl
    · exact hs.own r hr
    · exact nofun
  · rcases hmem r hr with hr | rfl
    · exact hs.pending r hr
    · exact nofun
  · rcases hmem r hr with hr | rfl
    · rcases hmem r' hr' with hr' | rfl
      · exact hs.single r hr r' hr' ha ha'
      · exact absurd ha' (not_active_newReference c)
    · exact absurd ha (not_active_newReference c)

lemma exists_set (hr' : r'.caller = c) {d : Caller}
    (h : ∃ x ∈ s.references, x.caller = d) : ∃ x ∈ (s.set c r').references, x.caller = d := by
  obtain ⟨x, hx, rfl⟩ := h
  refine ⟨_, List.mem_map_of_mem hx, ?_⟩
  split
  · rename_i hxc
    rw [hr', hxc]
  · rfl

section

variable (hs : Inv s) (hr : s.getReference c = some r)
include hs hr

lemma Inv.quiet (hk : Keeps r r')
    (hsent : ∀ x ∈ sent, x ∈ s.sent ∨ x.1 = c ∧ ∀ id ∈ x.2.addressed, id ∈ r.resources.map Resource.id) :
    Inv { s.set c r' with sent } := by
  obtain ⟨hmem, hcaller⟩ := getReference_mem hr
  have hcaller' : r'.caller = c := hk.caller.trans hcaller
  refine ⟨fun x hx => ?_, fun x hx => ?_, fun x hx id hid => ?_, fun x hx id hid => ?_, fun x hx y hy hxa hya => ?_,
    hs.distinct, fun x hx id hid => ?_⟩
  · rcases mem_set hx with rfl | ⟨hx, -⟩
    · rw [hk.resourceAllocator]
      exact hs.counter r hmem
    · exact hs.counter x hx
  · obtain ⟨hle, hex, hall⟩ := hs.ids x hx
    refine ⟨hle, exists_set hcaller' hex, fun y hy hyx => ?_⟩
    rcases mem_set hy with rfl | ⟨hy, -⟩
    · obtain ⟨hne, hlt⟩ := hall r hmem (by rw [hcaller, ← hcaller', hyx])
      refine ⟨fun hnil => ?_, hk.resourceAllocator ▸ hlt⟩
      have hids := hk.ids
      rw [hnil, List.map_nil, eq_comm, List.map_eq_nil_iff] at hids
      exact hne hids
    · exact hall y hy hyx
  · rcases mem_set hx with rfl | ⟨hx, -⟩
    · rw [hk.caller]
      exact hs.own r hmem id (hk.ids ▸ hid)
    · exact hs.own x hx id hid
  · rcases mem_set hx with rfl | ⟨hx, -⟩
    · exact absurd hid (hk.waiting id)
    · exact hs.pending x hx id hid
  · rcases mem_set hx with rfl | ⟨hxs, -⟩
    · rcases mem_set hy with rfl | ⟨hys, -⟩
      · rfl
      · exact hk.caller.trans (hs.single r hmem y hys (hk.active hxa) hya)
    · rcases mem_set hy with rfl | ⟨hys, -⟩
      · exact (hs.single x hxs r hmem hxa (hk.active hya)).trans hk.caller.symm
      · exact hs.single x hxs y hys hxa hya
  · rcases hsent x hx with hx | ⟨rfl, hids⟩
    · exact hs.sent x hx id hid
    · rw [← hcaller]
      exact hs.own r hmem id (hids id hid)

lemma Inv.creating
    (hothers : ∀ x ∈ s.references, x.caller ≠ c → ¬ x.Active) (hctx : r.currentCtx = .default)
    (hcounter : 15 ≤ r.resourceAllocator) (hsent : ∀ x ∈ sent, x ∈ s.sent ∨ x.2.addressed = none) :
    Inv { s.set c { r.allocate.2 with waiting := some (.create r.allocate.1) } with sent } := by
  obtain ⟨hmem, hcaller⟩ := getReference_mem hr
  have hbound := hs.counter r hmem
  have hallocate : r.allocate = (r.resourceAllocator,
      { r with resourceAllocator := (r.resourceAllocator + 1) % 2 ^ 32 }) := by
    simp only [Reference.allocate, hctx]
  rw [hallocate]
  -- the counter goes up, or round to 0
  have hup : 15 ≤ (r.resourceAllocator + 1) % 2 ^ 32 → r.resourceAllocator < (r.resourceAllocator + 1) % 2 ^ 32 := by
    intro h
    omega
  have hlone : ∀ x ∈ s.created, x.1 = c := by
    intro x hx
    obtain ⟨-, ⟨y, hy, hyx⟩, hall⟩ := hs.ids x hx
    by_contra hne
    exact hothers y hy (hyx ▸ hne) (.inl (hall y hy hyx).1)
  have hlt : ∀ x ∈ s.created, x.2 < r.resourceAllocator := fun x hx =>
    ((hs.ids x hx).2.2 r hmem (hcaller.trans (hlone x hx).symm)).2 hcounter
  refine ⟨fun x hx => ?_, fun x hx => ?_, fun x hx id hid => ?_, fun x hx id hid => ?_, fun x hx y hy hxa hya => ?_,
    hs.distinct, fun x hx id hid => ?_⟩
  · rcases mem_set hx with rfl | ⟨hx, -⟩
    · exact Nat.mod_lt _ (by decide)
    · exact hs.counter x hx
  · obtain ⟨hle, hex, hall⟩ := hs.ids x hx
    refine ⟨hle, exists_set (by exact hcaller) hex, fun y hy hyx => ?_⟩
    rcases mem_set hy with rfl | ⟨hy, -⟩
    · exact ⟨(hall r hmem hyx).1, fun h => Nat.lt_trans (hlt x hx) (hup h)⟩
    · exact hall y hy hyx
  · rcases mem_set hx with rfl | ⟨hx, -⟩
    · exact hs.own r hmem id hid
    · exact hs.own x hx id hid
  · rcases mem_set hx with rfl | ⟨hx, hne⟩
    · cases hid
      exact ⟨hcounter, hup, hlt⟩
    · exact absurd (.inr ⟨id, hid⟩) (hothers x hx hne)
  · rcases mem_set hx with rfl | ⟨hxs, hne⟩
    · rcases mem_set hy with rfl | ⟨hys, hne⟩
      · rfl
      · exact absurd hya (hothers y hys hne)
    · exact absurd hxa (hothers x hxs hne)
  · rcases hsent x hx with hx | hnone
    · exact hs.sent x hx id hid
    · rw [hnone] at hid
      cases hid

lemma Inv.created {id : ℕ} (hid : r.waiting = some (.create id)) :
    Inv { s.set c { r with waiting := none, resources := r.resources ++ [⟨id, 0, 0⟩] } with
      created := s.created ++ [(c, id)] } := by
  obtain ⟨hmem, hcaller⟩ := getReference_mem hr
  obtain ⟨hle, hlt, hnew⟩ := hs.pending r hmem id hid
  have hactive : r.Active := .inr ⟨id, hid⟩
  have hothers : ∀ x ∈ s.references, x.caller ≠ c → ¬ x.Active := fun x hx hne ha =>
    hne ((hs.single x hx r hmem ha hactive).trans hcaller)
  refine ⟨fun x hx => ?_, fun x hx => ?_, fun x hx i hi => ?_, fun x hx i hi => ?_, fun x hx y hy hxa hya => ?_, ?_,
    fun x hx i hi => List.mem_append_left _ (hs.sent x hx i hi)⟩
  · rcases mem_set hx with rfl | ⟨hx, -⟩
    · exact hs.counter r hmem
    · exact hs.counter x hx
  · rcases List.mem_append.mp hx with hx | hx
    · obtain ⟨hle, hex, hall⟩ := hs.ids x hx
      refine ⟨hle, exists_set (by exact hcaller) hex, fun y hy hyx => ?_⟩
      rcases mem_set hy with rfl | ⟨hy, -⟩
      · exact ⟨List.append_ne_nil_of_right_ne_nil _ (List.cons_ne_nil _ _), (hall r hmem hyx).2⟩
      · exact hall y hy hyx
    · obtain rfl := List.mem_singleton.mp hx
      refine ⟨hle, exists_set (by exact hcaller) ⟨r, hmem, hcaller⟩, fun y hy hyx => ?_⟩
      rcases mem_set hy with rfl | ⟨-, hne⟩
      · exact ⟨List.append_ne_nil_of_right_ne_nil _ (List.cons_ne_nil _ _), hlt⟩
      · exact absurd hyx hne
  · rcases mem_set hx with rfl | ⟨hx, -⟩
    · rw [List.map_append, List.mem_append] at hi
      rcases hi with hi | hi
      · exact List.mem_append_left _ (hs.own r hmem i hi)
      · obtain rfl := List.mem_singleton.mp hi
        exact List.mem_append_right _ (List.mem_singleton.mpr (by rw [hcaller]))
    · exact List.mem_append_left _ (hs.own x hx i hi)
  · rcases mem_set hx with rfl | ⟨hx, hne⟩
    · cases hi
    · exact absurd (.inr ⟨i, hi⟩) (hothers x hx hne)
  · rcases mem_set hx with rfl | ⟨hxs, hne⟩
    · rcases mem_set hy with rfl | ⟨hys, hne⟩
      · rfl
      · exact absurd hya (hothers y hys hne)
    · exact absurd hxa (hothers x hxs hne)
  · rw [List.map_append, List.map_singleton, List.nodup_append]
    refine ⟨hs.distinct, List.nodup_singleton _, fun i hi j hj => ?_⟩
    obtain ⟨x, hx, rfl⟩ := List.mem_map.mp hi
    obtain rfl := List.mem_singleton.mp hj
    exact Nat.ne_of_lt (hnew x hx)

end

lemma Inv.step (hs : Inv s) (hlone : Lone s op) (h : step s op = some s') : Inv s' := by
  cases step_cases h with
  | none => exact hs
  | opened c hc => exact hs.opened hc
  | quiet c r r' sent hr hk hsent => exact hs.quiet hr hk hsent
  | creating c r arg hop hr =>
    subst hop
    obtain ⟨hmem, hcaller⟩ := getReference_mem hr
    obtain ⟨hothers, hown⟩ := hlone c rfl
    obtain ⟨hctx, hcounter⟩ := hown r hmem hcaller
    refine hs.creating hr hothers hctx hcounter fun x hx => ?_
    rcases List.mem_append.mp hx with hx | hx
    · exact .inl hx
    · obtain rfl := List.mem_singleton.mp hx
      exact .inr rfl
  | created c r id hr hid => exact hs.created hr hid

lemma Inv.separate (hs : Inv s) : Separate s := by
  refine ⟨hs.distinct, fun h => ?_, fun x hx id hid => ⟨?_, fun y hy hyid => ?_⟩⟩
  · obtain ⟨x, hx, hx2⟩ := List.mem_map.mp h
    have := (hs.ids x hx).1
    omega
  · have : 15 ≤ id := (hs.ids _ (hs.sent x hx id hid)).1
    omega
  · have heq := List.inj_on_of_nodup_map hs.distinct hy (hs.sent x hx id hid) hyid
    rw [heq]

end

/-- **The ids of the resources.** In every run in which a caller creates resources only while no
other one has any, all ids are distinct, and no command is about another one's resource. -/
theorem ids_distinct (ops : List Step) (s : State) (hlone : Along step Lone init ops)
    (hrun : run step init ops = some s) : Separate s :=
  (run_invariant_along step (fun _ _ _ hs hC h => hs.step hC h) ops init s inv_init hlone hrun).separate

/-- One caller creates two resources and flushes the second one; another one asks for the modes. -/
theorem ids_distinct_two :
    let ops : List Step := [.open ⟨1, 1⟩, .ioctl ⟨1, 1⟩ (.createResource2d (some (1, ⟨8, 8⟩))), .open ⟨2, 1⟩,
      .ioctl ⟨2, 1⟩ (.getDisplayInfo (some ())), .answer ⟨1, 1⟩ okNodata,
      .ioctl ⟨1, 1⟩ (.createResource2d (some (1, ⟨8, 8⟩))), .answer ⟨1, 1⟩ okNodata, .answer ⟨2, 1⟩ okDisplayInfo,
      .ioctl ⟨1, 1⟩ (.setResourceId (some 1)), .ioctl ⟨1, 1⟩ (.transferAndFlush (some ⟨⟨8, 8⟩, 0, 0⟩)),
      .answer ⟨1, 1⟩ okNodata, .answer ⟨1, 1⟩ okNodata]
    ∃ s, run step init ops = some s ∧ s.created = [(⟨1, 1⟩, 15), (⟨1, 1⟩, 16)] ∧ Separate s := by
  intro ops
  obtain ⟨s, hrun, hcreated⟩ := @exists_run _ _ step (fun s => s.created = [(⟨1, 1⟩, 15), (⟨1, 1⟩, 16)]) _ init ops
    (by decide +kernel)
  exact ⟨s, hrun, hcreated, ids_distinct ops s (by decide +kernel) hrun⟩

/-- Two callers create a resource each: both have the id 15. -/
theorem ids_collide : ∃ s, run step init [.open ⟨1, 1⟩, .open ⟨2, 1⟩,
    .ioctl ⟨1, 1⟩ (.createResource2d (some (1, ⟨8, 8⟩))), .answer ⟨1, 1⟩ okNodata,
    .ioctl ⟨2, 1⟩ (.createResource2d (some (1, ⟨8, 8⟩))), .answer ⟨2, 1⟩ okNodata] = some s ∧
    s.created = [(⟨1, 1⟩, 15), (⟨2, 1⟩, 15)] ∧ ¬ (s.created.map Prod.snd).Nodup :=
  exists_run step (by decide +kernel)

end WivOS.Virtiogpu
