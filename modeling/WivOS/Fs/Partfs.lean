/-
# Partitions of a disk

`partfs_read`, `partfs_write` and `partfs_lseek` of `kernel/fs/partfs/partfs.c`. Every open node of a partition has its
own offset; its nodes share a lock and `offsetDirty`, and all partitions of a disk share one device with one offset. A
call sets that offset only if `offsetDirty` is set, and calls on two partitions interleave at the device (`start`,
`seek`, `finish`). `transfers_in_place` says when a call is in place; one node alone always is.
-/
import Mathlib.Algebra.Group.Nat.Defs
import WivOS.Lib.Machine

namespace WivOS.Partfs

open Function Option Machine

abbrev Bytes := List UInt8

/-! ### The calls -/

inductive Whence where
  | set
  | cur
  | fromEnd
  | other

inductive Transfer where
  | read
  | write (buffer : ℕ → UInt8)

/-- A call of `partfs_read` or `partfs_write` that holds the lock: the size it was called with,
the size it goes on with, and whether it has the device's offset still to set. -/
structure Call where
  node : ℕ
  transfer : Transfer
  asked : UInt64
  size : UInt64
  seek : Bool

structure Part where
  firstLba : UInt64
  lbaCount : UInt64
  offsetDirty : Bool
  call : Option Call

/-- The disk, the offset of its device node, the partitions and the open nodes, each with its
partition (`data`) and its offset. -/
structure Disk where
  bytes : UInt64 → UInt8
  deviceOffset : UInt64
  parts : ℕ → Part
  partOf : ℕ → ℕ
  offset : ℕ → UInt64

def slice (bytes : UInt64 → UInt8) (a count : UInt64) : Bytes :=
  (List.range count.toNat).map fun i => bytes (a + UInt64.ofNat i)

def store (bytes : UInt64 → UInt8) (a count : UInt64) (buffer : ℕ → UInt8) : UInt64 → UInt8 := fun x =>
  if x - a < count then buffer (x - a).toNat else bytes x

/-- The switch in `partfs_lseek`: the new offset of the node. -/
def Part.lseek (p : Part) (old offset : UInt64) : Whence → Option UInt64
  | .set => if offset ≥ (p.firstLba + p.lbaCount) * 0x200 then none else some offset
  | .fromEnd =>
    if (p.firstLba + p.lbaCount) * 0x200 + offset < 0 ∨ offset ≥ 0 then none
    else some ((p.firstLba + p.lbaCount) * 0x200 + offset)
  | .cur =>
    if old + offset ≥ (p.firstLba + p.lbaCount) * 0x200 ∨ old + offset < 0 then none else some (old + offset)
  | .other => none

def Part.clamp (p : Part) (offset size : UInt64) : UInt64 :=
  if offset + size ≥ p.lbaCount * 0x200 then p.lbaCount * 0x200 - offset else size

/-- What happens at the disk: a call of `partfs_lseek`; a call of `partfs_read` or `partfs_write`
that gets the lock; `vfs_lseek` on the device, for the call on a partition; and `vfs_read` or
`vfs_write` on the device, which transfers `answer` bytes or fails, to the end of the call. -/
inductive Event where
  | lseek (n : ℕ) (offset : UInt64) (type : Whence)
  | start (n : ℕ) (transfer : Transfer) (size : UInt64)
  | seek (p : ℕ)
  | finish (p : ℕ) (answer : Option UInt64)

structure Result where
  count : Option UInt64
  data : Bytes

namespace Disk

def setPart (s : Disk) (p : ℕ) (part : Part) : Disk := { s with parts := update s.parts p part }

def lseek (s : Disk) (n : ℕ) (offset : UInt64) (type : Whence) : Option Disk :=
  let part := s.parts (s.partOf n)
  if part.call.isSome then none
  else match part.lseek (s.offset n) offset type with
    | none => some s
    | some new => some { s.setPart (s.partOf n) { part with offsetDirty := true } with
        offset := update s.offset n new }

def start (s : Disk) (n : ℕ) (transfer : Transfer) (size : UInt64) : Option Disk :=
  let part := s.parts (s.partOf n)
  if part.call.isSome then none
  else some (s.setPart (s.partOf n)
    { part with call := some ⟨n, transfer, size, part.clamp (s.offset n) size, part.offsetDirty⟩ })

def seek (s : Disk) (p : ℕ) : Option Disk :=
  match (s.parts p).call with
  | none => none
  | some c =>
    if c.seek then
      some { s.setPart p { s.parts p with offsetDirty := false, call := some { c with seek := false } } with
        deviceOffset := (s.parts p).firstLba * 0x200 + s.offset c.node }
    else none

/-- `vfs_read` or `vfs_write` on the device, and the rest of the call. The device moves by what it
transfers, at most what it is asked for; -1 is no such count. -/
def finish (s : Disk) (p : ℕ) (answer : Option UInt64) : Option (Disk × Result) :=
  match (s.parts p).call with
  | none => none
  | some c =>
    if c.seek then none
    else match answer with
      | none => some (s.setPart p { s.parts p with call := none }, ⟨none, []⟩)
      | some count =>
        if c.size < count ∨ count = -1 then none
        else
          let s' := { s.setPart p { s.parts p with call := none } with
            deviceOffset := s.deviceOffset + count
            offset := update s.offset c.node (s.offset c.node + count) }
          match c.transfer with
          | .read => some (s', ⟨some count, slice s.bytes s.deviceOffset count⟩)
          | .write buffer => some ({ s' with bytes := store s.bytes s.deviceOffset count buffer }, ⟨some count, []⟩)

def step (s : Disk) : Event → Option Disk
  | .lseek n offset type => s.lseek n offset type
  | .start n transfer size => s.start n transfer size
  | .seek p => s.seek p
  | .finish p answer => (s.finish p answer).map Prod.fst

def place (s : Disk) (n : ℕ) : UInt64 := (s.parts (s.partOf n)).firstLba * 0x200 + s.offset n

def Idle (s : Disk) : Prop := ∀ p, (s.parts p).call = none

end Disk

/-! ### Transfers in place -/

structure Right (s : Disk) (c : Call) (s' : Disk) (res : Result) : Prop where
  read : c.transfer = .read → ∀ count, res.count = some count →
    res.data = slice s.bytes (s.place c.node) count ∧ s'.bytes = s.bytes
  write : ∀ buffer, c.transfer = .write buffer → ∀ count, res.count = some count →
    s'.bytes = store s.bytes (s.place c.node) count buffer
  advances : ∀ count, res.count = some count → s'.offset = update s.offset c.node (s.offset c.node + count)
  fails : res.count = none → s'.bytes = s.bytes ∧ s'.offset = s.offset

/-- No call on another partition is between its seek and its transfer. -/
def Undisturbed (s : Disk) (p : ℕ) : Prop := ∀ q c, q ≠ p → (s.parts q).call = some c → c.seek = true

/-- A call starts with the offset dirty or the device where its node is, and the device is
not moved under a call on another partition. -/
def Sequential (s : Disk) : Event → Prop
  | .lseek _ _ _ => True
  | .start n _ _ => (s.parts (s.partOf n)).offsetDirty = true ∨ s.deviceOffset = s.place n
  | .seek p => Undisturbed s p
  | .finish p _ => Undisturbed s p

/-- The calls under way are on the partitions of their nodes, with the size cut to the
partition, and the device is in place for those that have set it. -/
structure Placed (s : Disk) : Prop where
  part : ∀ p c, (s.parts p).call = some c → s.partOf c.node = p
  size : ∀ p c, (s.parts p).call = some c → c.size = (s.parts p).clamp (s.offset c.node) c.asked
  device : ∀ p c, (s.parts p).call = some c → c.seek = false → s.deviceOffset = s.place c.node

/-! ### What each event does -/

variable {p n : ℕ} {answer : Option UInt64} {res : Result}

section

variable {s s' : Disk} {transfer : Transfer} {offset : UInt64} {type : Whence} {size : UInt64}

@[simp] lemma Disk.setPart_same (s : Disk) (p : ℕ) (part : Part) : (s.setPart p part).parts p = part :=
  update_self ..

lemma Disk.setPart_of_ne (s : Disk) {q : ℕ} (part : Part) (h : q ≠ p) : (s.setPart p part).parts q = s.parts q :=
  update_of_ne h ..

lemma lseek_cases (h : s.lseek n offset type = some s') :
    (s.parts (s.partOf n)).call = none ∧ (s' = s ∨ ∃ new,
      (s.parts (s.partOf n)).lseek (s.offset n) offset type = some new ∧
      s' = { s.setPart (s.partOf n) { s.parts (s.partOf n) with offsetDirty := true } with
        offset := update s.offset n new }) := by
  unfold Disk.lseek at h
  dsimp only at h
  split at h
  · cases h
  · rename_i hcall
    refine ⟨by simpa using hcall, ?_⟩
    split at h
    · cases h
      exact Or.inl rfl
    · rename_i new hnew
      cases h
      exact Or.inr ⟨new, hnew, rfl⟩

lemma start_cases (h : s.start n transfer size = some s') :
    (s.parts (s.partOf n)).call = none ∧ s' = s.setPart (s.partOf n) { s.parts (s.partOf n) with
      call := some ⟨n, transfer, size, (s.parts (s.partOf n)).clamp (s.offset n) size,
        (s.parts (s.partOf n)).offsetDirty⟩ } := by
  unfold Disk.start at h
  dsimp only at h
  split at h
  · cases h
  · rename_i hcall
    cases h
    exact ⟨by simpa using hcall, rfl⟩

lemma seek_cases (h : s.seek p = some s') : ∃ c, (s.parts p).call = some c ∧ c.seek = true ∧
    s' = { s.setPart p { s.parts p with offsetDirty := false, call := some { c with seek := false } } with
      deviceOffset := (s.parts p).firstLba * 0x200 + s.offset c.node } := by
  unfold Disk.seek at h
  split at h
  · cases h
  · rename_i c hcall
    split at h
    · rename_i hseek
      cases h
      exact ⟨c, hcall, hseek, rfl⟩
    · cases h

lemma finish_cases (h : s.finish p answer = some (s', res)) :
    ∃ c, (s.parts p).call = some c ∧ c.seek = false ∧
      ((s' = s.setPart p { s.parts p with call := none } ∧ res.count = none) ∨
        ∃ count bytes, count ≤ c.size ∧ s' = { s.setPart p { s.parts p with call := none } with
            bytes := bytes
            deviceOffset := s.deviceOffset + count
            offset := update s.offset c.node (s.offset c.node + count) } ∧ res.count = some count ∧
          (c.transfer = .read → bytes = s.bytes ∧ res.data = slice s.bytes s.deviceOffset count) ∧
          ∀ buffer, c.transfer = .write buffer → bytes = store s.bytes s.deviceOffset count buffer) := by
  unfold Disk.finish at h
  split at h
  · cases h
  · rename_i c hcall
    split at h
    · cases h
    · rename_i hseek
      refine ⟨c, hcall, by simpa using hseek, ?_⟩
      split at h
      · cases h
        exact Or.inl ⟨rfl, rfl⟩
      · rename_i count
        split at h
        · cases h
        · rename_i hcount
          have hle : count ≤ c.size := UInt64.not_lt.mp fun hlt => hcount (Or.inl hlt)
          dsimp only at h
          split at h
          · rename_i hread
            cases h
            exact Or.inr ⟨count, s.bytes, hle, rfl, rfl, fun _ =>
              ⟨rfl, rfl⟩, fun buffer hw => by rw [hread] at hw; cases hw⟩
          · rename_i buffer hwrite
            cases h
            refine Or.inr ⟨count, _, hle, rfl, rfl, fun hread => ?_, fun buffer' hw => ?_⟩
            · rw [hwrite] at hread
              cases hread
            · rw [hwrite] at hw
              cases hw
              rfl

/-! ### The invariant -/

section

variable (h : Placed s)
include h

lemma Placed.of_part (p : ℕ) (hpart : s'.partOf = s.partOf) (hparts : ∀ q ≠ p, s'.parts q = s.parts q)
    (hoffset : ∀ n, s.partOf n ≠ p → s'.offset n = s.offset n)
    (hdevice : ∀ q c, q ≠ p → (s.parts q).call = some c → c.seek = false → s'.deviceOffset = s.deviceOffset)
    (hown : ∀ c, (s'.parts p).call = some c → s'.partOf c.node = p ∧
      c.size = (s'.parts p).clamp (s'.offset c.node) c.asked ∧ (c.seek = false → s'.deviceOffset = s'.place c.node)) :
    Placed s' := by
  have hall : ∀ q c, (s'.parts q).call = some c → s'.partOf c.node = q ∧
      c.size = (s'.parts q).clamp (s'.offset c.node) c.asked ∧
        (c.seek = false → s'.deviceOffset = s'.place c.node) := by
    intro q c hc
    by_cases hq : q = p
    · subst hq
      exact hown c hc
    · rw [hparts q hq] at hc ⊢
      have hnode := h.part q c hc
      have hsame : s'.offset c.node = s.offset c.node := hoffset c.node (by rw [hnode]; exact hq)
      refine ⟨by rw [hpart, hnode], by rw [hsame]; exact h.size q c hc, fun hseek => ?_⟩
      rw [hdevice q c hq hc hseek, h.device q c hc hseek, Disk.place, Disk.place, hpart, hnode, hparts q hq, hsame]
  exact ⟨fun q c hc => (hall q c hc).1, fun q c hc => (hall q c hc).2.1, fun q c hc => (hall q c hc).2.2⟩

lemma Placed.lseek (hstep : s.lseek n offset type = some s') :
    Placed s' := by
  obtain ⟨hfree, rfl | ⟨new, -, rfl⟩⟩ := lseek_cases hstep
  · exact h
  · refine h.of_part (s.partOf n) rfl (fun q hq => s.setPart_of_ne _ hq) (fun m hm => ?_) (fun _ _ _ _ _ => rfl)
      (fun c hc => ?_)
    · exact update_of_ne (fun he => hm (by rw [he])) ..
    · rw [Disk.setPart_same] at hc
      rw [hfree] at hc
      cases hc

lemma Placed.start
    (hok : (s.parts (s.partOf n)).offsetDirty = true ∨ s.deviceOffset = s.place n)
    (hstep : s.start n transfer size = some s') : Placed s' := by
  obtain ⟨-, rfl⟩ := start_cases hstep
  refine h.of_part (s.partOf n) rfl (fun q hq => s.setPart_of_ne _ hq) (fun _ _ => rfl) (fun _ _ _ _ _ => rfl)
    (fun c hc => ?_)
  rw [Disk.setPart_same] at hc
  cases hc
  refine ⟨rfl, by rw [Disk.setPart_same]; rfl, fun hseek => ?_⟩
  rcases hok with hdirty | hplace
  · rw [hdirty] at hseek
    cases hseek
  · show s.deviceOffset = ((s.setPart _ _).parts (s.partOf n)).firstLba * 0x200 + s.offset n
    rw [Disk.setPart_same]
    exact hplace

lemma Placed.seek (hok : Undisturbed s p) (hstep : s.seek p = some s') : Placed s' := by
  obtain ⟨c, hcall, -, rfl⟩ := seek_cases hstep
  have hnode := h.part p c hcall
  refine h.of_part p rfl (fun q hq => s.setPart_of_ne _ hq) (fun _ _ => rfl) (fun q c' hq hc' hseek => ?_)
    (fun c' hc' => ?_)
  · rw [hok q c' hq hc'] at hseek
    cases hseek
  · rw [Disk.setPart_same] at hc'
    cases hc'
    refine ⟨hnode, ?_, fun _ => ?_⟩
    · rw [Disk.setPart_same]
      exact h.size p c hcall
    · show _ = ((s.setPart p _).parts (s.partOf c.node)).firstLba * 0x200 + s.offset c.node
      rw [hnode, Disk.setPart_same]

lemma Placed.finish (hok : Undisturbed s p) (hstep : s.finish p answer = some (s', res)) :
    Placed s' := by
  obtain ⟨c, hcall, -, ⟨rfl, -⟩ | ⟨count, bytes, -, rfl, -⟩⟩ := finish_cases hstep
  · refine h.of_part p rfl (fun q hq => s.setPart_of_ne _ hq) (fun _ _ => rfl) (fun _ _ _ _ _ => rfl) (fun c' hc' => ?_)
    rw [Disk.setPart_same] at hc'
    cases hc'
  · refine h.of_part p rfl (fun q hq => s.setPart_of_ne _ hq) (fun m hm => ?_) (fun q c' hq hc' hseek => ?_)
      (fun c' hc' => ?_)
    · exact update_of_ne (fun he => hm (by rw [he, h.part p c hcall])) ..
    · rw [hok q c' hq hc'] at hseek
      cases hseek
    · rw [Disk.setPart_same] at hc'
      cases hc'

lemma Placed.step {e : Event} (hok : Sequential s e) (hstep : s.step e = some s') : Placed s' := by
  cases e with
  | lseek n offset type => exact h.lseek hstep
  | start n transfer size => exact h.start hok hstep
  | seek p => exact h.seek hok hstep
  | finish p answer =>
    obtain ⟨⟨s1, res⟩, hfinish, rfl⟩ := map_eq_some_iff.mp hstep
    exact h.finish hok hfinish

end

lemma Placed.idle (h : s.Idle) : Placed s := by
  have hno : ∀ p c, (s.parts p).call ≠ some c := by
    intro p c hc
    rw [h p] at hc
    cases hc
  exact ⟨fun p c hc => absurd hc (hno p c), fun p c hc => absurd hc (hno p c), fun p c hc => absurd hc (hno p c)⟩

lemma Placed.right (h : Placed s) {c : Call} (hcall : (s.parts p).call = some c)
    (hstep : s.finish p answer = some (s', res)) : Right s c s' res := by
  obtain ⟨c', hcall', hseek, hcases⟩ := finish_cases hstep
  rw [hcall] at hcall'
  cases hcall'
  have hdevice := h.device p c hcall hseek
  rcases hcases with ⟨rfl, hnone⟩ | ⟨count, bytes, -, rfl, hcount, hread, hwrite⟩
  · refine ⟨fun _ count hc => ?_, fun _ _ count hc => ?_, fun count hc => ?_, fun _ => ⟨rfl, rfl⟩⟩
    all_goals
      rw [hnone] at hc
      cases hc
  · refine ⟨fun hr k hk => ?_, fun buffer hw k hk => ?_, fun k hk => ?_, fun hnone => ?_⟩
    · rw [hcount] at hk
      cases hk
      rw [← hdevice]
      exact ⟨(hread hr).2, (hread hr).1⟩
    · rw [hcount] at hk
      cases hk
      rw [← hdevice]
      exact hwrite buffer hw
    · rw [hcount] at hk
      cases hk
      rfl
    · rw [hcount] at hnone
      cases hnone

lemma placed_run {s0 : Disk} (hidle : s0.Idle) (events : List Event) (s : Disk)
    (hok : Along Disk.step Sequential s0 events) (hrun : run Disk.step s0 events = some s) : Placed s :=
  run_invariant_along Disk.step (fun _ _ _ h hC hs => h.step hC hs) events s0 s (Placed.idle hidle) hok hrun

/-- **Reads and writes in place.** If each call starts with `offsetDirty` set or the device where its node is, and the
device is not moved under a call on another partition, then every call reads or writes where its node is and moves it
by the count that it returns. -/
theorem transfers_in_place {s₀ : Disk} (hidle : s₀.Idle) (events : List Event) (s : Disk)
    (hok : Along Disk.step Sequential s₀ events) (hrun : run Disk.step s₀ events = some s) {p : ℕ} {c : Call}
    (hcall : (s.parts p).call = some c) {answer : Option UInt64} {s' : Disk} {res : Result}
    (hfinish : s.finish p answer = some (s', res)) : Right s c s' res :=
  (placed_run hidle events s hok hrun).right hcall hfinish

end

/-! ### One node, and two -/

/-- The event is one of node `n` of partition `p`. -/
def Event.Of (n p : ℕ) : Event → Prop
  | .lseek m _ _ => m = n
  | .start m _ _ => m = n
  | .seek q => q = p
  | .finish q _ => q = p

/-- Only node `n` of partition `p` is used, and the offset is dirty or the device where it is. -/
structure Synced (n p : ℕ) (s : Disk) : Prop where
  part : s.partOf n = p
  alone : ∀ q c, (s.parts q).call = some c → q = p ∧ c.node = n
  device : (s.parts p).offsetDirty = true ∨ s.deviceOffset = s.place n

lemma Synced.of_part {s s' : Disk} {part : Part} (h : Synced n p s)
    (hparts : s'.parts = update s.parts p part) (hpart : s'.partOf = s.partOf)
    (hfirst : part.firstLba = (s.parts p).firstLba) (hcall : ∀ c, part.call = some c → c.node = n)
    (hdevice : part.offsetDirty = true ∨ s'.deviceOffset = (s.parts p).firstLba * 0x200 + s'.offset n) :
    Synced n p s' := by
  refine ⟨by rw [hpart, h.part], fun q c hc => ?_, ?_⟩
  · rw [hparts] at hc
    by_cases hq : q = p
    · subst hq
      rw [update_self] at hc
      exact ⟨rfl, hcall c hc⟩
    · rw [update_of_ne hq] at hc
      exact h.alone q c hc
  · rw [Disk.place, hpart, h.part, hparts, update_self, hfirst]
    exact hdevice

lemma Synced.step {s s' : Disk} {e : Event} (h : Synced n p s) (he : e.Of n p) (hstep : s.step e = some s') :
    Synced n p s' := by
  obtain rfl := h.part
  cases e with
  | lseek m offset type =>
    cases he
    obtain ⟨-, rfl | ⟨new, -, rfl⟩⟩ := lseek_cases hstep
    · exact h
    · exact h.of_part rfl rfl rfl (fun c hc => (h.alone _ c hc).2) (Or.inl rfl)
  | start m transfer size =>
    cases he
    obtain ⟨-, rfl⟩ := start_cases hstep
    exact h.of_part rfl rfl rfl (fun c hc => by cases hc; rfl) h.device
  | seek q =>
    cases he
    obtain ⟨c, hcall, -, rfl⟩ := seek_cases hstep
    have hnode := (h.alone _ c hcall).2
    refine h.of_part rfl rfl rfl (fun c' hc' => by cases hc'; exact hnode) (Or.inr ?_)
    rw [hnode]
    rfl
  | finish q answer =>
    cases he
    obtain ⟨⟨s1, res⟩, hfinish, rfl⟩ := map_eq_some_iff.mp hstep
    obtain ⟨c, hcall, -, ⟨rfl, -⟩ | ⟨count, bytes, -, rfl, -⟩⟩ := finish_cases hfinish
    · exact h.of_part rfl rfl rfl nofun h.device
    · -- the device and the node move by the same count
      have hnode := (h.alone _ c hcall).2
      refine h.of_part rfl rfl rfl nofun (h.device.imp_right fun hd => ?_)
      show s.deviceOffset + count = _ + update s.offset c.node (s.offset c.node + count) n
      rw [hnode, update_self, hd, Disk.place, UInt64.add_assoc]

/-- **One node alone.** Its calls always meet the condition. -/
lemma single_node_sequential {s0 : Disk} (hidle : s0.Idle) (hdirty : (s0.parts (s0.partOf n)).offsetDirty = true)
    (events : List Event) (hone : ∀ e ∈ events, e.Of n (s0.partOf n)) :
    Along Disk.step Sequential s0 events := by
  have hstart : Synced n (s0.partOf n) s0 := by
    refine ⟨rfl, fun q c hc => ?_, Or.inl hdirty⟩
    rw [hidle q] at hc
    cases hc
  refine along_of_invariant Disk.step (fun s e s' (h : Synced n (s0.partOf n) s) he hs => h.step he hs)
    (fun s e h he => ?_) events s0 hstart hone
  have hundisturbed : Undisturbed s (s0.partOf n) := fun q c hq hc => absurd (h.alone q c hc).1 hq
  cases e with
  | lseek m offset type => trivial
  | start m transfer size =>
    cases he
    show (s.parts (s.partOf n)).offsetDirty = true ∨ _
    rw [h.part]
    exact h.device
  | seek q =>
    cases he
    exact hundisturbed
  | finish q answer =>
    cases he
    exact hundisturbed

def twoNodes : Disk where
  bytes := fun x => x.toUInt8
  deviceOffset := 0
  parts := fun _ => ⟨1, 8, true, none⟩
  partOf := fun _ => 0
  offset := fun _ => 0

/-- The second node writes two bytes, and the first one goes to the second of them and reads. -/
def writeAndRead : List Event := [.lseek 1 12 .set, .start 1 (.write fun _ => 7) 2, .seek 0, .finish 0 (some 2),
  .lseek 0 13 .set, .start 0 .read 1, .seek 0]

lemma writeAndRead_sequential : Along Disk.step Sequential twoNodes writeAndRead := by
  have hother : ∀ {s : Disk}, (∀ q, q ≠ 0 → (s.parts q).call = none) → Undisturbed s 0 := by
    intro s hs q c hq hc
    rw [hs q hq] at hc
    cases hc
  refine ⟨trivial, ?_⟩
  rintro _ ⟨⟩
  refine ⟨.inl rfl, ?_⟩
  rintro _ ⟨⟩
  refine ⟨hother fun q hq => by simp [Disk.setPart, twoNodes, hq], ?_⟩
  rintro _ ⟨⟩
  refine ⟨hother fun q hq => by simp [Disk.setPart, twoNodes, hq], ?_⟩
  rintro _ ⟨⟩
  refine ⟨trivial, ?_⟩
  rintro _ ⟨⟩
  refine ⟨.inl rfl, ?_⟩
  rintro _ ⟨⟩
  refine ⟨hother fun q hq => by simp [Disk.setPart, twoNodes, hq], ?_⟩
  rintro _ ⟨⟩
  trivial

theorem transfers_in_place_first : ∃ s c s' res, run Disk.step twoNodes writeAndRead = some s ∧
    (s.parts 0).call = some c ∧ s.finish 0 (some 1) = some (s', res) ∧ res.data = [7] ∧ Right s c s' res := by
  obtain ⟨s, hrun, hcall, hfinish⟩ : ∃ s, run Disk.step twoNodes writeAndRead = some s ∧
      (s.parts 0).call.isSome = true ∧ (s.finish 0 (some 1)).map (fun r => r.2.data) = some [7] :=
    exists_run Disk.step (by decide +kernel)
  obtain ⟨c, hcall⟩ := isSome_iff_exists.mp hcall
  obtain ⟨⟨s', res⟩, hfinish, hdata⟩ := map_eq_some_iff.mp hfinish
  exact ⟨s, c, s', res, hrun, hcall, hfinish, hdata,
    transfers_in_place (fun _ => rfl) _ s writeAndRead_sequential hrun hcall hfinish⟩

/-- **A second node is misplaced.** After a read through the first node, a read through the
second goes on where the first has stopped: the partition is not dirty any more. -/
theorem second_node_misplaced : twoNodes.Idle ∧ ∃ s c s' res, run Disk.step twoNodes
      [.start 0 .read 1, .seek 0, .finish 0 (some 1), .start 1 .read 1] = some s ∧
    (s.parts 0).call = some c ∧ c.node = 1 ∧ s.finish 0 (some 1) = some (s', res) ∧
    res.count = some 1 ∧ res.data = [1] ∧ slice s.bytes (s.place 1) 1 = [0] := by
  obtain ⟨s, hrun, hcall, hfinish, hslice⟩ : ∃ s, run Disk.step twoNodes
      [.start 0 .read 1, .seek 0, .finish 0 (some 1), .start 1 .read 1] = some s ∧
      (s.parts 0).call.map Call.node = some 1 ∧
      (s.finish 0 (some 1)).map (fun x => (x.2.count, x.2.data)) = some (some 1, [1]) ∧
      slice s.bytes (s.place 1) 1 = [0] := exists_run Disk.step (by decide +kernel)
  obtain ⟨c, hcall, hnode⟩ := map_eq_some_iff.mp hcall
  obtain ⟨⟨s', res⟩, hfinish, hres⟩ := map_eq_some_iff.mp hfinish
  obtain ⟨hcount, hdata⟩ := Prod.mk.inj hres
  exact ⟨fun _ => rfl, s, c, s', res, hrun, hcall, hnode, hfinish, hcount, hdata, hslice⟩

end WivOS.Partfs
