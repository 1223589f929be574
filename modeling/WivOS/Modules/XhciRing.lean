/-
# The command ring of the xHCI driver

`xhci_init_segment`, `xhci_get_trb`, `xhci_fill_trb` and `xhci_send_command` of `modules/xhci/main.c`, and the
controller that consumes the ring, as its specification has it. The driver writes a TRB with the cycle bit that the
slot did not have. The Link TRB has no Toggle Cycle bit: at the end of the first lap the controller goes on with the
same state and finds the commands of that lap again.
-/
import WivOS.Lib.Loop
import WivOS.Mem.Pmm

namespace WivOS.Xhci

open Function List

abbrev Dword := BitVec 32

def trbLink : Dword := 6

def trbCommandType (value : Dword) : Dword := (value &&& 0x3F) <<< 10

def trbType (value : Dword) : Dword := (value &&& (0x3F <<< 10)) >>> 10

structure Trb where
  field0 : Dword
  field1 : Dword
  field2 : Dword
  field3 : Dword
deriving DecidableEq

structure Segment where
  trbs : ℕ
  size : ℕ
  enqueue : ℕ
  cycleState : Dword
  slots : ℕ → Trb
  events : ℕ → ℕ

def link (trbs : ℕ) : Trb :=
  let address := BitVec.ofNat 64 (trbs - memPhysOffset)
  ⟨address.setWidth 32, (address >>> 32).setWidth 32, 0, 0x1 ||| trbCommandType trbLink⟩

/-- `xhci_init_segment`, for a ring that is not one of events, at the address `trbs`. -/
def initSegment (trbs size : ℕ) : Segment where
  trbs
  size := size / 16
  enqueue := trbs
  cycleState := 1
  slots := update (fun _ => ⟨0, 0, 0, 0⟩) (size / 16 - 1) (link trbs)
  events := fun _ => 0

def getTrb (segment : Segment) : ℕ × Segment :=
  let enqueue := segment.enqueue
  let index := ((enqueue - segment.trbs) / 0x10 + 1) % 2 ^ 32
  if index = segment.size - 1 then
    (enqueue, { segment with
      enqueue := segment.trbs
      cycleState := segment.cycleState ^^^ segment.cycleState
      slots := update segment.slots (segment.size - 1) (link segment.trbs) })
  else (enqueue, { segment with enqueue := enqueue + 16 })

def fillTrb (command trb : Trb) (first : Bool) : Trb :=
  if first then trb
  else { trb with field3 := (if command.field3 &&& 0x1 ≠ 0 then 0 else 1) ||| (trb.field3 &&& ~~~0x1) }

/-- What `xhci_send_command` is called with. No caller sends a Link TRB. -/
structure Command where
  trb : Trb
  notLink : trbType trb.field3 ≠ trbLink
  event : ℕ

def sendCommand (segment : Segment) (command : Command) : Segment :=
  let index := (segment.enqueue - segment.trbs) / 0x10 % 2 ^ 32
  let (address, segment) := getTrb segment
  let slot := (address - segment.trbs) / 0x10
  { segment with
    slots := update segment.slots slot (fillTrb (segment.slots slot) command.trb false)
    events := update segment.events index command.event }

/-! ### The controller -/

def Trb.cycle (trb : Trb) : Bool := trb.field3 &&& 0x1 ≠ 0

structure Controller where
  position : ℕ
  cycle : Bool

def round (segment : Segment) (s : Controller × List Trb) :
    Loop.Round (Controller × List Trb) (Controller × List Trb) :=
  let trb := segment.slots s.1.position
  if trb.cycle ≠ s.1.cycle then .done s
  else if trbType trb.field3 = trbLink then .next (⟨0, s.1.cycle ^^ decide (trb.field3 &&& 0x2 ≠ 0)⟩, s.2)
  else .next (⟨s.1.position + 1, s.1.cycle⟩, s.2 ++ [trb])

/-- The commands are sent one after another, each after the controller has stopped; it executes
`executed`. -/
def Serves (segment : Segment) (controller : Controller) : List Command → List Trb → Prop
  | [], executed => executed = []
  | command :: commands, executed => ∃ controller' now later,
      Loop.Ends (round (sendCommand segment command)) (controller, []) (controller', now) ∧ executed = now ++ later ∧
        Serves (sendCommand segment command) controller' commands later

def Trb.strip (trb : Trb) : Trb := { trb with field3 := trb.field3 &&& ~~~0x1 }

/-- `n` commands on a new ring of `size` bytes are executed, each once and in order. -/
def InOrder (trbs size n : ℕ) : Prop :=
  ∀ commands : List Command, commands.length = n → ∃ executed,
    Serves (initSegment trbs size) ⟨0, true⟩ commands executed ∧
      executed.map Trb.strip = commands.map fun command => command.trb.strip

/-! ### The bits of a TRB -/

lemma filled_bits {b x : Dword} (hb : b = 0 ∨ b = 1) : (b ||| (x &&& ~~~0x1)) &&& 0x1 = b ∧
    (b ||| (x &&& ~~~0x1)) &&& ~~~0x1 = x &&& ~~~0x1 ∧ trbType (b ||| (x &&& ~~~0x1)) = trbType x := by
  have hbit : (~~~0x1 : Dword) &&& 0x1 = 0 := by decide
  have hrest : (~~~0x1 : Dword) &&& ~~~0x1 = ~~~0x1 := by decide
  have htype : (~~~0x1 : Dword) &&& (0x3F <<< 10) = 0x3F <<< 10 := by decide
  refine ⟨?_, ?_, ?_⟩
  · rw [BitVec.and_or_distrib_right, BitVec.and_assoc, hbit]
    rcases hb with rfl | rfl <;> simp
  · rw [BitVec.and_or_distrib_right, BitVec.and_assoc, hrest]
    rcases hb with rfl | rfl <;> simp
  · rw [trbType, BitVec.and_or_distrib_right, BitVec.and_assoc, htype, trbType]
    rcases hb with rfl | rfl <;> simp

lemma fillTrb_spec (old trb : Trb) : (fillTrb old trb false).cycle = !old.cycle ∧
    (fillTrb old trb false).strip = trb.strip ∧ trbType (fillTrb old trb false).field3 = trbType trb.field3 := by
  by_cases h : old.field3 &&& 0x1 ≠ 0
  · obtain ⟨hbit, hrest, htype⟩ := @filled_bits 0 trb.field3 (.inl rfl)
    have hfill : fillTrb old trb false = { trb with field3 := 0 ||| (trb.field3 &&& ~~~0x1) } := by
      simp only [fillTrb, if_pos h, Bool.false_eq_true, if_false]
    rw [hfill]
    refine ⟨?_, ?_, htype⟩
    · simp only [Trb.cycle, hbit, decide_eq_true h]
      rfl
    · simp only [Trb.strip, hrest]
  · obtain ⟨hbit, hrest, htype⟩ := @filled_bits 1 trb.field3 (.inr rfl)
    have hfill : fillTrb old trb false = { trb with field3 := 1 ||| (trb.field3 &&& ~~~0x1) } := by
      simp only [fillTrb, if_neg h, Bool.false_eq_true, if_false]
    rw [hfill]
    refine ⟨?_, ?_, htype⟩
    · simp only [Trb.cycle, hbit, decide_eq_false h]
      rfl
    · simp only [Trb.strip, hrest]

lemma link_bits (trbs : ℕ) : (link trbs).cycle = true ∧ trbType (link trbs).field3 = trbLink ∧
    decide ((link trbs).field3 &&& 0x2 ≠ 0) = false := by
  refine ⟨?_, ?_, ?_⟩
  · show decide ((0x1 ||| trbCommandType trbLink) &&& 0x1 ≠ 0) = true
    decide
  · show trbType (0x1 ||| trbCommandType trbLink) = trbLink
    decide
  · show decide ((0x1 ||| trbCommandType trbLink) &&& 0x2 ≠ 0) = false
    decide

/-! ### The first lap -/

/-- `k` commands were sent in the first lap. -/
structure Lap (segment : Segment) (k : ℕ) : Prop where
  fits : segment.size < 2 ^ 32
  room : k + 1 < segment.size
  enqueue : segment.enqueue = segment.trbs + 16 * k
  sent : ∀ i < k, (segment.slots i).cycle = true ∧ trbType (segment.slots i).field3 ≠ trbLink
  free : ∀ i, k ≤ i → i + 1 < segment.size → (segment.slots i).cycle = false
  link : segment.slots (segment.size - 1) = link segment.trbs

lemma lap_init (trbs : ℕ) : Lap (initSegment trbs 4096) 0 where
  fits := (by decide : 4096 / 16 < 2 ^ 32)
  room := (by decide : 0 + 1 < 4096 / 16)
  enqueue := rfl
  sent := nofun
  free := by
    intro i _ hi
    have hne : i ≠ 4096 / 16 - 1 := by
      have : (initSegment trbs 4096).size = 256 := rfl
      omega
    simp only [initSegment, update_of_ne hne]
    rfl
  link := by simp only [initSegment, update_self]

section

variable {segment : Segment} {k : ℕ}

section

variable (h : Lap segment k)
include h

lemma Lap.slot : (segment.enqueue - segment.trbs) / 0x10 = k := by
  rw [h.enqueue, Nat.add_sub_cancel_left, Nat.mul_div_cancel_left _ (by decide)]

lemma Lap.sendCommand_slots (command : Command) :
    (sendCommand segment command).slots = update segment.slots k (fillTrb (segment.slots k) command.trb false) ∧
      (sendCommand segment command).trbs = segment.trbs ∧ (sendCommand segment command).size = segment.size := by
  have hslot := h.slot
  by_cases hlast : ((segment.enqueue - segment.trbs) / 0x10 + 1) % 2 ^ 32 = segment.size - 1
  · -- the Link TRB is written as it was
    have hlink : update segment.slots (segment.size - 1) (Xhci.link segment.trbs) = segment.slots := by
      rw [← h.link, update_eq_self]
    rw [hslot] at hlast
    simp only [sendCommand, getTrb, hslot, if_pos hlast, hlink, and_self]
  · rw [hslot] at hlast
    simp only [sendCommand, getTrb, hslot, if_neg hlast, and_self]

lemma Lap.filled (command : Command) : ((sendCommand segment command).slots k).cycle = true ∧
      ((sendCommand segment command).slots k).strip = command.trb.strip ∧
      trbType ((sendCommand segment command).slots k).field3 ≠ trbLink := by
  obtain ⟨hcycle, hstrip, htype⟩ := fillTrb_spec (segment.slots k) command.trb
  rw [(h.sendCommand_slots command).1, update_self, hcycle, h.free k (Nat.le_refl k) h.room, hstrip, htype]
  exact ⟨rfl, rfl, command.notLink⟩

lemma Lap.send (hk : k + 2 < segment.size) (command : Command) :
    Lap (sendCommand segment command) (k + 1) := by
  obtain ⟨hslots, htrbs, hsize⟩ := h.sendCommand_slots command
  obtain ⟨hcycle, -, htype⟩ := h.filled command
  have hfits := h.fits
  refine ⟨hsize ▸ h.fits, hsize ▸ hk, ?_, fun i hi => ?_, fun i hi hi' => ?_, ?_⟩
  · have hindex : (k + 1) % 2 ^ 32 ≠ segment.size - 1 := by omega
    simp only [sendCommand, getTrb, h.slot, if_neg hindex]
    rw [h.enqueue]
    omega
  · rcases Nat.lt_succ_iff_lt_or_eq.mp hi with hi | rfl
    · rw [hslots, update_of_ne (Nat.ne_of_lt hi)]
      exact h.sent i hi
    · exact ⟨hcycle, htype⟩
  · rw [hsize] at hi'
    rw [hslots, update_of_ne (by omega)]
    exact h.free i (by omega) hi'
  · rw [hslots, hsize, htrbs, update_of_ne (by omega)]
    exact h.link

lemma Lap.ends_iff (hk : k + 2 < segment.size) (command : Command) (r : Controller × List Trb) :
    Loop.Ends (round (sendCommand segment command)) (⟨k, true⟩, []) r ↔
      r = (⟨k + 1, true⟩, [(sendCommand segment command).slots k]) := by
  obtain ⟨hcycle, -, htype⟩ := h.filled command
  have hsize := (h.sendCommand_slots command).2.2
  have hfree := (h.send hk command).free (k + 1) (Nat.le_refl _) (by omega)
  have hexecute : round (sendCommand segment command) (⟨k, true⟩, []) =
      .next (⟨k + 1, true⟩, [(sendCommand segment command).slots k]) := by
    simp only [round, hcycle, ne_eq, not_true_eq_false, if_false, htype, nil_append]
  have hstop : round (sendCommand segment command) (⟨k + 1, true⟩, [(sendCommand segment command).slots k]) =
      .done (⟨k + 1, true⟩, [(sendCommand segment command).slots k]) := by
    simp only [round, hfree, ne_eq, Bool.false_eq_true, not_false_eq_true, if_true]
  rw [Loop.ends_next hexecute, Loop.ends_done hstop]

/-- **The last command** of the lap: the controller does not stop. -/
lemma Lap.wrap (hk : k + 2 = segment.size) (command : Command) (r : Controller × List Trb) :
    ¬ Loop.Ends (round (sendCommand segment command)) (⟨k, true⟩, []) r := by
  obtain ⟨hslots, htrbs, hsize⟩ := h.sendCommand_slots command
  obtain ⟨hcycle, -, htype⟩ := h.filled command
  have hcommand : ∀ i, i + 1 < segment.size → ((sendCommand segment command).slots i).cycle = true ∧
      trbType ((sendCommand segment command).slots i).field3 ≠ trbLink := by
    intro i hi
    by_cases hik : i = k
    · exact hik ▸ ⟨hcycle, htype⟩
    · rw [hslots, update_of_ne hik]
      exact h.sent i (by omega)
  have hlink : (sendCommand segment command).slots (segment.size - 1) = Xhci.link segment.trbs := by
    rw [hslots, update_of_ne (by omega), h.link]
  obtain ⟨hlcycle, hltype, hltoggle⟩ := link_bits segment.trbs
  -- wherever it is in the ring, its cycle state is the cycle bit
  refine Loop.not_ends (I := fun s => s.1.position < segment.size ∧ s.1.cycle = true) ?_ ⟨by dsimp only; omega, rfl⟩
  rintro ⟨⟨position, cycle⟩, executed⟩ ⟨hposition, hc⟩
  dsimp only at hposition hc
  subst hc
  rcases Nat.lt_or_ge (position + 1) segment.size with hlt | hge
  · obtain ⟨hcycle', htype'⟩ := hcommand position hlt
    refine ⟨(⟨position + 1, true⟩, executed ++ [(sendCommand segment command).slots position]), ?_, hlt, rfl⟩
    simp only [round, hcycle', ne_eq, not_true_eq_false, if_false, htype']
  · obtain rfl : position = segment.size - 1 := by omega
    refine ⟨(⟨0, true⟩, executed), ?_, by dsimp only; omega, rfl⟩
    simp only [round, hlink, hlcycle, ne_eq, not_true_eq_false, if_false, hltype, if_true]
    rw [hltoggle]
    rfl

end

end

/-! ### Any number of commands -/

lemma Lap.serves : ∀ {commands : List Command} {segment : Segment} {k : ℕ}, Lap segment k →
    k + commands.length + 1 < segment.size → ∃ executed, Serves segment ⟨k, true⟩ commands executed ∧
      executed.map Trb.strip = commands.map fun command => command.trb.strip
  | [], _, _, _, _ => ⟨[], rfl, rfl⟩
  | command :: commands, segment, k, h, hroom => by
    rw [length_cons] at hroom
    have hk : k + 2 < segment.size := by omega
    have hsize := (h.sendCommand_slots command).2.2
    obtain ⟨later, hserves, hstrip⟩ := (h.send hk command).serves (by omega : k + 1 + commands.length + 1 < _)
    refine ⟨_, ⟨_, _, later, (h.ends_iff hk command _).mpr rfl, rfl, hserves⟩, ?_⟩
    rw [map_append, hstrip, map_singleton, (h.filled command).2.1, map_cons]
    rfl

lemma Lap.not_serves : ∀ {commands : List Command} {segment : Segment} {k : ℕ} {executed : List Trb}, Lap segment k →
    segment.size ≤ k + commands.length + 1 → ¬ Serves segment ⟨k, true⟩ commands executed
  | [], _, k, _, h, hroom => by
    have := h.room
    rw [length_nil] at hroom
    omega
  | command :: commands, segment, k, _, h, hroom => by
    rintro ⟨controller, now, later, hends, -, hserves⟩
    rw [length_cons] at hroom
    have hsize := (h.sendCommand_slots command).2.2
    rcases Nat.lt_or_ge (k + 2) segment.size with hk | hk
    · obtain ⟨rfl, -⟩ := Prod.mk.inj ((h.ends_iff hk command _).mp hends)
      exact (h.send hk command).not_serves (by omega) hserves
    · have := h.room
      exact h.wrap (by omega) command _ hends

/-- `Enable Slot`, as `xhci_enable_slot` sends it. -/
def enableSlot : Command := ⟨⟨0, 0, 0, trbCommandType 9⟩, by decide, 0⟩

/-- **The command ring.** Commands are executed, each once and in order, exactly as long as they
do not fill the first lap. -/
theorem inOrder_iff (trbs n : ℕ) : InOrder trbs 4096 n ↔ n < 255 := by
  have hsize : (initSegment trbs 4096).size = 256 := rfl
  constructor
  · intro h
    by_contra hn
    obtain ⟨executed, hserves, -⟩ := h (List.replicate n enableSlot) length_replicate
    exact (lap_init trbs).not_serves (by rw [hsize, length_replicate]; omega) hserves
  · rintro hn commands rfl
    exact (lap_init trbs).serves (by omega)

/-- After the command in the last slot of the ring, the controller does not stop. -/
theorem ring_executes_again : ¬ ∃ executed,
    Serves (initSegment 0xFFFF800000100000 4096) ⟨0, true⟩ (List.replicate 255 enableSlot) executed := by
  rintro ⟨executed, hserves⟩
  refine (lap_init _).not_serves ?_ hserves
  rw [length_replicate]
  exact (by decide : 4096 / 16 ≤ 0 + 255 + 1)

end WivOS.Xhci
