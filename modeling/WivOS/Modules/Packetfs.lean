/-
# The packet manager

Reads and writes of a server and its clients through `modules/packetfs/packetfs.c`. A packet is its source, its size
and its data, written at once. A read takes the header, then the data, and other calls go on in between; so does a
broadcast, from client to client, under the lock of the instance. The pipes are byte queues with atomic writes, and
reads of an exact size. `written`, `calls`, `log` and `ended` are what a reader of the run knows and the code does not:
`written` and `calls` are the writes of the run (`Recorded`), and `log` and `ended` say which client a call was sent to,
and when it had returned.
-/
import Mathlib.Data.List.Nodup
import WivOS.Lib.ByteMem
import WivOS.Lib.Framed
import WivOS.Lib.Machine

namespace WivOS.Packetfs

open Function List Option

open ByteMem (toBytes ofBytes length_toBytes ofBytes_toBytes)
open Framed (Aligned)

abbrev Byte := BitVec 8

/-- The address of a `pmgr_client_t`; `0` is `NULL`. -/
abbrev Pointer := BitVec 64

def maxPacketSize : ℕ := 1024

structure Packet where
  source : Pointer
  data : List Byte
  small : data.length ≤ maxPacketSize

def Packet.header (p : Packet) : List Byte := toBytes 8 p.source.toNat ++ toBytes 8 p.data.length

def packetSize (header : List Byte) : ℕ := ofBytes (header.drop 8)

def format : Framed.Format Packet Byte where
  header := Packet.header
  body := Packet.data
  width := 16
  size := packetSize
  width_pos := by decide
  length_header := fun p => by rw [Packet.header, length_append, length_toBytes, length_toBytes]
  size_header := fun p => by
    rw [packetSize, Packet.header, drop_left' (length_toBytes 8 _)]
    exact ofBytes_toBytes (Nat.lt_of_le_of_lt p.small (by decide))

/-! ### One end of a pipe -/

/-- A pipe with its reader: the size of the buffer and the header, if it has read one. `reads` are the
calls that have returned, with the size of the buffer and what was put into it; `none` is `-1`. -/
structure End where
  bytes : List Byte
  reader : Option (ℕ × List Byte)
  reads : List (ℕ × Option (List Byte))

def readPipe (bytes : List Byte) (n : ℕ) : Option (List Byte × List Byte) :=
  if n ≤ bytes.length then some (bytes.take n, bytes.drop n) else none

/-- The end of `packetfs_server_read` and of `packetfs_client_read`, with the packet received. -/
def serverResult (size : ℕ) (header data : List Byte) : Option (List Byte) :=
  if packetSize header + 16 > size then none else some (header ++ data)

def clientResult (size : ℕ) (header data : List Byte) : Option (List Byte) :=
  if packetSize header > size then none else some data

section

variable (result : ℕ → List Byte → List Byte → Option (List Byte))

/-- The first half of `packetfs_receive_packet`, for a buffer of the given size. A packet without data
is complete. -/
def receiveHeader (e : End) (size : ℕ) : Option End :=
  match e.reader with
  | some _ => none
  | none => (readPipe e.bytes 16).map fun (header, bytes) =>
    if packetSize header = 0 then { e with bytes, reads := e.reads ++ [(size, result size header [])] }
    else { e with bytes, reader := some (size, header) }

def receiveData (e : End) : Option End :=
  match e.reader with
  | none => none
  | some (size, header) => (readPipe e.bytes (packetSize header)).map fun (data, bytes) =>
    { bytes, reader := none, reads := e.reads ++ [(size, result size header data)] }

end

def End.write (e : End) (p : Packet) : End := { e with bytes := e.bytes ++ format.encode p }

/-! ### The instance -/

/-- A call of `packetfs_server_write` that sends: its target, `none` for all, its packet, and the number
of clients when it began. -/
structure Call where
  target : Option Pointer
  packet : Packet
  present : ℕ

structure Ending where
  calls : ℕ
  clients : ℕ

structure State where
  server : End
  /-- `instance->clients`, and their pipes. -/
  clients : List Pointer
  ends : Pointer → End
  /-- The broadcast that holds the lock, and the position of its `foreach`. -/
  broadcast : Option (ℕ × ℕ)
  written : List Packet
  calls : List Call
  log : Pointer → List (ℕ × Packet)
  ended : ℕ → Option Ending

def State.sendToClient (s : State) (n : ℕ) (c : Pointer) (p : Packet) : State :=
  { s with
    ends := update s.ends c ((s.ends c).write p)
    log := update s.log c (s.log c ++ [(n, p)]) }

def State.serverWrite (s : State) (buffer : List Byte) : Option State :=
  -- without a whole header the size of the data wraps and is too large
  if h : 8 ≤ buffer.length ∧ (buffer.drop 8).length ≤ maxPacketSize then
    let target : Pointer := BitVec.ofNat 64 (ofBytes (buffer.take 8))
    let packet : Packet := ⟨0, buffer.drop 8, h.2⟩
    let n := s.calls.length
    if target = 0 then
      -- the lock of the instance
      if s.broadcast.isSome then none
      else some { s with calls := s.calls ++ [⟨none, packet, s.clients.length⟩], broadcast := some (n, 0) }
    -- target->parent != instance
    else if target ∉ s.clients then some s
    else some { s.sendToClient n target packet with
      calls := s.calls ++ [⟨some target, packet, s.clients.length⟩]
      ended := update s.ended n (some ⟨n + 1, s.clients.length⟩) }
  else some s

def State.clientWrite (s : State) (c : Pointer) (buffer : List Byte) : Option State :=
  if c ∉ s.clients then none
  else if h : buffer.length ≤ maxPacketSize then
    some { s with server := s.server.write ⟨c, buffer, h⟩, written := s.written ++ [⟨c, buffer, h⟩] }
  else some s

inductive Step where
  /-- `packetfs_open` of a client, at an address that `kmalloc` gives. -/
  | open (c : Pointer)
  | clientWrite (c : Pointer) (buffer : List Byte)
  | serverWrite (buffer : List Byte)
  /-- The next client of the broadcast, or its end. -/
  | broadcastNext
  | serverHeader (size : ℕ)
  | serverData
  | clientHeader (c : Pointer) (size : ℕ)
  | clientData (c : Pointer)

def step (s : State) : Step → Option State
  | .open c => if c = 0 ∨ c ∈ s.clients then none else some { s with clients := s.clients ++ [c] }
  | .clientWrite c buffer => s.clientWrite c buffer
  | .serverWrite buffer => s.serverWrite buffer
  | .broadcastNext => do
    let (n, k) ← s.broadcast
    let call ← s.calls[n]?
    match s.clients[k]? with
    | some c => some { s.sendToClient n c call.packet with broadcast := some (n, k + 1) }
    | none => some { s with
        broadcast := none
        ended := update s.ended n (some ⟨s.calls.length, s.clients.length⟩) }
  | .serverHeader size => (receiveHeader serverResult s.server size).map fun server => { s with server }
  | .serverData => (receiveData serverResult s.server).map fun server => { s with server }
  | .clientHeader c size => if c ∉ s.clients then none else
      (receiveHeader clientResult (s.ends c) size).map fun e => { s with ends := update s.ends c e }
  | .clientData c => if c ∉ s.clients then none else
      (receiveData clientResult (s.ends c)).map fun e => { s with ends := update s.ends c e }

def init : State := ⟨⟨[], none, []⟩, [], fun _ => ⟨[], none, []⟩, none, [], [], fun _ => [], fun _ => none⟩

/-! ### What a run asks for -/

def Step.sends : Step → Option Packet
  | .clientWrite c buffer => if h : buffer.length ≤ maxPacketSize then some ⟨c, buffer, h⟩ else none
  | _ => none

/-- The packet that the server writes, to all or to a client that is open. -/
def Step.calls (clients : List Pointer) : Step → Option Call
  | .serverWrite buffer =>
    if h : 8 ≤ buffer.length ∧ (buffer.drop 8).length ≤ maxPacketSize then
      let target : Pointer := BitVec.ofNat 64 (ofBytes (buffer.take 8))
      if target = 0 then some ⟨none, ⟨0, buffer.drop 8, h.2⟩, clients.length⟩
      else if target ∈ clients then some ⟨some target, ⟨0, buffer.drop 8, h.2⟩, clients.length⟩
      else none
    else none
  | _ => none

/-- The whole packet for the server, and the data for a client; `none` if the buffer is too small. -/
def serverAnswer (p : Packet) (size : ℕ) : Option (List Byte) :=
  if size < 16 + p.data.length then none else some (toBytes 8 p.source.toNat ++ toBytes 8 p.data.length ++ p.data)

def clientAnswer (p : Packet) (size : ℕ) : Option (List Byte) := if size < p.data.length then none else some p.data

/-- The reads at an end return the packets one after another, and a read waits only if there is none
left. -/
structure Delivered (answer : Packet → ℕ → Option (List Byte)) (result : ℕ → List Byte → List Byte → Option (List Byte))
    (packets : List Packet) (e : End) : Prop where
  reads : ∀ (i : ℕ) size r, e.reads[i]? = some (size, r) → ∃ p, packets[i]? = some p ∧ r = answer p size
  header : e.reads.length < packets.length → e.reader = none → ∀ size, ∃ e', receiveHeader result e size = some e'
  data : e.reader ≠ none → ∃ e', receiveData result e = some e'

/-- The server reads the packets of its clients, and a client those of the calls that were meant for
it. -/
structure Faithful (s : State) : Prop where
  server : Delivered serverAnswer serverResult s.written s.server
  client : ∀ c ∈ s.clients, Delivered clientAnswer clientResult ((s.log c).map Prod.snd) (s.ends c)
  /-- What is sent to a client comes from a call to it or to all, each once. -/
  meant : ∀ c, ∀ x ∈ s.log c, ∃ call, s.calls[x.1]? = some call ∧ x.2 = call.packet ∧ ∀ d ∈ call.target, d = c
  once : ∀ c, ((s.log c).map Prod.fst).Nodup
  /-- A call to a client reaches it. -/
  unicast : ∀ (n : ℕ) call, s.calls[n]? = some call → ∀ c ∈ call.target, (n, call.packet) ∈ s.log c
  /-- A broadcast reaches the clients that have opened before it returns. -/
  broadcast : ∀ (n : ℕ) call, s.calls[n]? = some call → call.target = none → ∀ e ∈ s.ended n, call.present ≤ e.clients ∧
    ∀ (i : ℕ) c, s.clients[i]? = some c → ((n, call.packet) ∈ s.log c ↔ i < e.clients)
  /-- A call that had returned when another one began is not behind it. -/
  order : ∀ c, (s.log c).Pairwise fun x y => ∀ e ∈ s.ended y.1, x.1 < e.calls
  /-- Every call has returned but the broadcast that holds the lock. -/
  returned : ∀ n < s.calls.length, s.ended n = none ↔ ∃ k, s.broadcast = some (n, k)

/-! ### One end -/

lemma getElem?_concat {α : Type*} {l : List α} {a b : α} {i : ℕ} (h : (l ++ [a])[i]? = some b) :
    l[i]? = some b ∨ i = l.length ∧ b = a := by
  rcases Nat.lt_or_ge i l.length with hlt | hge
  · rw [getElem?_append_left hlt] at h
    exact .inl h
  · rw [getElem?_append_right hge, getElem?_singleton] at h
    split at h
    · exact .inr ⟨by omega, (some.inj h).symm⟩
    · cases h

structure Holds (answer : Packet → ℕ → Option (List Byte)) (packets : List Packet) (e : End) : Prop where
  reads : ∀ (i : ℕ) size r, e.reads[i]? = some (size, r) → ∃ p, packets[i]? = some p ∧ r = answer p size
  aligned : Aligned format (packets.drop e.reads.length) e.bytes (e.reader.map Prod.snd)

variable {p : Packet}

section

variable {answer : Packet → ℕ → Option (List Byte)} {result : ℕ → List Byte → List Byte → Option (List Byte)}
  {packets : List Packet} {e e' : End}

lemma holds_empty : Holds answer [] ⟨[], none, []⟩ := ⟨nofun, rfl⟩

lemma Holds.length_le (h : Holds answer packets e) : e.reads.length ≤ packets.length := by
  by_contra hlt
  obtain ⟨size, r⟩ := e.reads[packets.length]
  obtain ⟨p, hp, -⟩ := h.reads packets.length _ _ (getElem?_eq_getElem (by omega))
  rw [getElem?_eq_none (Nat.le_refl _)] at hp
  cases hp

lemma Holds.write (h : Holds answer packets e) (p : Packet) : Holds answer (packets ++ [p]) (e.write p) := by
  refine ⟨fun i size r hi => ?_, ?_⟩
  · obtain ⟨q, hq, hr⟩ := h.reads i size r hi
    exact ⟨q, by rw [getElem?_append_left (List.getElem?_eq_some_iff.mp hq).1, hq], hr⟩
  · show Aligned format ((packets ++ [p]).drop e.reads.length) (e.bytes ++ format.encode p) (e.reader.map Prod.snd)
    rw [drop_append_of_le_length h.length_le]
    exact h.aligned.write p

lemma Holds.answered (h : Holds answer packets e) {rest : List Packet}
    (hnext : packets.drop e.reads.length = p :: rest) (size : ℕ) :
    Holds answer packets ⟨format.stream rest, none, e.reads ++ [(size, answer p size)]⟩ := by
  have hp : packets[e.reads.length]? = some p := by
    rw [← Nat.add_zero e.reads.length, ← getElem?_drop, hnext]
    rfl
  refine ⟨fun i size' r hi => ?_, ?_⟩
  · rcases getElem?_concat hi with hi | ⟨rfl, hr⟩
    · exact h.reads i size' r hi
    · obtain ⟨rfl, rfl⟩ := Prod.mk.inj hr
      exact ⟨p, hp, rfl⟩
  · show format.stream rest = format.stream (packets.drop (e.reads ++ [(size, answer p size)]).length)
    rw [length_append, length_singleton, ← drop_drop, hnext]
    rfl

variable (hresult : ∀ p size, result size p.header p.data = answer p size)
include hresult

lemma Holds.receiveHeader (h : Holds answer packets e) {size : ℕ} (hstep : receiveHeader result e size = some e') :
    Holds answer packets e' := by
  rw [Packetfs.receiveHeader] at hstep
  split at hstep
  · cases hstep
  rename_i hreader
  rw [readPipe] at hstep
  split at hstep
  case isFalse => cases hstep
  rename_i hlength
  have haligned := h.aligned
  rw [hreader] at haligned
  obtain ⟨p, rest, hnext, hheader, hbytes⟩ := haligned.read_header hlength
  have hheader' : e.bytes.take 16 = p.header := hheader
  have hbytes' : e.bytes.drop 16 = p.data ++ format.stream rest := hbytes
  have hsize : packetSize p.header = p.data.length := format.size_header p
  rw [map_some, hheader', hbytes'] at hstep
  dsimp only at hstep
  rw [hsize] at hstep
  obtain rfl := some.inj hstep
  split
  · -- no data, and no second read
    rename_i hzero
    have hnil : p.data = [] := length_eq_zero_iff.mp hzero
    have hanswer : result size p.header [] = answer p size := by rw [← hresult p size, hnil]
    rw [hnil, nil_append, hanswer]
    have hanswered := h.answered hnext size
    rw [← hreader] at hanswered
    exact hanswered
  · exact ⟨h.reads, p, rest, hnext, rfl, rfl⟩

lemma Holds.receiveData (h : Holds answer packets e) (hstep : receiveData result e = some e') :
    Holds answer packets e' := by
  rw [Packetfs.receiveData] at hstep
  split at hstep
  · cases hstep
  rename_i size header hreader
  rw [readPipe] at hstep
  split at hstep
  case isFalse => cases hstep
  have haligned := h.aligned
  rw [hreader] at haligned
  obtain ⟨p, rest, hnext, hheader, -, hdata, hbytes⟩ := haligned.read_body
  have hheader' : header = p.header := hheader
  have hdata' : e.bytes.take (packetSize header) = p.data := hdata
  have hbytes' : e.bytes.drop (packetSize header) = format.stream rest := hbytes
  rw [map_some, hdata', hbytes', hheader'] at hstep
  dsimp only at hstep
  rw [hresult] at hstep
  obtain rfl := some.inj hstep
  exact h.answered hnext size

omit hresult in
lemma Holds.delivered (h : Holds answer packets e) : Delivered answer result packets e := by
  have haligned := h.aligned
  refine ⟨h.reads, fun hlt hreader size => ?_, fun hreader => ?_⟩
  · rw [hreader] at haligned
    have hne : packets.drop e.reads.length ≠ [] := by
      rw [Ne, drop_eq_nil_iff]
      omega
    have hwidth : 16 ≤ e.bytes.length := haligned.width_le hne
    simp only [Packetfs.receiveHeader, hreader, readPipe, if_pos hwidth, map_some]
    exact ⟨_, rfl⟩
  · obtain ⟨⟨size, header⟩, hr⟩ := ne_none_iff_exists'.mp hreader
    rw [hr] at haligned
    obtain ⟨p, rest, -, -, hsize, -⟩ := haligned.read_body
    have hsize' : packetSize header ≤ e.bytes.length := hsize
    simp only [Packetfs.receiveData, hr, readPipe, if_pos hsize', map_some]
    exact ⟨_, rfl⟩

end

lemma serverResult_eq (p : Packet) (size : ℕ) : serverResult size p.header p.data = serverAnswer p size := by
  have hsize : packetSize p.header = p.data.length := format.size_header p
  rw [serverResult, serverAnswer, hsize, Nat.add_comm]
  rfl

lemma clientResult_eq (p : Packet) (size : ℕ) : clientResult size p.header p.data = clientAnswer p size := by
  have hsize : packetSize p.header = p.data.length := format.size_header p
  rw [clientResult, clientAnswer, hsize]

/-! ### The calls of the server -/

structure Sent (s : State) : Prop where
  meant : ∀ c, ∀ x ∈ s.log c, ∃ call, s.calls[x.1]? = some call ∧ x.2 = call.packet ∧ ∀ d ∈ call.target, d = c
  once : ∀ c, ((s.log c).map Prod.fst).Nodup
  unicast : ∀ (n : ℕ) call, s.calls[n]? = some call → ∀ c ∈ call.target, (n, call.packet) ∈ s.log c
  broadcast : ∀ (n : ℕ) call, s.calls[n]? = some call → call.target = none → ∀ e ∈ s.ended n, call.present ≤ e.clients ∧
    ∀ (i : ℕ) c, s.clients[i]? = some c → ((n, call.packet) ∈ s.log c ↔ i < e.clients)
  order : ∀ c, (s.log c).Pairwise fun x y => ∀ e ∈ s.ended y.1, x.1 < e.calls
  returned : ∀ n < s.calls.length, s.ended n = none ↔ ∃ k, s.broadcast = some (n, k)
  nodup : s.clients.Nodup
  closed : ∀ c ∉ s.clients, s.log c = []
  fresh : ∀ n, ∀ e ∈ s.ended n, n < s.calls.length ∧ e.clients ≤ s.clients.length
  /-- The broadcast that holds the lock has reached the clients before its position. -/
  progress : ∀ n k, s.broadcast = some (n, k) → ∃ call, s.calls[n]? = some call ∧ call.target = none ∧
    s.ended n = none ∧
    call.present ≤ s.clients.length ∧ k ≤ s.clients.length ∧
    ∀ (i : ℕ) c, s.clients[i]? = some c → ((n, call.packet) ∈ s.log c ↔ i < k)

section

variable {s s' : State} {c : Pointer} {n : ℕ} {buffer : List Byte} {x : ℕ × Packet} {call : Call} {k : ℕ}

lemma sent_init : Sent init :=
  ⟨fun _ => nofun, fun _ => nodup_nil, nofun, nofun, fun _ => .nil, nofun, nodup_nil, fun _ _ => rfl, nofun, nofun⟩

lemma Sent.congr (h : Sent s) (server : End) (ends : Pointer → End) (written : List Packet) :
    Sent { s with server, ends, written } :=
  ⟨h.meant, h.once, h.unicast, h.broadcast, h.order, h.returned, h.nodup, h.closed, h.fresh, h.progress⟩

lemma Sent.lt_length (h : Sent s) (hx : x ∈ s.log c) : x.1 < s.calls.length := by
  obtain ⟨call, hcall, -⟩ := h.meant c x hx
  exact (List.getElem?_eq_some_iff.mp hcall).1

lemma Sent.open (h : Sent s) (hc : c ∉ s.clients) : Sent { s with clients := s.clients ++ [c] } := by
  have hlog := h.closed c hc
  have hnew : ∀ {n k : ℕ} {p : Packet}, k ≤ s.clients.length →
      (∀ (i : ℕ) d, s.clients[i]? = some d → ((n, p) ∈ s.log d ↔ i < k)) →
      ∀ (i : ℕ) d, (s.clients ++ [c])[i]? = some d → ((n, p) ∈ s.log d ↔ i < k) := by
    intro n k p hk hold i d hi
    rcases getElem?_concat hi with hi | ⟨rfl, rfl⟩
    · exact hold i d hi
    · rw [hlog]
      exact iff_of_false (not_mem_nil) (by omega)
  refine ⟨h.meant, h.once, h.unicast, fun n call hn ht e he => ?_, h.order, h.returned, ?_, fun d hd => ?_,
    fun n e he => ?_, fun n k hk => ?_⟩
  · obtain ⟨hpresent, hreached⟩ := h.broadcast n call hn ht e he
    exact ⟨hpresent, hnew (h.fresh n e he).2 hreached⟩
  · exact nodup_append'.mpr ⟨h.nodup, nodup_singleton c, fun d hd hdc => hc (mem_singleton.mp hdc ▸ hd)⟩
  · exact h.closed d fun hmem => hd (mem_append_left _ hmem)
  · obtain ⟨hlt, hle⟩ := h.fresh n e he
    refine ⟨hlt, ?_⟩
    rw [length_append]
    exact Nat.le_add_right_of_le hle
  · obtain ⟨call, hn, ht, he, hpresent, hle, hreached⟩ := h.progress n k hk
    refine ⟨call, hn, ht, he, ?_, ?_, hnew hle hreached⟩
    · rw [length_append]
      exact Nat.le_add_right_of_le hpresent
    · rw [length_append]
      exact Nat.le_add_right_of_le hle

lemma mem_sendToClient {d : Pointer} :
    x ∈ (s.sendToClient n c p).log d ↔ x ∈ s.log d ∨ d = c ∧ x = (n, p) := by
  simp only [State.sendToClient]
  by_cases hd : d = c
  · simp only [hd, update_self, mem_append, mem_singleton, true_and]
  · simp only [update_of_ne hd, hd, false_and, or_false]

lemma Sent.once_send (h : Sent s) (hn : ∀ x ∈ s.log c, x.1 ≠ n) (d : Pointer) :
    (((s.sendToClient n c p).log d).map Prod.fst).Nodup := by
  simp only [State.sendToClient]
  by_cases hd : d = c
  · rw [hd, update_self, map_append, nodup_append']
    refine ⟨h.once c, nodup_singleton n, fun i hi hin => ?_⟩
    obtain ⟨x, hx, rfl⟩ := mem_map.mp hi
    exact hn x hx (mem_singleton.mp hin)
  · rw [update_of_ne hd]
    exact h.once d

lemma Sent.order_send (h : Sent s) {ended : ℕ → Option Ending} (hold : ∀ d, ∀ x ∈ s.log d, ended x.1 = s.ended x.1)
    (hnew : ∀ x ∈ s.log c, ∀ e ∈ ended n, x.1 < e.calls) (d : Pointer) :
    ((s.sendToClient n c p).log d).Pairwise fun x y => ∀ e ∈ ended y.1, x.1 < e.calls := by
  have hpairs : ∀ d, (s.log d).Pairwise fun x y => ∀ e ∈ ended y.1, x.1 < e.calls := fun d =>
    (h.order d).imp_of_mem fun {x y} _ hy hxy => by rwa [hold d y hy]
  simp only [State.sendToClient]
  by_cases hd : d = c
  · rw [hd, update_self, pairwise_append]
    refine ⟨hpairs c, pairwise_singleton _ _, fun x hx y hy => ?_⟩
    rw [mem_singleton.mp hy]
    exact hnew x hx
  · rw [update_of_ne hd]
    exact hpairs d

lemma Sent.closed_send (h : Sent s) (hc : c ∈ s.clients) (p : Packet) (d : Pointer) (hd : d ∉ s.clients) :
    (s.sendToClient n c p).log d = [] := by
  have hne : d ≠ c := by
    rintro rfl
    exact hd hc
  simp only [State.sendToClient, update_of_ne hne]
  exact h.closed d hd

lemma getElem?_calls {calls : List Call} (h : calls[n]? = some call) (new : Call) :
    (calls ++ [new])[n]? = some call := by
  rw [getElem?_append_left (List.getElem?_eq_some_iff.mp h).1, h]

lemma mem_update_ended {m : ℕ} {e e0 : Ending} (h : e ∈ update s.ended n (some e0) m) :
    m = n ∧ e = e0 ∨ e ∈ s.ended m := by
  by_cases hm : m = n
  · rw [hm, update_self] at h
    exact .inl ⟨hm, (mem_some.mp h).symm⟩
  · rw [update_of_ne hm] at h
    exact .inr h

lemma Sent.unicast_step (h : Sent s) (hc : c ∈ s.clients) (p : Packet) : Sent { s.sendToClient s.calls.length c p with
    calls := s.calls ++ [⟨some c, p, s.clients.length⟩]
    ended := update s.ended s.calls.length (some ⟨s.calls.length + 1, s.clients.length⟩) } := by
  have hended : ∀ m < s.calls.length, update s.ended s.calls.length
      (some ⟨s.calls.length + 1, s.clients.length⟩) m = s.ended m := fun m hm =>
    update_of_ne (Nat.ne_of_lt hm) _ _
  -- the other calls are sent to the same clients as before
  have hother : ∀ {m : ℕ} {q : Packet} {d : Pointer}, m < s.calls.length →
      ((m, q) ∈ (s.sendToClient s.calls.length c p).log d ↔ (m, q) ∈ s.log d) := by
    intro m q d hm
    rw [mem_sendToClient]
    refine or_iff_left fun hx => ?_
    have := (Prod.mk.inj hx.2).1
    omega
  refine ⟨fun d x hx => ?_, h.once_send fun x hx => Nat.ne_of_lt (h.lt_length hx), fun m call hm d hd => ?_,
    fun m call hm ht e he => ?_, h.order_send (fun d x hx => hended _ (h.lt_length hx)) fun x hx e he => ?_,
    fun m hm => ?_, h.nodup, h.closed_send hc p, fun m e he => ?_, fun m k hk => ?_⟩
  · rcases mem_sendToClient.mp hx with hx | ⟨rfl, rfl⟩
    · obtain ⟨call, hcall, hpacket, htarget⟩ := h.meant d x hx
      exact ⟨call, getElem?_calls hcall _, hpacket, htarget⟩
    · exact ⟨_, getElem?_concat_length, rfl, fun e he => (mem_some.mp he).symm⟩
  · rcases getElem?_concat hm with hm | ⟨rfl, rfl⟩
    · exact mem_sendToClient.mpr (.inl (h.unicast m call hm d hd))
    · exact mem_sendToClient.mpr (.inr ⟨(mem_some.mp hd).symm, rfl⟩)
  · rcases getElem?_concat hm with hm | ⟨rfl, rfl⟩
    · have hlt := (List.getElem?_eq_some_iff.mp hm).1
      obtain ⟨hpresent, hreached⟩ := h.broadcast m call hm ht e (hended m hlt ▸ he)
      exact ⟨hpresent, fun i d hi => (hother hlt).trans (hreached i d hi)⟩
    · cases ht
  · rcases mem_update_ended he with ⟨-, rfl⟩ | he
    · exact Nat.lt_succ_of_lt (h.lt_length hx)
    · exact absurd (h.fresh _ e he).1 (Nat.lt_irrefl _)
  · rw [length_append, length_singleton] at hm
    show update s.ended s.calls.length _ m = none ↔ ∃ k, s.broadcast = some (m, k)
    rcases Nat.lt_succ_iff_lt_or_eq.mp hm with hlt | rfl
    · rw [hended m hlt]
      exact h.returned m hlt
    · rw [update_self]
      refine iff_of_false (some_ne_none _) fun ⟨k, hk⟩ => ?_
      obtain ⟨call, hcall, -⟩ := h.progress _ k hk
      exact absurd (List.getElem?_eq_some_iff.mp hcall).1 (Nat.lt_irrefl _)
  · rw [length_append, length_singleton]
    rcases mem_update_ended he with ⟨rfl, rfl⟩ | he
    · exact ⟨Nat.lt_succ_self _, Nat.le_refl _⟩
    · obtain ⟨hlt, hle⟩ := h.fresh m e he
      exact ⟨Nat.lt_succ_of_lt hlt, hle⟩
  · obtain ⟨call, hcall, ht, he, hpresent, hle, hreached⟩ := h.progress m k hk
    have hlt := (List.getElem?_eq_some_iff.mp hcall).1
    exact ⟨call, getElem?_calls hcall _, ht, (hended m hlt).trans he, hpresent, hle,
      fun i d hi => (hother hlt).trans (hreached i d hi)⟩

lemma Sent.broadcast_begin (h : Sent s) (hfree : s.broadcast = none) (p : Packet) : Sent { s with
    calls := s.calls ++ [⟨none, p, s.clients.length⟩]
    broadcast := some (s.calls.length, 0) } := by
  have hnone : s.ended s.calls.length = none := by
    rw [eq_none_iff_forall_not_mem]
    exact fun e he => Nat.lt_irrefl _ (h.fresh _ e he).1
  refine ⟨fun d x hx => ?_, h.once, fun m call hm d hd => ?_, fun m call hm ht e he => ?_, h.order,
    fun m hm => ?_, h.nodup,
    h.closed, fun m e he => ?_, fun m k hk => ?_⟩
  · obtain ⟨call, hcall, hpacket, htarget⟩ := h.meant d x hx
    exact ⟨call, getElem?_calls hcall _, hpacket, htarget⟩
  · rcases getElem?_concat hm with hm | ⟨-, rfl⟩
    · exact h.unicast m call hm d hd
    · cases hd
  · rcases getElem?_concat hm with hm | ⟨rfl, -⟩
    · exact h.broadcast m call hm ht e he
    · exact absurd (h.fresh _ e he).1 (Nat.lt_irrefl _)
  · rw [length_append, length_singleton] at hm
    rcases Nat.lt_succ_iff_lt_or_eq.mp hm with hlt | rfl
    · rw [h.returned m hlt, hfree]
      refine iff_of_false (fun ⟨k, hk⟩ => by cases hk) fun ⟨k, hk⟩ => ?_
      exact absurd (Prod.mk.inj (some.inj hk)).1 (Nat.ne_of_gt hlt)
    · exact iff_of_true hnone ⟨0, rfl⟩
  · obtain ⟨hlt, hle⟩ := h.fresh m e he
    rw [length_append]
    exact ⟨Nat.lt_add_right _ hlt, hle⟩
  · obtain ⟨rfl, rfl⟩ := Prod.mk.inj (some.inj hk)
    refine ⟨_, getElem?_concat_length, rfl, hnone, Nat.le_refl _, Nat.zero_le _, fun i d hi => ?_⟩
    · exact iff_of_false (fun hx => Nat.lt_irrefl _ (h.lt_length hx)) (Nat.not_lt_zero i)

lemma Sent.broadcast_next (h : Sent s) (hb : s.broadcast = some (n, k)) (hcall : s.calls[n]? = some call)
    (hc : s.clients[k]? = some c) : Sent { s.sendToClient n c call.packet with broadcast := some (n, k + 1) } := by
  obtain ⟨call', hcall', ht, hended, hpresent, hle, hreached⟩ := h.progress n k hb
  obtain rfl : call = call' := some.inj (hcall.symm.trans hcall')
  have hmem : c ∈ s.clients := mem_of_getElem? hc
  have hnone : ∀ e, e ∉ s.ended n := by
    intro e he
    rw [hended] at he
    cases he
  have hother : ∀ {m : ℕ} {q : Packet} {d : Pointer}, m ≠ n →
      ((m, q) ∈ (s.sendToClient n c call.packet).log d ↔ (m, q) ∈ s.log d) := by
    intro m q d hm
    rw [mem_sendToClient]
    exact or_iff_left fun hx => hm (Prod.mk.inj hx.2).1
  have hnew : ∀ x ∈ s.log c, x.1 ≠ n := by
    rintro ⟨m, q⟩ hx rfl
    obtain ⟨call', hcall', hq, -⟩ := h.meant c _ hx
    obtain rfl : call = call' := some.inj (hcall.symm.trans hcall')
    rw [show q = call.packet from hq] at hx
    exact Nat.lt_irrefl k ((hreached k c hc).mp hx)
  refine ⟨fun d x hx => ?_, h.once_send hnew, fun m call' hm d hd => ?_, fun m call' hm ht' e he => ?_,
    h.order_send (fun _ _ _ => rfl) fun x hx e he => ?_, fun m hm => ?_, h.nodup, h.closed_send hmem _, h.fresh,
    fun m j hj => ?_⟩
  · rcases mem_sendToClient.mp hx with hx | ⟨rfl, rfl⟩
    · exact h.meant d x hx
    · refine ⟨call, hcall, rfl, ?_⟩
      rw [ht]
      exact nofun
  · exact mem_sendToClient.mpr (.inl (h.unicast m call' hm d hd))
  · have hm' : m ≠ n := by
      rintro rfl
      exact hnone e he
    obtain ⟨hpresent', hreached'⟩ := h.broadcast m call' hm ht' e he
    exact ⟨hpresent', fun i d hi => (hother hm').trans (hreached' i d hi)⟩
  · exact absurd he (hnone e)
  · refine (h.returned m hm).trans ?_
    rw [hb]
    constructor
    · rintro ⟨j, hj⟩
      obtain ⟨rfl, rfl⟩ := Prod.mk.inj (some.inj hj)
      exact ⟨_, rfl⟩
    · rintro ⟨j, hj⟩
      obtain ⟨rfl, rfl⟩ := Prod.mk.inj (some.inj hj)
      exact ⟨_, rfl⟩
  · obtain ⟨rfl, rfl⟩ := Prod.mk.inj (some.inj hj)
    have hlt := (List.getElem?_eq_some_iff.mp hc).1
    refine ⟨call, hcall, ht, hended, hpresent, hlt, fun i d hi => ?_⟩
    have hic : d = c ↔ i = k := by
      constructor
      · rintro rfl
        exact (getElem?_inj (List.getElem?_eq_some_iff.mp hi).1 h.nodup).mp (hi.trans hc.symm)
      · rintro rfl
        exact some.inj (hi.symm.trans hc)
    rw [mem_sendToClient, hreached i d hi, hic, and_iff_left rfl]
    exact Nat.lt_succ_iff_lt_or_eq.symm

lemma Sent.broadcast_end (h : Sent s) (hb : s.broadcast = some (n, k)) (hk : s.clients[k]? = none) : Sent { s with
    broadcast := none
    ended := update s.ended n (some ⟨s.calls.length, s.clients.length⟩) } := by
  obtain ⟨call, hcall, ht, hended, hpresent, hle, hreached⟩ := h.progress n k hb
  have hlt := (List.getElem?_eq_some_iff.mp hcall).1
  obtain rfl : k = s.clients.length := Nat.le_antisymm hle (getElem?_eq_none_iff.mp hk)
  refine ⟨h.meant, h.once, h.unicast, fun m call' hm ht' e he => ?_, fun d => ?_, fun m hm => ?_, h.nodup, h.closed,
    fun m e he => ?_, nofun⟩
  · rcases mem_update_ended he with ⟨rfl, rfl⟩ | he
    · obtain rfl : call = call' := some.inj (hcall.symm.trans hm)
      exact ⟨hpresent, hreached⟩
    · exact h.broadcast m call' hm ht' e he
  · refine (h.order d).imp_of_mem fun {x y} hx hy hxy e he => ?_
    rcases mem_update_ended he with ⟨-, rfl⟩ | he
    · exact h.lt_length hx
    · exact hxy e he
  · refine iff_of_false (fun hnone => ?_) fun ⟨j, hj⟩ => by cases hj
    change update s.ended n _ m = none at hnone
    by_cases hmn : m = n
    · rw [hmn, update_self] at hnone
      cases hnone
    · rw [update_of_ne hmn, h.returned m hm, hb] at hnone
      obtain ⟨j, hj⟩ := hnone
      exact hmn (Prod.mk.inj (some.inj hj)).1.symm
  · rcases mem_update_ended he with ⟨rfl, rfl⟩ | he
    · exact ⟨hlt, Nat.le_refl _⟩
    · exact h.fresh m e he

/-! ### Runs -/

structure Inv (s : State) : Prop where
  server : Holds serverAnswer s.written s.server
  client : ∀ c, Holds clientAnswer ((s.log c).map Prod.snd) (s.ends c)
  sent : Sent s

lemma inv_init : Inv init := ⟨holds_empty, fun _ => holds_empty, sent_init⟩

section

variable (hs : Inv s)
include hs

lemma Inv.faithful : Faithful s :=
  ⟨hs.server.delivered, fun c _ => (hs.client c).delivered, hs.sent.meant, hs.sent.once, hs.sent.unicast,
    hs.sent.broadcast,
    hs.sent.order, hs.sent.returned⟩

lemma Inv.client_send (p : Packet) (d : Pointer) :
    Holds clientAnswer (((s.sendToClient n c p).log d).map Prod.snd) ((s.sendToClient n c p).ends d) := by
  simp only [State.sendToClient]
  by_cases hd : d = c
  · rw [hd, update_self, update_self, map_append]
    exact (hs.client c).write p
  · rw [update_of_ne hd, update_of_ne hd]
    exact hs.client d

lemma Inv.client_read {e : End} (he : Holds clientAnswer ((s.log c).map Prod.snd) e) :
    Inv { s with ends := update s.ends c e } := by
  refine ⟨hs.server, fun d => ?_, hs.sent.congr _ _ _⟩
  by_cases hd : d = c
  · simp only [hd, update_self]
    exact he
  · simp only [update_of_ne hd]
    exact hs.client d

lemma Inv.serverWrite (h : s.serverWrite buffer = some s') : Inv s' := by
  rw [State.serverWrite] at h
  split at h
  · dsimp only at h
    split at h
    · split at h
      · cases h
      · rename_i hfree
        obtain rfl := some.inj h
        exact ⟨hs.server, hs.client, hs.sent.broadcast_begin (not_isSome_iff_eq_none.mp hfree) _⟩
    · split at h
      · obtain rfl := some.inj h
        exact hs
      · rename_i hmem
        obtain rfl := some.inj h
        exact ⟨hs.server, hs.client_send _, hs.sent.unicast_step (not_not.mp hmem) _⟩
  · obtain rfl := some.inj h
    exact hs

lemma Inv.clientWrite (h : s.clientWrite c buffer = some s') : Inv s' := by
  rw [State.clientWrite] at h
  split at h
  · cases h
  · split at h
    · obtain rfl := some.inj h
      exact ⟨hs.server.write _, hs.client, hs.sent.congr _ _ _⟩
    · obtain rfl := some.inj h
      exact hs

lemma Inv.step {op : Step} (h : step s op = some s') : Inv s' := by
  cases op with
  | «open» c =>
    rw [Packetfs.step] at h
    split at h
    · cases h
    · rename_i hnew
      obtain rfl := some.inj h
      exact ⟨hs.server, hs.client, hs.sent.open fun hmem => hnew (.inr hmem)⟩
  | clientWrite c buffer => exact hs.clientWrite h
  | serverWrite buffer => exact hs.serverWrite h
  | broadcastNext =>
    simp only [Packetfs.step, bind_eq_bind, bind_eq_some_iff] at h
    obtain ⟨⟨n, k⟩, hb, call, hcall, h⟩ := h
    split at h
    · rename_i hc
      obtain rfl := some.inj h
      exact ⟨hs.server, hs.client_send _, hs.sent.broadcast_next hb hcall hc⟩
    · rename_i hk
      obtain rfl := some.inj h
      exact ⟨hs.server, hs.client, hs.sent.broadcast_end hb hk⟩
  | serverHeader size =>
    obtain ⟨e, he, rfl⟩ := map_eq_some_iff.mp h
    exact ⟨hs.server.receiveHeader serverResult_eq he, hs.client, hs.sent.congr _ _ _⟩
  | serverData =>
    obtain ⟨e, he, rfl⟩ := map_eq_some_iff.mp h
    exact ⟨hs.server.receiveData serverResult_eq he, hs.client, hs.sent.congr _ _ _⟩
  | clientHeader c size =>
    rw [Packetfs.step] at h
    split at h
    · cases h
    · obtain ⟨e, he, rfl⟩ := map_eq_some_iff.mp h
      exact hs.client_read ((hs.client c).receiveHeader clientResult_eq he)
  | clientData c =>
    rw [Packetfs.step] at h
    split at h
    · cases h
    · obtain ⟨e, he, rfl⟩ := map_eq_some_iff.mp h
      exact hs.client_read ((hs.client c).receiveData clientResult_eq he)

end

end

end WivOS.Packetfs
