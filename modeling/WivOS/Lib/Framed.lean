/-
# Packets on a byte stream

A packet is a header of fixed width, which tells the size of the body, and the body. Writers put
whole packets onto a stream; a reader takes the header, then the body. `Aligned` says what is left
on the stream for the packets that are not read yet, before a packet or between its two parts.
-/
import Mathlib.Data.List.Basic

namespace Framed

open List

variable {α β : Type*}

structure Format (α β : Type*) where
  header : α → List β
  body : α → List β
  width : ℕ
  size : List β → ℕ
  width_pos : 0 < width
  length_header : ∀ a, (header a).length = width
  size_header : ∀ a, size (header a) = (body a).length

def Format.encode (F : Format α β) (a : α) : List β := F.header a ++ F.body a

def Format.stream (F : Format α β) (as : List α) : List β := as.flatMap F.encode

/-- The bytes left for a reader that has read nothing of the next packet, or its header. -/
def Aligned (F : Format α β) (pending : List α) (bytes : List β) : Option (List β) → Prop
  | none => bytes = F.stream pending
  | some header => ∃ a rest, pending = a :: rest ∧ header = F.header a ∧ bytes = F.body a ++ F.stream rest

variable {F : Format α β} {pending : List α} {bytes header : List β}

lemma stream_cons (a : α) (rest : List α) : F.stream (a :: rest) = F.header a ++ (F.body a ++ F.stream rest) := by
  rw [Format.stream, flatMap_cons, Format.encode, append_assoc]
  rfl

lemma stream_concat (as : List α) (a : α) : F.stream (as ++ [a]) = F.stream as ++ F.encode a := by
  rw [Format.stream, flatMap_append, flatMap_singleton]
  rfl

lemma Aligned.write {reader : Option (List β)} (h : Aligned F pending bytes reader) (a : α) :
    Aligned F (pending ++ [a]) (bytes ++ F.encode a) reader := by
  cases reader with
  | none =>
    have hbytes : bytes = F.stream pending := h
    show bytes ++ F.encode a = F.stream (pending ++ [a])
    rw [hbytes, stream_concat]
  | some header =>
    obtain ⟨b, rest, rfl, rfl, rfl⟩ := h
    exact ⟨b, rest ++ [a], rfl, rfl, by rw [stream_concat, append_assoc]⟩

lemma Aligned.read_header (h : Aligned F pending bytes none) (hlength : F.width ≤ bytes.length) : ∃ a rest,
    pending = a :: rest ∧ bytes.take F.width = F.header a ∧ bytes.drop F.width = F.body a ++ F.stream rest := by
  obtain rfl : bytes = F.stream pending := h
  cases pending with
  | nil =>
    have hpos := F.width_pos
    rw [Format.stream, flatMap_nil, length_nil] at hlength
    omega
  | cons a rest =>
    refine ⟨a, rest, rfl, ?_, ?_⟩
    · rw [stream_cons, take_left' (F.length_header a)]
    · rw [stream_cons, drop_left' (F.length_header a)]

lemma Aligned.read_body (h : Aligned F pending bytes (some header)) : ∃ a rest, pending = a :: rest ∧
    header = F.header a ∧ F.size header ≤ bytes.length ∧ bytes.take (F.size header) = F.body a ∧
    bytes.drop (F.size header) = F.stream rest := by
  obtain ⟨a, rest, rfl, rfl, rfl⟩ := h
  have hsize := F.size_header a
  refine ⟨a, rest, rfl, rfl, ?_, ?_, ?_⟩
  · rw [hsize, length_append]
    exact Nat.le_add_right _ _
  · rw [take_left' hsize.symm]
  · rw [drop_left' hsize.symm]

/-- A reader does not wait for a packet that was written. -/
lemma Aligned.width_le (h : Aligned F pending bytes none) (hne : pending ≠ []) : F.width ≤ bytes.length := by
  obtain rfl : bytes = F.stream pending := h
  cases pending with
  | nil => exact absurd rfl hne
  | cons a rest =>
    rw [stream_cons, length_append, F.length_header]
    exact Nat.le_add_right _ _

end Framed
