/-
# Formatted numbers

`_ntoa_long`, `_ntoa_long_long`, `_ntoa_format` and `_out_rev` of `kernel/utils/system.c`. The digits, the zeros and the
sign of a number are put, last one first, into a buffer of 32 characters; a store behind it is a fault (`none`).
-/
import Mathlib.Data.List.TakeWhile

namespace WivOS.Printf

open List Option

/-- The `PRINT_FLAG_*` that are read here. -/
structure Flags where
  left : Bool
  plus : Bool
  space : Bool
  hash : Bool
  zeropad : Bool
  precision : Bool
  uppercase : Bool

/-! ### The buffer for digits -/

def push (buf : List Char) (c : Char) : Option (List Char) := if buf.length < 32 then some (buf ++ [c]) else none

def outRev (buf : List Char) (width : ℕ) (flags : Flags) : List Char :=
  let out := (if flags.left ∨ flags.zeropad then [] else replicate (width - buf.length) ' ') ++ buf.reverse
  if flags.left then out ++ replicate (width - out.length) ' ' else out

/-- The loops that pad with zeros up to a length, for a number of rounds. -/
def padZeros (limit : ℕ) : ℕ → List Char → Option (List Char)
  | 0, _ => none
  | n + 1, buf => if buf.length < limit ∧ buf.length < 32 then (push buf '0').bind (padZeros limit n) else some buf

/-- `_ntoa_format`: leading zeros. -/
def formatZeros (buf : List Char) (prec width : ℕ) (flags : Flags) : Option (List Char) :=
  if flags.left then some buf
  else (padZeros prec 33 buf).bind fun buf => if flags.zeropad then padZeros width 33 buf else some buf

/-- `_ntoa_format`: the mark of the base. -/
def formatHash (buf : List Char) (base prec width : ℕ) (flags : Flags) : Option (List Char) :=
  if !flags.hash then some buf else
  let buf := if !flags.precision ∧ buf.length ≠ 0 ∧ (buf.length = prec ∨ buf.length = width) then
    if base = 16 then buf.dropLast.dropLast else buf.dropLast else buf
  let marked := if base = 16 ∧ !flags.uppercase ∧ buf.length < 32 then push buf 'x'
    else if base = 16 ∧ flags.uppercase ∧ buf.length < 32 then push buf 'X'
    else if base = 2 ∧ buf.length < 32 then push buf 'b'
    else some buf
  marked.bind fun buf => if buf.length < 32 then push buf '0' else some buf

/-- `_ntoa_format`: the sign. -/
def formatSign (buf : List Char) (negative : Bool) (flags : Flags) : Option (List Char) :=
  if buf.length < 32 then
    if negative then push buf '-' else if flags.plus then push buf '+' else if flags.space then push buf ' '
      else some buf
  else some buf

/-- `_ntoa_format`: a sign before zeros takes one off the width. -/
def formatWidth (negative : Bool) (width : ℕ) (flags : Flags) : ℕ :=
  if !flags.left ∧ width ≠ 0 ∧ flags.zeropad ∧ (negative ∨ flags.plus ∨ flags.space) then width - 1 else width

def ntoaFormat (buf : List Char) (negative : Bool) (base prec width : ℕ) (flags : Flags) : Option (List Char) := do
  let buf ← formatZeros buf prec (formatWidth negative width flags) flags
  let buf ← formatHash buf base prec (formatWidth negative width flags) flags
  let buf ← formatSign buf negative flags
  some (outRev buf (formatWidth negative width flags) flags)

/-- The code tests the constant `PRINT_FLAG_UPPERCASE`, so the letters are always capital. -/
def digitChar (digit : ℕ) : Char := Char.ofNat (if digit < 10 then 48 + digit else 65 + digit - 10)

def digitLoop (base : ℕ) : ℕ → ℕ → List Char → Option (List Char)
  | 0, _, _ => none
  | n + 1, value, buf => do
    let buf ← push buf (digitChar (value % base))
    if value / base ≠ 0 ∧ buf.length < 32 then digitLoop base n (value / base) buf else some buf

def ntoaLong (value : ℕ) (negative : Bool) (base prec width : ℕ) (flags : Flags) : Option (List Char) :=
  (if !flags.precision ∨ value ≠ 0 then digitLoop base 32 value [] else some []).bind fun buf =>
    ntoaFormat buf negative base prec width (if value = 0 then { flags with hash := false } else flags)

def ntoaLongLong := ntoaLong

section Buffer

variable {buf : List Char} {base prec width value : ℕ} {negative : Bool} {flags : Flags} {c : Char}

lemma push_eq (h : buf.length < 32) : push buf c = some (buf ++ [c]) := if_pos h

lemma padZeros_fits {limit : ℕ} : ∀ {n : ℕ} {buf : List Char}, buf.length ≤ 32 → 32 < n + buf.length →
    ∃ buf', padZeros limit n buf = some buf' ∧ buf'.length ≤ 32
  | 0, _, h, hn => by omega
  | n + 1, buf, h, hn => by
    rw [padZeros]
    split_ifs with hlen
    · rw [push_eq hlen.2, bind_some]
      exact padZeros_fits (by simp; omega) (by simp; omega)
    · exact ⟨_, rfl, h⟩

lemma digitLoop_fits : ∀ {n value : ℕ} {buf : List Char}, buf.length < 32 → 32 ≤ n + buf.length →
    ∃ buf', digitLoop base n value buf = some buf' ∧ buf'.length ≤ 32
  | 0, _, _, h, hn => by omega
  | n + 1, value, buf, h, hn => by
    rw [digitLoop, push_eq h]
    simp only [bind_eq_bind, bind_some]
    split_ifs with hgo
    · exact digitLoop_fits hgo.2 (by simp; omega)
    · exact ⟨_, rfl, by simp; omega⟩

section

variable (h : buf.length ≤ 32)
include h

lemma formatZeros_fits :
    ∃ buf', formatZeros buf prec width flags = some buf' ∧ buf'.length ≤ 32 := by
  obtain ⟨buf', hbuf, hle⟩ := @padZeros_fits prec 33 buf h (by omega)
  unfold formatZeros
  rw [hbuf, bind_some]
  split_ifs
  exacts [⟨_, rfl, h⟩, padZeros_fits hle (by omega), ⟨_, rfl, hle⟩]

lemma formatHash_fits :
    ∃ buf', formatHash buf base prec width flags = some buf' ∧ buf'.length ≤ 32 := by
  unfold formatHash push
  grind

lemma formatSign_fits :
    ∃ buf', formatSign buf negative flags = some buf' ∧ buf'.length ≤ 32 := by
  unfold formatSign push
  grind

lemma ntoaFormat_fits : (ntoaFormat buf negative base prec width flags).isSome := by
  unfold ntoaFormat
  obtain ⟨_, h1, hle1⟩ := @formatZeros_fits buf prec (formatWidth negative width flags) flags h
  obtain ⟨_, h2, hle2⟩ := @formatHash_fits _ base prec (formatWidth negative width flags) flags hle1
  obtain ⟨_, h3, -⟩ := @formatSign_fits _ negative flags hle2
  simp only [bind_eq_bind, h1, h2, h3, bind_some, isSome_some]

end

lemma ntoaLong_fits (value : ℕ) : (ntoaLong value negative base prec width flags).isSome := by
  obtain ⟨_, hdigits, hle⟩ := @digitLoop_fits base 32 value [] (by decide) (by decide)
  unfold ntoaLong
  rw [hdigits]
  split_ifs <;> first | exact ntoaFormat_fits hle | exact ntoaFormat_fits (by decide)

/-- **No access outside of the buffer**, for all values, bases, signs, precisions, widths and flags: the stores of all
three functions are within its 32 characters. -/
theorem ntoa_in_buffer (value : ℕ) (negative : Bool) (base prec width : ℕ) (flags : Flags) :
    (ntoaLong value negative base prec width flags).isSome ∧
    (ntoaLongLong value negative base prec width flags).isSome ∧
      ∀ buf : List Char, buf.length ≤ 32 → (ntoaFormat buf negative base prec width flags).isSome :=
  ⟨ntoaLong_fits value, ntoaLong_fits value, fun _ => ntoaFormat_fits⟩

end Buffer

end WivOS.Printf
