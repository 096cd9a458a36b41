/-
Module: TsxLint.Text.Utf8
Purpose: Reading UTF-8, with the place and the cause where it is malformed.
Main exports: Text.Utf8Error, Text.decode
-/

namespace TsxLint.Text

/-!
Files and byte ranges are read as UTF-8.  Well-formed input is decoded by core;
for malformed input the first offending sequence is located, because messages
name its position and what is wrong with it.
-/

/-- What is wrong with a byte sequence. -/
inductive Utf8Cause where
  | invalidStart
  | invalidContinuation
  | unexpectedEnd
deriving DecidableEq, Repr, Inhabited

/-- A malformed sequence: the bytes `start … stop - 1` and the cause. -/
structure Utf8Error where
  first : UInt8
  start : Nat
  stop : Nat
  cause : Utf8Cause
deriving DecidableEq, Repr, Inhabited

/-- Two hexadecimal digits. -/
def hexByte (b : UInt8) : String :=
  String.ofList [Nat.digitChar (b.toNat / 16), Nat.digitChar (b.toNat % 16)]

/-- The phrase that names a cause. -/
def Utf8Cause.phrase : Utf8Cause → String
  | .invalidStart => "invalid start byte"
  | .invalidContinuation => "invalid continuation byte"
  | .unexpectedEnd => "unexpected end of data"

/-- One line that names the bytes, their place and the cause. -/
def Utf8Error.message (e : Utf8Error) : String :=
  let place :=
    if e.stop = e.start + 1 then s!"byte 0x{hexByte e.first} in position {e.start}"
    else s!"bytes in position {e.start}-{e.stop - 1}"
  s!"'utf-8' codec can't decode {place}: {e.cause.phrase}"

/-- How many continuation bytes a start byte announces, and the range its first
continuation byte must lie in. -/
def announced (b : UInt8) : Option (Nat × Nat × Nat) :=
  let n := b.toNat
  if n < 0x80 then some (0, 0x80, 0xbf)
  else if n < 0xc2 then none
  else if n < 0xe0 then some (1, 0x80, 0xbf)
  else if n == 0xe0 then some (2, 0xa0, 0xbf)
  else if n == 0xed then some (2, 0x80, 0x9f)
  else if n < 0xf0 then some (2, 0x80, 0xbf)
  else if n == 0xf0 then some (3, 0x90, 0xbf)
  else if n < 0xf4 then some (3, 0x80, 0xbf)
  else if n == 0xf4 then some (3, 0x80, 0x8f)
  else none

/-- How many of the next `wanted` bytes are continuation bytes, the first of
them within `low … high`; and whether the data ended while counting. -/
def accepted (wanted low high : Nat) : List UInt8 → Nat × Bool
  | [] => (0, decide (0 < wanted))
  | b :: rest =>
    match wanted with
    | 0 => (0, false)
    | more + 1 =>
      if low ≤ b.toNat && b.toNat ≤ high then
        let (count, ended) := accepted more 0x80 0xbf rest
        (count + 1, ended)
      else (0, false)

/-- The first malformed sequence at or after `place`. -/
def firstError (place : Nat) : (skip : Nat) → List UInt8 → Option Utf8Error
  | _, [] => none
  | skip + 1, _ :: rest => firstError (place + 1) skip rest
  | 0, b :: rest =>
    match announced b with
    | none => some ⟨b, place, place + 1, .invalidStart⟩
    | some (wanted, low, high) =>
      let (count, ended) := accepted wanted low high rest
      if count = wanted then firstError (place + 1) wanted rest
      else
        some ⟨b, place, place + 1 + count,
          if ended then .unexpectedEnd else .invalidContinuation⟩

/-- The text that bytes encode, or where and why they encode none. -/
def decode (data : ByteArray) : Except Utf8Error String :=
  match String.fromUTF8? data with
  | some s => .ok s
  | none => .error ((firstError 0 0 data.toList).getD ⟨0, 0, 1, .invalidStart⟩)

/-- Every text is what its own bytes decode to. -/
theorem decode_toUTF8 (s : String) : decode s.toUTF8 = .ok s := by
  have h : String.fromUTF8? s.toUTF8 = some s := by
    unfold String.fromUTF8?
    rw [String.toUTF8_eq_toByteArray, dif_pos s.isValidUTF8]
    rfl
  unfold decode
  rw [h]

end TsxLint.Text
