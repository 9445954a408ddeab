set_option autoImplicit false

namespace FrontendSurvey

/-- A name or a path as the system holds it: any bytes, in no encoding. -/
structure Raw where
  bytes : List UInt8
  deriving DecidableEq, Repr

namespace Raw

def ofText (s : String) : Raw := ⟨s.toList.flatMap String.utf8EncodeChar⟩

instance : Coe String Raw := ⟨ofText⟩

abbrev slash : UInt8 := 0x2F

abbrev dot : UInt8 := 0x2E

@[simp] theorem slash_ne_dot : slash ≠ dot := by decide

@[simp] theorem dot_ne_slash : dot ≠ slash := by decide

structure Begun where
  -- the code of a character as far as it is read, the range of its next byte, and how many come behind that
  code : Nat
  low : Nat
  high : Nat
  more : Nat

def begin? (byte : Nat) : Option Begun :=
  -- A narrower range leaves out what is written in fewer bytes, surrogates, and codes beyond the last one.
  if 0xC2 ≤ byte ∧ byte ≤ 0xDF then some ⟨byte - 0xC0, 0x80, 0xBF, 0⟩
  else if byte = 0xE0 then some ⟨0, 0xA0, 0xBF, 1⟩
  else if byte = 0xED then some ⟨0xD, 0x80, 0x9F, 1⟩
  else if 0xE1 ≤ byte ∧ byte ≤ 0xEF then some ⟨byte - 0xE0, 0x80, 0xBF, 1⟩
  else if byte = 0xF0 then some ⟨0, 0x90, 0xBF, 2⟩
  else if byte = 0xF4 then some ⟨4, 0x80, 0x8F, 2⟩
  else if 0xF1 ≤ byte ∧ byte ≤ 0xF3 then some ⟨byte - 0xF0, 0x80, 0xBF, 2⟩
  else none

def replacement : Char := '\uFFFD'

def start (byte : Nat) : List Char × Option Begun :=
  if byte < 0x80 then ([Char.ofNat byte], none)
  else
    match begin? byte with
    | some begun => ([], some begun)
    | none => ([replacement], none)

def take (byte : Nat) : Option Begun → List Char × Option Begun
  | none => start byte
  | some ⟨code, low, high, more⟩ =>
    if low ≤ byte ∧ byte ≤ high then
      match more with
      | 0 => ([Char.ofNat (code * 64 + (byte - 0x80))], none)
      | more + 1 => ([], some ⟨code * 64 + (byte - 0x80), 0x80, 0xBF, more⟩)
    else (replacement :: (start byte).1, (start byte).2)

def chars : Option Begun → List UInt8 → List Char
  -- One replacement stands for all that was read of a character before it went wrong.
  | none, [] => []
  | some _, [] => [replacement]
  | state, byte :: rest => (take byte.toNat state).1 ++ chars (take byte.toNat state).2 rest

def text (r : Raw) : String := String.ofList (chars none r.bytes)

end Raw

end FrontendSurvey
