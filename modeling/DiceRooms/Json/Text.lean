import DiceRooms.Json.Fault
import DiceRooms.Text.Ascii

/-!
Blanks, words and strings of a JSON document. A reader takes the rest of the
document and answers with what it read and what then remains.
-/
namespace DiceRooms.Json

open Ascii

def isBlank (b : UInt8) : Bool :=
  b == 0x20 || b == 0x0a || b == 0x09 || b == 0x0d

def skipBlanks (s : Bytes) : Bytes :=
  s.dropWhile isBlank

/-- Reads the rest of a word such as `true`. A word cut off by the end of the
document counts as an unfinished value. -/
def readWord : Bytes → Bytes → Except Fault Bytes
  | [], s => .ok s
  | _ :: _, [] => .error .endInValue
  | w :: ws, b :: s => if b = w then readWord ws s else .error .expectedWord

def wordNull : Bytes := [0x75, 0x6c, 0x6c]
def wordTrue : Bytes := [0x72, 0x75, 0x65]
def wordFalse : Bytes := [0x61, 0x6c, 0x73, 0x65]

def hexValue? (b : UInt8) : Option Nat :=
  if 0x30 ≤ b ∧ b ≤ 0x39 then some (b.toNat - 0x30)
  else if 0x61 ≤ b ∧ b ≤ 0x66 then some (b.toNat - 0x61 + 10)
  else if 0x41 ≤ b ∧ b ≤ 0x46 then some (b.toNat - 0x41 + 10)
  else none

def hexUnit? (a b c d : UInt8) : Option Nat := do
  let a ← hexValue? a
  let b ← hexValue? b
  let c ← hexValue? c
  let d ← hexValue? d
  some (((a * 16 + b) * 16 + c) * 16 + d)

/-- The octet that a letter after a backslash stands for. -/
def unescape? (b : UInt8) : Option UInt8 :=
  if b = quote ∨ b = backslash ∨ b = slash then some b
  else if b = 0x62 then some 0x08
  else if b = 0x66 then some 0x0c
  else if b = 0x6e then some 0x0a
  else if b = 0x72 then some 0x0d
  else if b = 0x74 then some 0x09
  else none

def letterU : UInt8 := 0x75

def isLeading (unit : Nat) : Bool := 0xd800 ≤ unit && unit ≤ 0xdbff

def isTrailing (unit : Nat) : Bool := 0xdc00 ≤ unit && unit ≤ 0xdfff

def pairValue (leading trailing : Nat) : Nat :=
  0x10000 + (leading - 0xd800) * 0x400 + (trailing - 0xdc00)

def encodeScalar (n : Nat) : Bytes :=
  String.utf8EncodeChar (Char.ofNat n)

/-- The octets of a string up to its closing quote, with escapes resolved. -/
def readOctets : Bytes → Except Fault (Bytes × Bytes)
  | [] => .error .endInString
  | b :: s =>
    if b = quote then .ok ([], s)
    else if b < 0x20 then .error .controlCharacter
    else if b ≠ backslash then (readOctets s).map fun (t, r) => (b :: t, r)
    else
      match s with
      | [] => .error .endInString
      | e :: s =>
        match unescape? e with
        | some c => (readOctets s).map fun (t, r) => (c :: t, r)
        | none =>
          if e ≠ letterU then .error .invalidEscape
          else
            match s with
            | h₁ :: h₂ :: h₃ :: h₄ :: s =>
              match hexUnit? h₁ h₂ h₃ h₄ with
              | none => .error .invalidEscape
              | some unit =>
                if isTrailing unit then .error .loneLeadingSurrogate
                else if ¬ isLeading unit then
                  (readOctets s).map fun (t, r) => (encodeScalar unit ++ t, r)
                else
                  match s with
                  | [] => .error .endInString
                  | m :: s =>
                    if m ≠ backslash then .error .unexpectedEndOfEscape
                    else
                      match s with
                      | [] => .error .endInString
                      | u :: s =>
                        if u ≠ letterU then .error .unexpectedEndOfEscape
                        else
                          match s with
                          | h₁ :: h₂ :: h₃ :: h₄ :: s =>
                            match hexUnit? h₁ h₂ h₃ h₄ with
                            | none => .error .invalidEscape
                            | some unit' =>
                              if ¬ isTrailing unit' then .error .loneLeadingSurrogate
                              else
                                (readOctets s).map fun (t, r) =>
                                  (encodeScalar (pairValue unit unit') ++ t, r)
                          | _ => .error .endInString
            | _ => .error .endInString

/-- A string whose opening quote has been read. Whether it is UTF-8 is only asked
once it has ended. -/
def readText (s : Bytes) : Except Fault (String × Bytes) :=
  match readOctets s with
  | .error e => .error e
  | .ok (t, rest) =>
    match ofUtf8? t with
    | some text => .ok (text, rest)
    | none => .error .invalidCodePoint

/-- Passes over a string whose opening quote has been read. Escapes are checked
one by one; neither their pairing nor the encoding is. -/
def skipText : Bytes → Except Fault Bytes
  | [] => .error .endInString
  | b :: s =>
    if b = quote then .ok s
    else if b < 0x20 then .error .controlCharacter
    else if b ≠ backslash then skipText s
    else
      match s with
      | [] => .error .endInString
      | e :: s =>
        if (unescape? e).isSome then skipText s
        else if e ≠ letterU then .error .invalidEscape
        else
          match s with
          | h₁ :: h₂ :: h₃ :: h₄ :: s =>
            if (hexUnit? h₁ h₂ h₃ h₄).isSome then skipText s else .error .invalidEscape
          | _ => .error .endInString

end DiceRooms.Json
