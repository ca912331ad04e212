import DiceRooms.Text.Ascii

/-!
Compact JSON text. Only quotes, backslashes and octets below 0x20 of a string are
escaped; members and elements stand in the order given.
-/
namespace DiceRooms.Json

open Ascii

def hexDigit (n : Nat) : UInt8 :=
  if n < 10 then UInt8.ofNat (0x30 + n) else UInt8.ofNat (0x61 + (n - 10))

/-- The letter that stands for an octet after a backslash. -/
def shortEscape? (b : UInt8) : Option UInt8 :=
  if b = quote then some quote
  else if b = backslash then some backslash
  else if b = 0x08 then some 0x62
  else if b = 0x0c then some 0x66
  else if b = 0x0a then some 0x6e
  else if b = 0x0d then some 0x72
  else if b = 0x09 then some 0x74
  else none

def escape (b : UInt8) : Bytes :=
  match shortEscape? b with
  | some c => [backslash, c]
  | none =>
    if b < 0x20 then
      [backslash, 0x75, zero, zero, hexDigit (b.toNat / 16), hexDigit (b.toNat % 16)]
    else [b]

def writeOctets (b : Bytes) : Bytes :=
  quote :: b.flatMap escape ++ [quote]

def writeText (s : String) : Bytes :=
  writeOctets (utf8 s)

def separated (items : List Bytes) : Bytes :=
  match items with
  | [] => []
  | item :: items => item ++ items.flatMap (comma :: ·)

def writeList (items : List Bytes) : Bytes :=
  openBracket :: separated items ++ [closeBracket]

def writeMember (key : String) (value : Bytes) : Bytes :=
  writeText key ++ colon :: value

def writeObject (members : List (String × Bytes)) : Bytes :=
  openBrace :: separated (members.map fun m => writeMember m.1 m.2) ++ [closeBrace]

end DiceRooms.Json
