import DiceRooms.Text.Utf8

/-!
Octets shown as text whatever they are. Where they are not UTF-8, the longest beginning
of a character that stands there is shown by one replacement character.
-/
namespace DiceRooms

def replacement : Char := '\ufffd'

def isContinuation (b : UInt8) : Bool := 0x80 ≤ b && b ≤ 0xbf

/-- Whether a second octet can follow a first one that begins a character of two or more. -/
def canFollow (first second : UInt8) : Bool :=
  if first = 0xe0 then 0xa0 ≤ second && second ≤ 0xbf
  else if first = 0xed then 0x80 ≤ second && second ≤ 0x9f
  else if first = 0xf0 then 0x90 ≤ second && second ≤ 0xbf
  else if first = 0xf4 then 0x80 ≤ second && second ≤ 0x8f
  else 0xc2 ≤ first && first ≤ 0xf4 && isContinuation second

/-- The character that leading bits and the low six bits of further octets make up. -/
def charOfBits (leading : Nat) (following : List UInt8) : Char :=
  Char.ofNat (following.foldl (fun n b => 64 * n + b.toNat % 64) leading)

def lossyChars : Bytes → List Char
  | [] => []
  | a :: s =>
    if a < 0x80 then Char.ofNat a.toNat :: lossyChars s
    else
      match s with
      | [] => [replacement]
      | b :: t =>
        if ¬ canFollow a b then replacement :: lossyChars (b :: t)
        else if a < 0xe0 then charOfBits (a.toNat % 32) [b] :: lossyChars t
        else
          match t with
          | [] => [replacement]
          | c :: u =>
            if ¬ isContinuation c then replacement :: lossyChars (c :: u)
            else if a < 0xf0 then charOfBits (a.toNat % 16) [b, c] :: lossyChars u
            else
              match u with
              | [] => [replacement]
              | d :: v =>
                if isContinuation d then charOfBits (a.toNat % 8) [b, c, d] :: lossyChars v
                else replacement :: lossyChars (d :: v)

def lossyText (b : Bytes) : String := String.ofList (lossyChars b)

end DiceRooms
