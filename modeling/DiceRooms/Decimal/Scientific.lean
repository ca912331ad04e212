import DiceRooms.Decimal.Shortest

/-!
The text of a double in the shortest digits: positional from `1e-5` up to below
`1e16`, with a point in any case, and otherwise with a signed exponent.
-/
namespace DiceRooms

/-- Least and greatest place before the point at which a number is still written
positionally. -/
def positionalFrom : Int := -4
def positionalTo : Int := 16

def zeros (n : Nat) : String := String.ofList (List.replicate n '0')

def exponentText (e : Int) : String :=
  "e" ++ (if e < 0 then "-" else "+") ++ toString e.natAbs

def Decimal.text (d : Decimal) : String :=
  let ds := (toString d.digits).toList
  let places : Int := ds.length + d.exponent
  if d.digits = 0 then "0.0"
  else if 0 ≤ d.exponent ∧ places ≤ positionalTo then
    String.ofList ds ++ zeros d.exponent.toNat ++ ".0"
  else if 0 < places ∧ places ≤ positionalTo then
    String.ofList (ds.take places.toNat) ++ "." ++ String.ofList (ds.drop places.toNat)
  else if positionalFrom ≤ places ∧ places ≤ 0 then
    "0." ++ zeros (-places).toNat ++ String.ofList ds
  else
    match ds with
    | [d] => String.singleton d ++ exponentText (places - 1)
    | d :: ds => String.singleton d ++ "." ++ String.ofList ds ++ exponentText (places - 1)
    | [] => ""

/-- The text of a finite double, given by its bits. -/
def doubleText (bits : UInt64) : String :=
  let sign := if bits.toNat / 0x8000000000000000 = 1 then "-" else ""
  sign ++ (BinaryFloat.ofBits bits).shortest.text

end DiceRooms
