import DiceRooms.Decimal.Scientific
import DiceRooms.Json.Fault
import DiceRooms.Roll
import DiceRooms.Text.Quoted
import DiceRooms.Time.Rfc3339

/-!
Why a message is no event. A document is either malformed as JSON, or some value
in it does not fit its place, or, once all of it has been read, a die is of no
known type.
-/
namespace DiceRooms.Wire

/-- The records of a message, outermost first. -/
inductive Record
  | created
  | roll
  | die
deriving DecidableEq

namespace Record

def name : Record → String
  | created => "WireDiceRollCreated"
  | roll => "WireDiceRoll"
  | die => "WireDieRoll"

def fields : Record → List String
  | created => ["DiceRoll"]
  | roll => ["ID", "Serial", "CreatedAt", "RoomID", "UserID", "Dice"]
  | die => ["ID", "Type", "Side"]

end Record

/-- What stands where something else was wanted. -/
inductive Found
  | null
  | boolean (b : Bool)
  | natural (n : UInt64)
  | negative (n : Int)
  | double (bits : UInt64)
  | text (s : String)
  | list
  | object
deriving DecidableEq

inductive Wanted
  | text
  | natural
  | list
  | record (r : Record)
deriving DecidableEq

inductive Mismatch
  | wrongType (found : Found) (wanted : Wanted)
  | negative (n : Int)
  | missingField (name : String)
  | duplicateField (name : String)
  | wrongLength (length : Nat) (r : Record)
  | time (f : Rfc3339.Fault)
deriving DecidableEq

inductive Fault
  | malformed (f : Json.Fault)
  | mismatch (m : Mismatch)
deriving DecidableEq

inductive DecodeError
  | unreadable (f : Fault)
  | unknownDieType (e : UnknownDieType)
deriving DecidableEq

def ticked (kind value : String) : String :=
  kind ++ " `" ++ value ++ "`"

def Found.describe : Found → String
  | .null => "null"
  | .boolean b => ticked "boolean" (if b then "true" else "false")
  | .natural n => ticked "integer" (toString n.toNat)
  | .negative n => ticked "integer" (toString n)
  | .double bits => ticked "floating point" (doubleText bits)
  | .text s => "string " ++ Quoted.quoted s
  | .list => "sequence"
  | .object => "map"

def Wanted.describe : Wanted → String
  | .text => "a string"
  | .natural => "u64"
  | .list => "a sequence"
  | .record r => "struct " ++ r.name

def countElements (n : Nat) : String :=
  toString n ++ if n = 1 then " element" else " elements"

def Mismatch.message : Mismatch → String
  | .wrongType found wanted =>
    "invalid type: " ++ found.describe ++ ", expected " ++ wanted.describe
  | .negative n =>
    "invalid value: " ++ ticked "integer" (toString n) ++ ", expected " ++ Wanted.natural.describe
  | .missingField name => ticked "missing field" name
  | .duplicateField name => ticked "duplicate field" name
  | .wrongLength n r =>
    "invalid length " ++ toString n ++ ", expected " ++ (Wanted.record r).describe ++
      " with " ++ countElements r.fields.length
  | .time f => f.message

def Fault.message : Fault → String
  | .malformed f => f.message
  | .mismatch m => m.message

def DecodeError.message : DecodeError → String
  | .unreadable f => "Could not decode event: " ++ f.message
  | .unknownDieType e => e.message

end DiceRooms.Wire
