import DiceRooms.Json.Writer
import DiceRooms.Wire.Reader

/-!
Events as messages. `encode` writes one document for every event; `decode` reads any
document that denotes an event and looks the types of the dice up last.
-/
namespace DiceRooms.Wire

open Ascii Json

/-- A die whose type has not been looked up. -/
structure RawDie where
  id : String
  type : String
  side : UInt64
deriving DecidableEq

structure RawRoll where
  id : String
  serial : UInt64
  createdAt : Instant
  room : String
  user : String
  dice : List RawDie
deriving DecidableEq

structure DieFields where
  id : Option String
  type : Option String
  side : Option UInt64

structure RollFields where
  id : Option String
  serial : Option UInt64
  createdAt : Option Instant
  room : Option String
  user : Option String
  dice : Option (List RawDie)

def dieLayout : Layout DieFields RawDie where
  record := .die
  blank := ⟨none, none, none⟩
  member a key s :=
    if key = "ID" then do
      let (v, s) ← readField key a.id readString s
      .ok ({ a with id := some v }, s)
    else if key = "Type" then do
      let (v, s) ← readField key a.type readString s
      .ok ({ a with type := some v }, s)
    else if key = "Side" then do
      let (v, s) ← readField key a.side readNatural s
      .ok ({ a with side := some v }, s)
    else skipMember a s
  finish a := do
    let id ← required "ID" a.id
    let type ← required "Type" a.type
    let side ← required "Side" a.side
    .ok ⟨id, type, side⟩
  elements s := do
    let (id, s) ← readElement .die 0 readString s
    let (type, s) ← readElement .die 1 readString s
    let (side, s) ← readElement .die 2 readNatural s
    .ok (⟨id, type, side⟩, s)

def rollLayout : Layout RollFields RawRoll where
  record := .roll
  blank := ⟨none, none, none, none, none, none⟩
  member a key s :=
    if key = "ID" then do
      let (v, s) ← readField key a.id readString s
      .ok ({ a with id := some v }, s)
    else if key = "Serial" then do
      let (v, s) ← readField key a.serial readNatural s
      .ok ({ a with serial := some v }, s)
    else if key = "CreatedAt" then do
      let (v, s) ← readField key a.createdAt readTime s
      .ok ({ a with createdAt := some v }, s)
    else if key = "RoomID" then do
      let (v, s) ← readField key a.room readString s
      .ok ({ a with room := some v }, s)
    else if key = "UserID" then do
      let (v, s) ← readField key a.user readString s
      .ok ({ a with user := some v }, s)
    else if key = "Dice" then do
      let (v, s) ← readField key a.dice (readList dieLayout.read) s
      .ok ({ a with dice := some v }, s)
    else skipMember a s
  finish a := do
    let id ← required "ID" a.id
    let serial ← required "Serial" a.serial
    let createdAt ← required "CreatedAt" a.createdAt
    let room ← required "RoomID" a.room
    let user ← required "UserID" a.user
    let dice ← required "Dice" a.dice
    .ok ⟨id, serial, createdAt, room, user, dice⟩
  elements s := do
    let (id, s) ← readElement .roll 0 readString s
    let (serial, s) ← readElement .roll 1 readNatural s
    let (createdAt, s) ← readElement .roll 2 readTime s
    let (room, s) ← readElement .roll 3 readString s
    let (user, s) ← readElement .roll 4 readString s
    let (dice, s) ← readElement .roll 5 (readList dieLayout.read) s
    .ok (⟨id, serial, createdAt, room, user, dice⟩, s)

def createdLayout : Layout (Option RawRoll) RawRoll where
  record := .created
  blank := none
  member a key s :=
    if key = "DiceRoll" then do
      let (v, s) ← readField key a rollLayout.read s
      .ok (some v, s)
    else skipMember a s
  finish := required "DiceRoll"
  elements s := readElement .created 0 rollLayout.read s

/-- Reads a whole document; behind it only blanks may stand. -/
def readDocument (s : Bytes) : Except Fault RawRoll := do
  let (r, s) ← createdLayout.read s
  if skipBlanks s = [] then .ok r else malformed .trailingCharacters

def RawDie.resolve (d : RawDie) : Except UnknownDieType Die :=
  (DieType.ofId d.type).map fun t => ⟨d.id, t, d.side⟩

def RawRoll.resolve (r : RawRoll) : Except UnknownDieType Roll :=
  (r.dice.mapM RawDie.resolve).map fun dice =>
    ⟨r.id, r.serial, r.createdAt, r.room, r.user, dice⟩

def decode (s : Bytes) : Except DecodeError Roll :=
  match readDocument s with
  | .error f => .error (.unreadable f)
  | .ok raw =>
    match raw.resolve with
    | .error e => .error (.unknownDieType e)
    | .ok r => .ok r

def writeDie (writeId : String → Bytes) (d : Die) : Bytes :=
  writeObject
    [("ID", writeId d.id), ("Type", writeText d.type.id), ("Side", decimal d.side.toNat)]

/-- The document with the ids of the roll and its dice written in the given way, and with
the time as it is given. -/
def encodeAs (writeId : String → Bytes) (time : Bytes) (r : Roll) : Bytes :=
  writeObject
    [("DiceRoll", writeObject
      [("ID", writeId r.id),
       ("Serial", decimal r.serial.toNat),
       ("CreatedAt", time),
       ("RoomID", writeText r.room),
       ("UserID", writeText r.user),
       ("Dice", writeList (r.dice.map (writeDie writeId)))])]

def encode (r : Roll) : Bytes :=
  encodeAs writeText (writeOctets (Rfc3339.write .nanoseconds r.createdAt)) r

end DiceRooms.Wire
