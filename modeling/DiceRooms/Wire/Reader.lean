import DiceRooms.Json.Skip
import DiceRooms.Wire.Fault

/-!
The readers that the records of a message are made of. A record is an object, whose
unknown members are passed over, or the list of its fields. Reading goes from left to
right and stops at the first fault.
-/
namespace DiceRooms.Wire

open Ascii Json

def malformed (f : Json.Fault) : Except Fault α :=
  .error (.malformed f)

def mismatch (m : Mismatch) : Except Fault α :=
  .error (.mismatch m)

def grammar : Except Json.Fault α → Except Fault α
  | .ok a => .ok a
  | .error f => malformed f

/-- Reads enough of a value to name it. -/
def found : Bytes → Except Json.Fault Found
  | [] => .error .endInValue
  | b :: s =>
    if b = 0x6e then (readWord wordNull s).map fun _ => .null
    else if b = 0x74 then (readWord wordTrue s).map fun _ => .boolean true
    else if b = 0x66 then (readWord wordFalse s).map fun _ => .boolean false
    else if b = minus ∨ isDigit b then
      (readNumber (b :: s)).map fun (n, _) =>
        match n with
        | .natural n => .natural n
        | .negative n => .negative n
        | .double bits => .double bits
    else if b = quote then (readText s).map fun (t, _) => .text t
    else if b = openBracket then .ok .list
    else if b = openBrace then .ok .object
    else .error .expectedValue

def refuse (wanted : Wanted) (s : Bytes) : Except Fault α :=
  match found s with
  | .ok f => mismatch (.wrongType f wanted)
  | .error f => malformed f

def readString (s : Bytes) : Except Fault (String × Bytes) :=
  match skipBlanks s with
  | [] => malformed .endInValue
  | b :: r => if b = quote then grammar (readText r) else refuse .text (b :: r)

def readNatural (s : Bytes) : Except Fault (UInt64 × Bytes) :=
  match skipBlanks s with
  | [] => malformed .endInValue
  | b :: r =>
    if b = minus ∨ isDigit b then
      match readNumber (b :: r) with
      | .ok (.natural n, s) => .ok (n, s)
      | .ok (.negative n, _) => mismatch (.negative n)
      | .ok (.double bits, _) => mismatch (.wrongType (.double bits) .natural)
      | .error f => malformed f
    else refuse .natural (b :: r)

def readTime (s : Bytes) : Except Fault (Instant × Bytes) := do
  let (text, s) ← readString s
  match Rfc3339.read (utf8 text) with
  | .ok t => .ok (t, s)
  | .error f => mismatch (.time f)

def readColon (s : Bytes) : Except Fault Bytes :=
  match skipBlanks s with
  | [] => malformed .endInObject
  | b :: s => if b = colon then .ok s else malformed .expectedColon

/-- The key of the next member, or none at the closing brace. -/
def readKey (first : Bool) (s : Bytes) : Except Fault (Option String × Bytes) :=
  match skipBlanks s with
  | [] => malformed .endInObject
  | b :: s =>
    if b = closeBrace then .ok (none, s)
    else if first then
      if b = quote then grammar ((readText s).map fun (t, s) => (some t, s))
      else malformed .keyNotString
    else if b = comma then
      match skipBlanks s with
      | [] => malformed .endInValue
      | b :: s =>
        if b = quote then grammar ((readText s).map fun (t, s) => (some t, s))
        else if b = closeBrace then malformed .trailingComma
        else malformed .keyNotString
    else malformed .expectedCommaOrBrace

/-- Gathers the members of an object up to its closing brace. Each takes an octet at
least, so the document itself is fuel enough. -/
def readMembers (member : σ → String → Bytes → Except Fault (σ × Bytes)) :
    Bytes → Bool → σ → Bytes → Except Fault (σ × Bytes)
  | [], _, _, _ => malformed .endInObject
  | _ :: fuel, first, a, s => do
    let (key, s) ← readKey first s
    match key with
    | none => .ok (a, s)
    | some key =>
      let (a, s) ← member a key s
      readMembers member fuel false a s

/-- A repeated field is refused before its value is looked at. -/
def readField (name : String) (old : Option α) (read : Bytes → Except Fault (α × Bytes))
    (s : Bytes) : Except Fault (α × Bytes) :=
  if old.isSome then mismatch (.duplicateField name)
  else do
    let s ← readColon s
    read s

def skipMember (a : σ) (s : Bytes) : Except Fault (σ × Bytes) := do
  let s ← readColon s
  let s ← grammar (skipValue s)
  .ok (a, s)

def required (name : String) : Option α → Except Fault α
  | some a => .ok a
  | none => mismatch (.missingField name)

/-- Whether another element follows, and where it begins. -/
def nextElement (first : Bool) (s : Bytes) : Except Fault (Bool × Bytes) :=
  match skipBlanks s with
  | [] => malformed .endInList
  | b :: r =>
    if b = closeBracket then .ok (false, r)
    else if first then .ok (true, b :: r)
    else if b = comma then
      match skipBlanks r with
      | [] => malformed .endInValue
      | b :: r => if b = closeBracket then malformed .trailingComma else .ok (true, b :: r)
    else malformed .expectedCommaOrBracket

/-- The field at a place of a record written as a list. -/
def readElement (r : Record) (place : Nat) (read : Bytes → Except Fault (α × Bytes))
    (s : Bytes) : Except Fault (α × Bytes) := do
  let (more, s) ← nextElement (place == 0) s
  if more then read s else mismatch (.wrongLength place r)

/-- The end of a record written as a list. -/
def closeRecord (s : Bytes) : Except Fault Bytes :=
  match skipBlanks s with
  | [] => malformed .endInList
  | b :: s =>
    if b = closeBracket then .ok s
    else if b = comma then
      match skipBlanks s with
      | [] => malformed .trailingCharacters
      | b :: _ => malformed (if b = closeBracket then .trailingComma else .trailingCharacters)
    else malformed .trailingCharacters

def readElements (read : Bytes → Except Fault (α × Bytes)) :
    Bytes → Bool → Bytes → Except Fault (List α × Bytes)
  | [], _, _ => malformed .endInList
  | _ :: fuel, first, s => do
    let (more, s) ← nextElement first s
    if more then
      let (a, s) ← read s
      let (as, s) ← readElements read fuel false s
      .ok (a :: as, s)
    else .ok ([], s)

def readList (read : Bytes → Except Fault (α × Bytes)) (s : Bytes) :
    Except Fault (List α × Bytes) :=
  match skipBlanks s with
  | [] => malformed .endInValue
  | b :: r =>
    if b = openBracket then readElements read (b :: r) true r
    else refuse .list (b :: r)

/-- The two ways to write a record. -/
structure Layout (σ α : Type) where
  record : Record
  /-- What is known before the first member. -/
  blank : σ
  member : σ → String → Bytes → Except Fault (σ × Bytes)
  finish : σ → Except Fault α
  elements : Bytes → Except Fault (α × Bytes)

def Layout.read (l : Layout σ α) (s : Bytes) : Except Fault (α × Bytes) :=
  match skipBlanks s with
  | [] => malformed .endInValue
  | b :: r =>
    if b = openBracket then do
      let (a, s) ← l.elements r
      let s ← closeRecord s
      .ok (a, s)
    else if b = openBrace then do
      let (fields, s) ← readMembers l.member (b :: r) true l.blank r
      let a ← l.finish fields
      .ok (a, s)
    else refuse (.record l.record) (b :: r)

end DiceRooms.Wire
