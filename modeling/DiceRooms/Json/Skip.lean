import DiceRooms.Json.Number
import DiceRooms.Json.Text

/-!
Passing over a value of any depth. The brackets still open are kept on a stack,
innermost first.
-/
namespace DiceRooms.Json

open Ascii

inductive Bracket
  | list
  | object
deriving DecidableEq

namespace Bracket

def closing : Bracket → UInt8
  | list => closeBracket
  | object => closeBrace

/-- The fault of a document that ends inside the bracket. -/
def unclosed : Bracket → Fault
  | list => .endInList
  | object => .endInObject

/-- The fault of an element followed by neither a comma nor the closing mark. -/
def unseparated : Bracket → Fault
  | list => .expectedCommaOrBracket
  | object => .expectedCommaOrBrace

end Bracket

/-- Passes over one word, number or string. -/
def skipScalar : Bytes → Except Fault Bytes
  | [] => .error .endInValue
  | b :: s =>
    if b = 0x6e then readWord wordNull s
    else if b = 0x74 then readWord wordTrue s
    else if b = 0x66 then readWord wordFalse s
    else if b = quote then skipText s
    else if b = minus ∨ isDigit b then skipNumber (b :: s)
    else .error .expectedValue

/-- Passes over the key and the colon of a member. -/
def skipKey (s : Bytes) : Except Fault Bytes :=
  match skipBlanks s with
  | [] => .error .endInObject
  | b :: s =>
    if b ≠ quote then .error .keyNotString
    else do
      let s ← skipText s
      match skipBlanks s with
      | [] => .error .endInObject
      | b :: s => if b = colon then .ok s else .error .expectedColon

def bracketOf? (b : UInt8) : Option Bracket :=
  if b = openBracket then some .list else if b = openBrace then some .object else none

/-- Before an element of the bracket; an object's member starts with its key. -/
def skipToValue (b : Bracket) (s : Bytes) : Except Fault Bytes :=
  match b with
  | .list => .ok s
  | .object => skipKey s

/-- Where the reader stands: behind an opening mark or behind a whole value. -/
inductive Position
  | opened
  | ended
deriving DecidableEq

/-- Goes into a value: an opening mark is put on the stack, a scalar is passed over. -/
def enterValue (stack : List Bracket) (s : Bytes) :
    Except Fault (Position × List Bracket × Bytes) :=
  match skipBlanks s with
  | [] => .error .endInValue
  | b :: r =>
    match bracketOf? b with
    | some bracket => .ok (.opened, bracket :: stack, r)
    | none => (skipScalar (b :: r)).map fun s => (.ended, stack, s)

def enterElement (bracket : Bracket) (stack : List Bracket) (s : Bytes) :
    Except Fault (Position × List Bracket × Bytes) := do
  let s ← skipToValue bracket s
  enterValue (bracket :: stack) s

/-- Passes over what is left until all brackets are closed. Every turn takes an octet, so
the document itself is fuel enough. -/
def skipFrom : Bytes → Position → List Bracket → Bytes → Except Fault Bytes
  | [], _, _, _ => .error .endInValue
  | _ :: _, _, [], s => .ok s
  | _ :: fuel, position, bracket :: stack, s =>
    match skipBlanks s with
    | [] => .error bracket.unclosed
    | b :: r =>
      if b = bracket.closing then skipFrom fuel .ended stack r
      else
        match position with
        | .opened => do
          let (position, stack, s) ← enterElement bracket stack (b :: r)
          skipFrom fuel position stack s
        | .ended =>
          if b = comma then do
            let (position, stack, s) ← enterElement bracket stack r
            skipFrom fuel position stack s
          else .error bracket.unseparated

def skipValue (s : Bytes) : Except Fault Bytes := do
  let (position, stack, rest) ← enterValue [] s
  skipFrom s position stack rest

end DiceRooms.Json
