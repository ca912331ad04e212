import DiceRooms.Text.Ascii
import DiceRooms.Text.Quoted

/-!
Settings taken from environment variables. A variable that is absent, or whose value
is not UTF-8, leaves its default; of several invalid ones the first in the order hub,
topic, capacity, replicas is reported.
-/
namespace DiceRooms

inductive HubKind
  | memory
  | broker
deriving DecidableEq

def HubKind.name : HubKind → String
  | .memory => "memory"
  | .broker => "broker"

def HubKind.ofName? (s : String) : Option HubKind :=
  [HubKind.memory, .broker].find? (·.name == s)

/-- The topic that all replicas share unless another is named. -/
def defaultTopic : String := "rollify.room.diceroll.create"

/-- How many messages may wait for a receive loop unless set otherwise. -/
def defaultCapacity : Nat := 15

structure Settings where
  hubKind : HubKind
  topic : String
  capacity : Nat
  replicas : Nat
deriving DecidableEq

namespace Settings

def default : Settings := ⟨.memory, defaultTopic, defaultCapacity, 2⟩

inductive Variable
  | hub
  | topic
  | capacity
  | replicas
deriving DecidableEq

def Variable.key : Variable → String
  | .hub => "ROLLIFY_EVENT_HUB"
  | .topic => "ROLLIFY_EVENT_TOPIC"
  | .capacity => "ROLLIFY_DELIVERY_CAPACITY"
  | .replicas => "ROLLIFY_REPLICAS"

inductive NumberFault
  | empty
  | badDigit
  | tooLarge
deriving DecidableEq

def NumberFault.message : NumberFault → String
  | .empty => "cannot parse integer from empty string"
  | .badDigit => "invalid digit found in string"
  | .tooLarge => "number too large to fit in target type"

inductive Reason
  | noHubKind
  | emptyTopic
  | noNumber (f : NumberFault)
  | zero
deriving DecidableEq

def Reason.message : Reason → String
  | .noHubKind => "expected memory or broker"
  | .emptyTopic => "topic can't be empty"
  | .noNumber f => f.message
  | .zero => "must be greater than zero"

structure Invalid where
  setting : Variable
  value : String
  reason : Reason
deriving DecidableEq

def Invalid.message (e : Invalid) : String :=
  "Invalid value " ++ Quoted.quoted e.value ++ " for " ++ e.setting.key ++ ": " ++
    e.reason.message

/-- Adds digits to a number; of a bad digit and a number past `2 ^ 64` the first met
counts. -/
def readDigits (acc : Nat) : Bytes → Except NumberFault Nat
  | [] => .ok acc
  | b :: s =>
    if ¬ Ascii.isDigit b then .error .badDigit
    else
      let n := 10 * acc + Ascii.digitValue b
      if UInt64.size ≤ n then .error .tooLarge else readDigits n s

/-- A number with at most one plus sign in front. -/
def readNumber : Bytes → Except NumberFault Nat
  | [] => .error .empty
  | b :: s =>
    if b = Ascii.plus then if s = [] then .error .badDigit else readDigits 0 s
    else readDigits 0 (b :: s)

def readPositive (s : String) : Except Reason Nat :=
  match readNumber (utf8 s) with
  | .error f => .error (.noNumber f)
  | .ok 0 => .error .zero
  | .ok n => .ok n

def readHubKind (s : String) : Except Reason HubKind :=
  match HubKind.ofName? s with
  | some k => .ok k
  | none => .error .noHubKind

def readTopic (s : String) : Except Reason String :=
  if s = "" then .error .emptyTopic else .ok s

abbrev Environment := List (String × Bytes)

def valueOf (env : Environment) (v : Variable) : Option String :=
  (env.lookup v.key).bind ofUtf8?

/-- The value a variable denotes, or the default where it is unset. -/
def field (env : Environment) (v : Variable) (read : String → Except Reason α) (unset : α) :
    Except Invalid α :=
  match valueOf env v with
  | none => .ok unset
  | some s =>
    match read s with
    | .ok a => .ok a
    | .error r => .error ⟨v, s, r⟩

def ofEnvironment (env : Environment) : Except Invalid Settings := do
  let hubKind ← field env .hub readHubKind default.hubKind
  let topic ← field env .topic readTopic default.topic
  let capacity ← field env .capacity readPositive default.capacity
  let replicas ← field env .replicas readPositive default.replicas
  .ok ⟨hubKind, topic, capacity, replicas⟩

end Settings

end DiceRooms
