import DiceRooms.Wire.Fault

/-!
The errors of transports, hubs and the dice service, each by its cause.
-/
namespace DiceRooms

inductive TransportError
  | publish (reason : String)
  | subscribe (reason : String)
  | unsubscribe (reason : String)
deriving DecidableEq

def TransportError.message : TransportError → String
  | .publish reason => "Publish failed: " ++ reason
  | .subscribe reason => "Subscribe failed: " ++ reason
  | .unsubscribe reason => "Unsubscribe failed: " ++ reason

inductive HubError
  /-- Something that a hub cannot be built without. -/
  | configuration (reason : String)
  | transport (operation : String) (cause : TransportError)
  | serialization (cause : Wire.DecodeError)
deriving DecidableEq

def HubError.message : HubError → String
  | .configuration reason => "Invalid configuration: " ++ reason
  | .transport operation cause =>
    "Transport error, could not " ++ operation ++ ": " ++ cause.message
  | .serialization cause => "Serialization error: " ++ cause.message

inductive InvalidRequest
  | noRoom
  | noUser
  | noDice
  | tooManyDice (count : Nat)
deriving DecidableEq

/-- The most dice that are rolled at once. -/
def maxDice : Nat := 100

def InvalidRequest.message : InvalidRequest → String
  | .noRoom => "room id is required"
  | .noUser => "user id is required"
  | .noDice => "minimum dice quantity is 1"
  | .tooManyDice n => "max dice quantity is " ++ toString maxDice ++ ", got " ++ toString n

inductive DiceError
  | invalidRequest (cause : InvalidRequest)
  | roll (reason : String)
  | event (cause : HubError)
deriving DecidableEq

def DiceError.message : DiceError → String
  | .invalidRequest cause => "Invalid request: " ++ cause.message
  | .roll reason => "Could not roll the dice: " ++ reason
  | .event cause => "Event error: " ++ cause.message

end DiceRooms
