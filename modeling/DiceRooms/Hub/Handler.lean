/-!
Handlers and the ways their runs end. A handler from outside may do as it likes, so
it is only known by a number and a name; the handler of a feed is the library's own.
-/
namespace DiceRooms

inductive Handler
  | outside (number : Nat) (name : String)
  /-- Ignores every roll. -/
  | idle
  /-- Passes rolls on to the feed of the given number. -/
  | feed (number : Nat)
deriving DecidableEq

def Handler.name : Handler → String
  | outside _ name => name
  | idle => "NoOpHandler"
  | feed _ => "FeedHandler"

/-- What a panicking handler leaves behind. -/
inductive PanicPayload
  | text (s : String)
  | untold
deriving DecidableEq

inductive Outcome
  | success
  | failure (reason : String)
  | panic (payload : PanicPayload)
deriving DecidableEq

namespace Outcome

/-- The reason of a run that did not succeed. -/
def reason? : Outcome → Option String
  | success => none
  | failure reason => some reason
  | panic (.text s) => some ("handler panicked: " ++ s)
  | panic .untold => some "handler panicked: unknown panic"

theorem reason?_eq_none_iff (o : Outcome) : o.reason? = none ↔ o = .success := by
  cases o with
  | success => simp [reason?]
  | failure reason => simp [reason?]
  | panic payload => cases payload <;> simp [reason?]

end Outcome

end DiceRooms
