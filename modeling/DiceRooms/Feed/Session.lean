import DiceRooms.Feed.Row
import DiceRooms.Hub.Handler

/-!
A viewer's two streams: rows for the history and the bare ids of new rolls. Either can
be dropped without harm to the other; only when both are gone does the handler fail. It sends
to one stream after the other, and nothing keeps another call of it from coming in between.
-/
namespace DiceRooms

structure Stream (α : Type) where
  isOpen : Bool
  /-- What has been sent and not yet read. -/
  unread : List α
deriving DecidableEq

namespace Stream

def fresh : Stream α := ⟨true, []⟩

def send (s : Stream α) (a : α) : Stream α :=
  if s.isOpen then { s with unread := s.unread ++ [a] } else s

def drop (_ : Stream α) : Stream α := ⟨false, []⟩

def drain (s : Stream α) : Stream α := { s with unread := [] }

end Stream

/-- A call of a handler: an invocation of a dispatch. -/
structure HandlerCall where
  dispatch : Nat
  invocation : Nat
deriving DecidableEq

structure Feed where
  rows : Stream Row
  notifications : Stream String
  /-- The calls of the handler that have sent a row to somebody and no id yet. -/
  halfway : List HandlerCall
deriving DecidableEq

namespace Feed

def fresh : Feed := ⟨.fresh, .fresh, []⟩

/-- The first half of a call of the handler. -/
def sendRow (f : Feed) (c : HandlerCall) (r : Roll) : Feed :=
  { f with
    rows := f.rows.send (.ofRoll r)
    halfway := if f.rows.isOpen then c :: f.halfway else f.halfway }

/-- The second half. -/
def sendId (f : Feed) (c : HandlerCall) (r : Roll) : Feed :=
  { f with
    notifications := f.notifications.send r.id
    halfway := f.halfway.filter (· ≠ c) }

def unheard : Outcome := .failure "feed session is gone"

/-- How the call ends with its second half. -/
def outcome (f : Feed) (c : HandlerCall) : Outcome :=
  if f.halfway.contains c || f.notifications.isOpen then .success else unheard

def drain (f : Feed) : Feed :=
  { f with rows := f.rows.drain, notifications := f.notifications.drain }

/-- Drops both streams, as a session does when it ends. -/
def drop (f : Feed) : Feed :=
  { f with rows := f.rows.drop, notifications := f.notifications.drop }

end Feed

end DiceRooms
