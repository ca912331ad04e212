import DiceRooms.Proofs.Deployment.Settling
import DiceRooms.Proofs.Settings

/-!
A memory hub and a hub on a broker are interchangeable. Whoever calls one of them, and lets
what the call has begun come to its end before the next call, gets the same answers, finds
the same subscribers and sees the same handlers called with the same rolls as with the other,
but for their times: the broker has them in writing, where a leap second within a minute is
the second after it.
-/
namespace DiceRooms

/-- What a user asks of a hub. -/
inductive Call
  | subscribe (room subscriber : String) (h : Handler)
  | unsubscribe (room subscriber : String)
  | notify (r : Roll)

namespace Call

def action (n : Nat) : Call → Action
  | subscribe room subscriber h => .subscribe ⟨n, []⟩ room subscriber h
  | unsubscribe room subscriber => .unsubscribe ⟨n, []⟩ room subscriber
  | notify r => .notify ⟨n, []⟩ r

/-- What the hub of the given number answers at first. -/
def answer (d : Deployment) (n : Nat) : Call → Notified
  | subscribe room subscriber h =>
    .done ((d.subscribe ⟨n, []⟩ room subscriber h).2.map fun _ => ())
  | unsubscribe room subscriber => .done ((d.unsubscribe ⟨n, []⟩ room subscriber).2.map fun _ => ())
  | notify r => (d.notify ⟨n, []⟩ r).2

def change (registry : Registry Handler) : Call → Registry Handler
  | subscribe room subscriber h => (registry.set room subscriber h).1
  | unsubscribe room subscriber => (registry.delete room subscriber).1
  | notify _ => registry

end Call

/-- The rolls that a handler has been called with, in order. -/
def History.received (h : History) (f : Handler) : List Roll :=
  (h.invoked.filter (·.handler = f)).map (·.roll)

/-- What there is to see of a call. -/
structure Observation where
  result : Except HubError Unit
  /-- How many subscribers each room has afterwards. -/
  subscribers : String → Nat
  /-- The rolls that each handler is called with. -/
  received : Handler → List Roll

/-- The same, with the times of the rolls as they are shown. -/
def Observation.settled (o : Observation) : Observation :=
  { o with received := fun f => (o.received f).map Roll.settled }

namespace Deployment

/-- The hub of the given number is called, and then the handlers and its loop take steps until
none is left to take. -/
structure Carries (n : Nat) (d : Deployment) (call : Call) (as : List Action) (d' : Deployment)
    (o : Observation) : Prop where
  run : Run d (call.action n :: as) d'
  settles : ∀ a ∈ as, a.settles = true
  settled : d'.Settled
  result : d'.answer? (call.answer d n) = some o.result
  subscribers : ∀ room, o.subscribers room = d'.subscriberCount n room
  received : ∀ f, o.received f = (d.history (call.action n :: as)).received f

/-- One call after the other, with what is seen of each. -/
inductive Session (n : Nat) : Deployment → List Call → List Observation → Deployment → Prop
  | nil (d : Deployment) : Session n d [] [] d
  | cons {d d₁ d' : Deployment} {call : Call} {calls : List Call} {as : List Action}
      {o : Observation} {os : List Observation} (first : Carries n d call as d₁ o)
      (rest : Session n d₁ calls os d') : Session n d (call :: calls) (o :: os) d'

/-- This is what is seen of the calls, whatever the order in which handlers and loop take their
steps, and however the handlers end. -/
structure Shows (n : Nat) (d : Deployment) (calls : List Call) (os : List Observation) :
    Prop where
  possible : ∃ d', Session n d calls os d'
  only : ∀ {os' d'}, Session n d calls os' d' → os' = os
  /-- No call keeps them busy for ever. -/
  ends : ∀ {before call after os' d'}, calls = before ++ call :: after →
    Session n d before os' d' → ∃ most, ∀ {as d''}, Run d' (call.action n :: as) d'' →
      (∀ a ∈ as, a.settles = true) → as.length ≤ most

end Deployment

/-! What is seen of a call, told by the registry of the hub. -/

def Call.observed (w : Passage) (registry : Registry Handler) (call : Call) : Observation where
  result := .ok ()
  subscribers := (call.change registry).subscriberCount
  received := match call with
    | .notify r =>
      fun f => List.replicate ((registry.snapshot r.room).countP (·.2 = f)) (w.arrives r)
    | _ => fun _ => []

def observe (w : Passage) (registry : Registry Handler) : List Call → List Observation
  | [] => []
  | call :: calls => call.observed w registry :: observe w (call.change registry) calls

theorem Tokens.isCancelled_of_nil {ts : Tokens} (h : ts.cancelled = []) (t : Token) :
    ts.isCancelled t = false := by
  simp [isCancelled, h]

namespace Rests

variable {c : Core} {registry : Registry Handler} {w : Passage}

/-- A change of the registry leaves nothing to do. -/
theorem change (rests : Rests c registry w) {e : Event} {f : Registry Handler → Registry Handler}
    (hhubs : e.hubs c.hubs = c.hubs.modify 0 (Hub.mapRegistry f)) (hmove : e.move = .stay)
    (hdispatches : e.dispatches c.dispatches = c.dispatches)
    (htokens : e.tokens c.tokens = c.tokens) : Rests (c.apply e) (f registry) w where
  alone := rests.alone.change hhubs (congrArg c.broker.apply hmove) htokens
  concluded p hp := by
    have hp : p ∈ e.dispatches c.dispatches := hp
    rw [hdispatches] at hp
    exact rests.concluded p hp

end Rests

namespace Deployment

variable {h : History} {d d' : Deployment} {registry : Registry Handler} {w : Passage}

/-- What a call does to a hub at rest, before anybody else takes a step. -/
inductive Begins (d d₁ : Deployment) (registry : Registry Handler) (w : Passage) (call : Call) :
    Prop
  /-- The registry changes, and there is nothing else to do. -/
  | change (rests : Rests d₁.core (call.change registry) w)
      (answer : call.answer d 0 = .done (.ok ()))
      (nobody : ∀ f, (call.observed w registry).received f = [])
  /-- The roll is on its way, and the caller is answered at once or when it has been told. -/
  | tell (r : Roll) (left : Nat) (notifies : call = .notify r)
      (works : Works d₁.core registry w (w.arrives r) d.core.dispatches.length left)
      (answer : call.answer d 0 = .done (.ok ()) ∨
        call.answer d 0 = .dispatched d.core.dispatches.length)

/-- The hub has come to rest after a call, which has been answered well, and the handlers
have been called as its registry tells. -/
structure Answered (d : Deployment) (registry : Registry Handler) (w : Passage) (call : Call)
    (as : List Action) (d' : Deployment) : Prop where
  rests : Rests d'.core (call.change registry) w
  result : d'.answer? (call.answer d 0) = some (.ok ())
  received : ∀ f, (d.history (call.action 0 :: as)).received f =
    (call.observed w registry).received f

/-- A process with nothing but a memory hub. -/
def withMemoryHub : Deployment := (empty.addHub (.memory .empty)).1

end Deployment

end DiceRooms
