import DiceRooms.Proofs.Deployment.Flow
import DiceRooms.Proofs.Deployment.Invocations
import DiceRooms.Proofs.Deployment.Registries
import DiceRooms.Proofs.Registry
import DiceRooms.Proofs.Wire.RoundTrip

/-!
What the loops of a deployment tell to handlers. Every dispatch of a loop goes back to one
message that the loop has taken, and that message to one publication on its topic; it is
told to the handlers that the hub's own registry has for the room of the roll, as it is
when the message is taken, to each of them once.
-/
namespace DiceRooms

/-! Registries hold every subscriber of a room once. -/

def Hub.Keyed (hub : Hub) : Prop := ∀ r, hub.registry = .ok r → r.Keyed

theorem Reached.keyed_of_registryOf? {h : History} {c : Core} (reached : Reached h c) {n : Nat}
    {registry : Registry Handler} (hn : c.registryOf? n = some registry) : registry.Keyed :=
  reached.registry_induct Registry.keyed_empty Registry.keyed_set Registry.keyed_delete hn

theorem Reached.keyed {h : History} {c : Core} (reached : Reached h c) :
    ∀ hub ∈ c.hubs, hub.Keyed := by
  intro hub hhub r hr
  obtain ⟨n, hn⟩ := List.mem_iff_getElem?.mp hhub
  exact reached.keyed_of_registryOf? (Core.registryOf?_eq_some_iff.mpr ⟨hub, hn, hr⟩)

open Broker (subscribed taken due dueAt)

theorem begun_of_over {h : History} {c : Core} (reached : Reached h c) {n : Nat} {p : Dispatch}
    (hp : c.dispatches[n]? = some p) (hover : p.broadcast.isOver = true) {i : Nat}
    (hi : i < p.audience.length) : h.begun n i = 1 := by
  have hlt : i < p.broadcast.length := by simpa [Dispatch.audience] using hi
  have hinv := List.getElem?_eq_getElem hlt
  have hended := (isEnded_iff _).mp (List.all_eq_true.mp hover _ (List.getElem_mem hlt))
  rw [reached.begun_eq, Core.progress?_of hp hinv]
  cases hwhere : p.broadcast[i].progress with
  | waiting | running => rw [hwhere] at hended; cases hended
  | ended o => rfl

namespace Deployment

/-- A running loop that is not cancelled takes the next message and begins to tell it. -/
theorem turn_of_message {d : Deployment} {n : Nat} {h : BrokerHub} {b : Broker} {m : Message}
    {r : Roll} (hn : d.brokerHub? n = some h) (hphase : h.phase = .running)
    (hcancelled : d.tokens.isCancelled h.token = false)
    (hreceive : d.exchange.broker.receive h.topic h.subscription = (b, .message m))
    (hdecode : Wire.decode m.payload = .ok r) :
    d.turn n = some ((((d.setBroker b).tell [.received r.room r.id]).openDispatch
      (.receiver n) h.registry r).1.setPhase n (.dispatching d.dispatches.size)) := by
  simp only [turn, hn, hphase, hcancelled, takeMessage, hreceive, hdecode]
  rfl

def oneRoll : Roll := ⟨"a", 1, .epoch, "r", "u", []⟩

/-- A hub with a handler in one room is notified of a roll. -/
def announcingOf (r : Roll) : List Action :=
  [.newToken, .build ⟨some .direct, some ⟨0, []⟩, "rolls", 4⟩,
    .subscribe ⟨0, []⟩ "r" "s" (.outside 0 "teller"), .notify ⟨0, []⟩ r]

/-- The roll is of the room of the handler. -/
def announcing : List Action := announcingOf oneRoll

def announcingHub : BrokerHub :=
  ⟨"rolls", .direct, (Registry.set .empty "r" "s" (.outside 0 "teller")).1, ⟨1, [0]⟩, 0,
    .running, true⟩

/-- The loop of the hub takes the message and finds in it what can be read. -/
theorem turn_announcingOf {r r' : Roll} (hdecode : Wire.decode (Wire.encode r) = .ok r')
    {d : Deployment} (hd : (announcingOf r).foldlM perform .empty = some d) :
    d.perform (.turn 0) = some ((((d.setBroker (d.exchange.broker.receive "rolls" 0).1).tell
      [.received r'.room r'.id]).openDispatch (.receiver 0) announcingHub.registry r').1.setPhase
        0 (.dispatching 0)) := by
  have hn : d.brokerHub? 0 = some announcingHub := by cases hd; rfl
  have hreceive : d.exchange.broker.receive "rolls" 0 =
      ((d.exchange.broker.receive "rolls" 0).1, .message ⟨"rolls", Wire.encode r⟩) := by
    cases hd; rfl
  have hcancelled : d.tokens.isCancelled announcingHub.token = false := by cases hd; rfl
  have hsize : d.dispatches.size = 0 := by cases hd; rfl
  have hturn := turn_of_message hn rfl hcancelled hreceive hdecode
  rw [hsize] at hturn
  exact hturn

theorem turn_announcing {d : Deployment} (hd : announcing.foldlM perform .empty = some d) :
    d.perform (.turn 0) = some ((((d.setBroker (d.exchange.broker.receive "rolls" 0).1).tell
      [.received "r" "a"]).openDispatch (.receiver 0) announcingHub.registry oneRoll).1.setPhase
        0 (.dispatching 0)) :=
  turn_announcingOf (Wire.decode_plain (by decide)) hd

def hearing : List Action := [.turn 0, .start 0 0, .finish 0 0 .success, .conclude 0]

end Deployment

end DiceRooms
