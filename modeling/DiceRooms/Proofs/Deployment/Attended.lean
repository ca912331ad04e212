import DiceRooms.Proofs.Deployment.Awaited
import Mathlib.Algebra.BigOperators.Group.List.Basic

/-!
Deployments in which rolls get around. Either there is a memory hub and nothing else, or all
hubs are on a broker, and their loops run and listen to one topic. This stays so as long as
nobody stops a hub, makes a new one or uses the broker by hand, and a roll that one hub is
notified of is then awaited by all handlers that any hub has for its room.
-/
namespace DiceRooms

namespace Broker

/-- A subscription gets what is published on the topic, if its channel is not full. -/
structure Feeds (b : Broker) (topic : String) (id : Nat) : Prop where
  registered : id ∈ b.subscriptions topic
  channel : ∃ capacity buffer, 0 < capacity ∧ b.channels[id]? = some ⟨capacity, buffer, true⟩

namespace Feeds

variable {b : Broker} {topic : String} {id : Nat}

theorem isOpen (feeds : b.Feeds topic id) : b.isOpen id = true := by
  obtain ⟨-, capacity, buffer, -, hchannel⟩ := feeds
  exact isOpen_eq hchannel

theorem receive (feeds : b.Feeds topic id) (topic' : String) (id' : Nat) :
    (b.apply (.receive topic' id')).Feeds topic id := by
  obtain ⟨registered, capacity, buffer, hcapacity, hchannel⟩ := feeds
  constructor
  · rw [apply, subscriptions_congr (topics_receive b topic' id')]
    exact registered
  · rw [apply, channels_receive, hchannel]
    split
    · exact ⟨capacity, buffer.tail, hcapacity, rfl⟩
    · exact ⟨capacity, buffer, hcapacity, rfl⟩

theorem publish (feeds : b.Feeds topic id) (tidy : b.Tidy) (m : Message) :
    (b.apply (.publish m)).Feeds topic id := by
  obtain ⟨registered, capacity, buffer, hcapacity, hchannel⟩ := feeds
  constructor
  · rw [apply, subscriptions_publish]
    split
    · exact List.mem_filter.mpr ⟨registered, isOpen_eq hchannel⟩
    · exact registered
  · rw [apply, channels_publish b m (tidy.nodup m.topic), hchannel]
    split
    · refine ⟨capacity, (Channel.offer ⟨capacity, buffer, true⟩ m).buffer, hcapacity, ?_⟩
      rw [Option.map_some]
      congr 1
      rw [Channel.offer]
      split <;> rfl
    · exact ⟨capacity, buffer, hcapacity, rfl⟩

theorem subscribe (feeds : b.Feeds topic id) (topic' : String) (capacity : Nat) :
    (b.apply (.subscribe topic' capacity)).Feeds topic id := by
  obtain ⟨registered, capacity', buffer, hcapacity, hchannel⟩ := feeds
  constructor
  · rw [subscriptions_subscribe]
    split
    · next heq => exact List.mem_append_left _ (heq ▸ registered)
    · exact registered
  · have hlt := (List.getElem?_eq_some_iff.mp hchannel).1
    rw [channels_subscribe, List.getElem?_append_left hlt]
    exact ⟨capacity', buffer, hcapacity, hchannel⟩

theorem contents_subscribe (feeds : b.Feeds topic id) (topic' : String) (capacity : Nat) :
    (b.apply (.subscribe topic' capacity)).contents id = b.contents id := by
  obtain ⟨-, capacity', buffer, -, hchannel⟩ := feeds
  have hlt := (List.getElem?_eq_some_iff.mp hchannel).1
  rw [contents, channels_subscribe, List.getElem?_append_left hlt]
  rfl

end Feeds

theorem feeds_subscribe (b : Broker) (topic : String) {capacity : Nat} (hcapacity : 0 < capacity) :
    (b.apply (.subscribe topic capacity)).Feeds topic b.channels.length where
  registered := (b.registered_subscribe topic capacity).1
  channel := by
    rw [channels_subscribe, List.getElem?_concat_length]
    exact ⟨capacity, [], hcapacity, rfl⟩

end Broker

/-- The loop of the hub runs, and what is published on the topic comes to it. -/
structure Attends (c : Core) (topic : String) (hub : BrokerHub) : Prop where
  on : hub.topic = topic
  route : hub.route = .direct
  runs : hub.phase.state = .running
  uncancelled : c.tokens.isCancelled hub.token = false
  feeds : c.broker.Feeds hub.topic hub.subscription

inductive Attended (c : Core) : Prop
  | memory (registry : Registry Handler) (hubs : c.hubs = [.memory registry])
  | brokers (topic : String)
      (attend : ∀ n < c.hubs.length, ∃ hub, c.brokerHub? n = some hub ∧ Attends c topic hub)

namespace Event

/-- A hub is notified, or a handler or a loop goes on by itself. -/
def inside : Event → Bool
  | idle | announce .. | tell .. | proceed .. | conclude .. | turn .. => true
  | _ => false

/-- Nobody makes or stops a hub or uses the broker by hand. -/
def ordinary : Event → Bool
  | register .. | unregister .. => true
  | e => e.inside

theorem ordinary_of_inside {e : Event} (he : e.inside = true) : e.ordinary = true := by
  cases e <;> first | rfl | exact he

theorem length_hubs {e : Event} (he : e.ordinary = true) (hs : List Hub) :
    (e.hubs hs).length = hs.length := by
  cases e with
  | register n room subscriber h | unregister n room subscriber | turn n hub t =>
      exact List.length_modify _ _ _
  | conclude n p =>
      rw [hubs]
      split
      · rfl
      · exact List.length_modify _ _ _
  | hub _ | build _ _ | token | cancel _ | broker _ | detach _ _ => cases he
  | _ => rfl

end Event

section
variable {h : History} {c : Core} {e : Event}

/-- A loop that attends takes messages and does nothing else. -/
theorem Attends.turn {topic : String} {hub : BrokerHub} (attends : Attends c topic hub) {t : Turn}
    (possible : t.Possible c hub) : t.phase.state = .running ∧
      t.move hub = .receive hub.topic hub.subscription ∧ t.taken ≠ [] := by
  cases t with
  | undecodable m | dispatch m r number => exact ⟨rfl, rfl, nofun⟩
  | cancelled => cases attends.uncancelled.symm.trans possible.2
  | channelClosed =>
      exact (Broker.receive_ne_closed attends.feeds.registered attends.feeds.isOpen
        possible.2.2).elim
  | close | leave arrives =>
      have hruns := attends.runs
      rw [show hub.phase = _ from possible] at hruns
      cases hruns

theorem Attends.apply {topic : String} {n : Nat} {hub : BrokerHub} (attends : Attends c topic hub)
    (hruns : (e.onHub n hub).phase.state = .running) (htokens : e.tokens c.tokens = c.tokens)
    (hfeeds : (c.apply e).broker.Feeds hub.topic hub.subscription) :
    Attends (c.apply e) topic (e.onHub n hub) where
  on := (e.topic_onHub n hub).trans attends.on
  route := (e.route_onHub n hub).trans attends.route
  runs := hruns
  uncancelled := by
    have htokens : (c.apply e).tokens = c.tokens := htokens
    rw [htokens, e.token_onHub, attends.uncancelled]
  feeds := by rwa [e.topic_onHub, e.subscription_onHub]

theorem Event.hubs_memory (he : e.ordinary = true) (registry : Registry Handler) :
    ∃ registry', e.hubs [.memory registry] = [.memory registry'] := by
  have hmodify : ∀ (f : Hub → Hub) (k : Nat), (∃ registry', f (.memory registry) =
      .memory registry') → ∃ registry', [Hub.memory registry].modify k f =
        [.memory registry'] := by
    rintro f k ⟨registry', hf⟩
    rw [modify_singleton, hf]
    split
    · exact ⟨registry', rfl⟩
    · exact ⟨registry, rfl⟩
  cases e with
  | idle | announce _ _ _ | tell _ _ _ | proceed _ _ _ _ => exact ⟨registry, rfl⟩
  | register k _ _ _ | unregister k _ _ => exact hmodify _ k ⟨_, rfl⟩
  | turn k _ t => exact hmodify _ k ⟨_, rfl⟩
  | conclude k p =>
      rw [hubs]
      split
      · exact ⟨registry, rfl⟩
      · exact hmodify _ _ ⟨_, rfl⟩
  | hub _ | build _ _ | token | cancel _ | broker _ | detach _ _ => cases he

theorem Attended.apply (attended : Attended c) (reached : Reached h c) (possible : e.Possible c)
    (he : e.ordinary = true) : Attended (c.apply e) := by
  cases attended with
  | memory registry hubs =>
      obtain ⟨registry', hmemory⟩ := e.hubs_memory he registry
      rw [← hubs] at hmemory
      exact .memory registry' hmemory
  | brokers topic attend =>
      refine .brokers topic fun n hn => ?_
      have hn : n < (e.hubs c.hubs).length := hn
      rw [Event.length_hubs he] at hn
      obtain ⟨hub, hthere, attends⟩ := attend n hn
      refine ⟨_, Core.brokerHub?_apply_of_some possible hthere, ?_⟩
      cases e with
      | idle | proceed k i first after | tell endpoint registry r =>
          exact attends.apply attends.runs rfl attends.feeds
      | announce k other r =>
          exact attends.apply attends.runs rfl (attends.feeds.publish reached.account.tidy _)
      | register k room subscriber f | unregister k room subscriber =>
          refine attends.apply ?_ rfl attends.feeds
          rw [Event.phase_onHub]
          exact attends.runs
      | conclude k p =>
          refine attends.apply ?_ rfl attends.feeds
          rw [Event.phase_onHub, Event.phase?]
          split
          · rfl
          · exact attends.runs
      | turn k other t =>
          have hk := (List.getElem?_eq_some_iff.mp (Core.brokerHub?_eq_some_iff.mp possible.1)).1
          obtain ⟨other', hother, attends'⟩ := attend k hk
          obtain ⟨rfl, hturn⟩ := Event.of_turn possible hother
          obtain ⟨hphase, hmove, -⟩ := attends'.turn hturn
          refine attends.apply ?_ rfl ?_
          · rw [Event.phase_onHub, Event.phase?]
            split
            · exact hphase
            · exact attends.runs
          · show (c.broker.apply (t.move other)).Feeds hub.topic hub.subscription
            rw [hmove]
            exact attends.feeds.receive _ _
      | hub _ | build _ _ | token | cancel _ | broker _ | detach _ _ => cases he

/-! Registries do not change by themselves. -/

theorem registryOf?_apply (he : e.inside = true) (n : Nat) :
    (c.apply e).registryOf? n = c.registryOf? n := by
  have hsame : e.onRegistry n = id := by
    cases e with
    | register | unregister => cases he
    | _ => rfl
  by_cases hn : n < c.hubs.length
  · rw [Core.registryOf?_apply e hn, hsame, Option.map_id]
    rfl
  · have hlength := Event.length_hubs (Event.ordinary_of_inside he) c.hubs
    have hnone : (c.apply e).hubs[n]? = none := List.getElem?_eq_none (by
      show (e.hubs c.hubs).length ≤ n
      omega)
    rw [Core.registryOf?, hnone, Core.registryOf?, List.getElem?_eq_none (Nat.le_of_not_lt hn)]

/-- The hub that a dispatch is begun for. -/
def Owner.hub : Owner → Nat
  | caller e => e.hub
  | receiver n => n

/-- A dispatch begins with the handlers that its hub has for the room. -/
theorem registryOf?_of_opened {p : Dispatch} (possible : e.Possible c)
    (hopened : e.opened? = some p) : ∃ registry owner r,
      c.registryOf? owner.hub = some registry ∧ p = .begin owner registry r := by
  rcases Event.opened?_eq_some hopened with ⟨endpoint, registry, r, rfl, rfl⟩ |
    ⟨n, hub, m, r, number, rfl, rfl⟩
  · refine ⟨registry, .caller endpoint, r, ?_, rfl⟩
    rcases possible with hhub | hhub <;> rw [Core.registryOf?, Owner.hub, hhub] <;> rfl
  · exact ⟨hub.registry, .receiver n, r, registryOf?_of_brokerHub? possible.1, rfl⟩

/-! Rest. -/

/-- Nothing waits in any channel of a hub. -/
def Silent (c : Core) : Prop :=
  ∀ {n hub}, c.brokerHub? n = some hub → c.broker.contents hub.subscription = []

structure Still (c : Core) : Prop where
  concluded : ∀ p ∈ c.dispatches, p.concluded = true
  silent : Silent c

theorem Still.not_possible (still : Still c) (attended : Attended c) (reached : Reached h c)
    (he : e.settles = true) : ¬ e.Possible c := by
  intro possible
  cases e with
  | proceed n i first after =>
      obtain ⟨-, p, inv, hp, -, -⟩ := id possible
      have hopen := reached.open_of_proceed possible hp
      rw [still.concluded p (List.mem_of_getElem? hp)] at hopen
      cases hopen
  | conclude n p =>
      have hopen := possible.2.2
      rw [still.concluded p (List.mem_of_getElem? possible.1)] at hopen
      cases hopen
  | turn n hub t =>
      have hn := Core.brokerHub?_eq_some_iff.mp possible.1
      cases attended with
      | memory registry hubs =>
          rw [hubs] at hn
          cases n <;> cases hn
      | brokers topic attend =>
          obtain ⟨hub', hthere, attends⟩ := attend n (List.getElem?_eq_some_iff.mp hn).1
          obtain ⟨rfl, hturn⟩ := Event.of_turn possible hthere
          have hnone := (contents_turn hturn).symm.trans (still.silent hthere)
          exact (attends.turn hturn).2.2 (List.append_eq_nil_iff.mp hnone).1
  | _ => cases he

/-- Nobody is to hear anything. -/
theorem Still.awaits (still : Still c) (reached : Reached h c) (m : Moment) (f : Handler)
    (r : Roll) : c.awaits m f r = 0 := by
  have hhubs : ∀ n ∈ List.range c.hubs.length, c.atHub (BrokerHub.awaitsIn f r) n = 0 := by
    intro n _
    rw [Core.atHub]
    cases hn : c.brokerHub? n with
    | none => rfl
    | some hub =>
        show hub.awaitsIn f r _ = 0
        rw [still.silent hn]
        rfl
  have hdispatches : ∀ p ∈ c.dispatches, p.awaits m f r = 0 := by
    intro p hp
    obtain ⟨n, hn⟩ := List.mem_iff_getElem?.mp hp
    exact Dispatch.awaits_of_over (reached.over_of_concluded hn (still.concluded p hp))
  rw [Core.awaits, Core.inHubs, List.map_congr_left hhubs, List.map_congr_left hdispatches]
  simp

/-! What a notification begins. -/

theorem Broker.Feeds.contents_publish {b : Broker} {m : Message} {id : Nat}
    (feeds : b.Feeds m.topic id) (tidy : b.Tidy) (hnone : b.contents id = []) :
    (b.apply (.publish m)).contents id = [m] := by
  obtain ⟨registered, capacity, buffer, hcapacity, hchannel⟩ := feeds
  rw [contents, hchannel] at hnone
  obtain rfl : buffer = [] := hnone
  rw [contents, apply, channels_publish b m (tidy.nodup m.topic), if_pos registered, hchannel]
  simp [Channel.offer, hcapacity]

variable {m : Moment} {f : Handler} {r r' : Roll}

/-- Every hub of the topic gets the message, and its handlers await the roll, its time settled. -/
theorem atHub_announce (reached : Reached h c) {k : Nat} {hub : BrokerHub}
    (possible : (Event.announce k hub r').Possible c) (silent : Silent c)
    (hplain : Wire.PlainYear r'.createdAt) {n : Nat} {other : BrokerHub}
    (hother : c.brokerHub? n = some other) (htopic : other.topic = hub.topic)
    (feeds : c.broker.Feeds other.topic other.subscription) :
    (c.apply (.announce k hub r')).atHub (BrokerHub.awaitsIn f r) n =
      c.atHub (BrokerHub.awaitsIn f r) n +
        if r'.settled = r then (c.registryOf? n).elim 0 (·.places f r.room) else 0 := by
  have hcontents : (c.apply (.announce k hub r')).broker.contents other.subscription =
      [⟨hub.topic, Wire.encode r'⟩] :=
    (htopic ▸ feeds).contents_publish (m := ⟨hub.topic, Wire.encode r'⟩) reached.account.tidy
      (silent hother)
  have hthere := Core.brokerHub?_apply_of_some (e := .announce k hub r') possible hother
  rw [Core.atHub_of_some hthere, Core.atHub_of_some hother, silent hother,
    registryOf?_of_brokerHub? hother]
  show other.awaitsIn f r ((c.apply (.announce k hub r')).broker.contents
    other.subscription) = _
  simp [hcontents, BrokerHub.awaitsIn, BrokerHub.awaits, Wire.decode_settled hplain]

theorem awaits_announce (reached : Reached h c) {k : Nat} {hub : BrokerHub}
    (possible : (Event.announce k hub r').Possible c) (attended : Attended c) (silent : Silent c)
    (hplain : Wire.PlainYear r'.createdAt) : (c.apply (.announce k hub r')).awaits m f r =
      c.awaits m f r + if r'.settled = r then c.places f r.room else 0 := by
  have hk := Core.brokerHub?_eq_some_iff.mp possible
  cases attended with
  | memory registry hubs =>
      rw [hubs] at hk
      cases k <;> cases hk
  | brokers topic attend =>
      obtain ⟨hub', hthere, attends⟩ := attend k (List.getElem?_eq_some_iff.mp hk).1
      cases possible.symm.trans hthere
      have hafter : ∀ n ∈ List.range c.hubs.length,
          (c.apply (.announce k hub r')).atHub (BrokerHub.awaitsIn f r) n =
            c.atHub (BrokerHub.awaitsIn f r) n +
              if r'.settled = r then (c.registryOf? n).elim 0 (·.places f r.room) else 0 := by
        intro n hn
        obtain ⟨other, hother, attends'⟩ := attend n (List.mem_range.mp hn)
        exact atHub_announce reached possible silent hplain hother
          (attends'.on.trans attends.on.symm) attends'.feeds
      have hhubs : (c.apply (.announce k hub r')).inHubs (BrokerHub.awaitsIn f r) =
          c.inHubs (BrokerHub.awaitsIn f r) + if r'.settled = r then c.places f r.room else 0 := by
        show ((List.range c.hubs.length).map _).sum = _
        rw [List.map_congr_left hafter, List.sum_map_add, Core.inHubs]
        split
        · rfl
        · simp
      show _ + (c.dispatches.map (Dispatch.awaits m f r)).sum = _
      rw [hhubs, Core.awaits]
      omega

theorem awaits_tell (attended : Attended c) {endpoint : Endpoint} {registry : Registry Handler}
    (possible : (Event.tell endpoint registry r').Possible c) :
    (c.apply (.tell endpoint registry r')).awaits m f r =
      c.awaits m f r + if r' = r then c.places f r.room else 0 := by
  have hplaces : c.places f r.room = registry.places f r.room := by
    cases attended with
    | memory registry' hubs =>
        have hregistry : registry' = registry := by
          simp only [Event.Possible, hubs] at possible
          cases hn : endpoint.hub with
          | zero => simpa [hn] using possible
          | succ n => simp [hn] at possible
        subst hregistry
        simp [Core.places, Core.registryOf?, hubs, Hub.registry, Except.toOption]
    | brokers topic attend =>
        -- The hub that is notified works without a broker.
        have hn : endpoint.hub < c.hubs.length := by
          rcases possible with hhub | hhub <;> exact (List.getElem?_eq_some_iff.mp hhub).1
        obtain ⟨hub, hthere, -⟩ := attend _ hn
        rw [Core.brokerHub?_eq_some_iff] at hthere
        rcases possible with hhub | hhub <;> cases hhub.symm.trans hthere
  show c.inHubs _ + ((c.dispatches ++ [_]).map (Dispatch.awaits m f r)).sum = _
  rw [List.map_append, List.sum_append, List.map_singleton, List.sum_singleton,
    Dispatch.awaits_begin, hplaces, Core.awaits, Nat.add_assoc]

end

end DiceRooms
