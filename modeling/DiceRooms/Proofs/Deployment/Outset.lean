import DiceRooms.Proofs.Deployment.Conduct
import DiceRooms.Proofs.Deployment.Creating
import DiceRooms.Proofs.Deployment.Interchange

/-!
Deployments at the outset, in which nothing has happened but that hubs have been made: a memory
hub, or any number of hubs on one topic, built on any tokens. All is calm in them, and nobody is
registered.
-/
namespace DiceRooms

/-- All hubs have been built on one topic; callers may have made tokens. -/
inductive OnTopic (topic : String) : Deployment → Prop
  | empty : OnTopic topic .empty
  | token {d : Deployment} (before : OnTopic topic d) : OnTopic topic d.newToken.1
  | child {d : Deployment} (before : OnTopic topic d) (parent : Token) :
      OnTopic topic (d.childToken parent).1
  | build {d d' : Deployment} {c : HubConfig} {n : Nat} (before : OnTopic topic d)
      (built : d.buildHub c = (d', .ok n)) (route : c.route = some .direct)
      (on : c.topic = topic) : OnTopic topic d'

/-- Nothing is under way, and nobody is registered. -/
structure Vacant (c : Core) : Prop where
  reached : ∃ h, Reached h c
  attended : Attended c
  nothing : c.dispatches = []
  silent : Silent c
  empty : ∀ {n registry}, c.registryOf? n = some registry → registry = .empty

theorem Vacant.calm {d : Deployment} (vacant : Vacant d.core) : d.Calm where
  reached := vacant.reached
  attended := vacant.attended
  still := by
    refine ⟨fun p hp => ?_, vacant.silent⟩
    rw [vacant.nothing] at hp
    cases hp

theorem vacant_withMemoryHub : Vacant Deployment.withMemoryHub.core where
  reached := by
    have run : Deployment.Run .empty [.openMemory] .withMemoryHub := .single rfl
    exact ⟨_, run.reached⟩
  attended := .memory .empty rfl
  nothing := rfl
  silent := by
    intro n hub hn
    cases n <;> cases hn
  empty := by
    intro n registry hn
    cases n with
    | zero => exact (Option.some.inj hn).symm
    | succ n => cases hn

/-- Nothing has happened to the hubs of the topic, but that they have been built. -/
structure Built (topic : String) (c : Core) : Prop where
  reached : ∃ h, Reached h c
  uncancelled : c.tokens.cancelled = []
  nothing : c.dispatches = []
  attend : ∀ n < c.hubs.length, ∃ hub, c.brokerHub? n = some hub ∧ Attends c topic hub ∧
    hub.registry = .empty ∧ c.broker.contents hub.subscription = []

namespace Built

variable {topic : String} {c : Core}

theorem token (built : Built topic c) : Built topic (c.apply .token) where
  reached := by
    obtain ⟨h, reached⟩ := built.reached
    exact ⟨_, reached.step (e := .token) trivial⟩
  uncancelled := built.uncancelled
  nothing := built.nothing
  attend n hn := by
    obtain ⟨hub, hthere, attends, hempty, hnone⟩ := built.attend n hn
    exact ⟨hub, hthere, { attends with }, hempty, hnone⟩

theorem build (built : Built topic c) {capacity : Nat} {new : BrokerHub}
    (possible : (Event.build capacity new).Possible c) (hcapacity : 0 < capacity)
    (hroute : new.route = .direct) (htopic : new.topic = topic) :
    Built topic (c.apply (.build capacity new)) where
  reached := by
    obtain ⟨h, reached⟩ := built.reached
    exact ⟨_, reached.step possible⟩
  uncancelled := built.uncancelled
  nothing := built.nothing
  attend n hn := by
    have huncancelled : ∀ t, (c.apply (.build capacity new)).tokens.isCancelled t = false :=
      Tokens.isCancelled_of_nil built.uncancelled
    rw [Core.brokerHub?_apply possible]
    split
    · obtain ⟨hempty, hphase, hsubscription, -⟩ := possible
      have hfeeds := c.broker.feeds_subscribe new.topic hcapacity
      have hnone : (c.broker.apply (.subscribe new.topic capacity)).contents
          c.broker.channels.length = [] := by
        rw [Broker.contents, Broker.channels_subscribe, List.getElem?_concat_length]
        rfl
      rw [← hsubscription] at hfeeds hnone
      exact ⟨new, rfl, ⟨htopic, hroute, by rw [hphase]; rfl, huncancelled new.token, hfeeds⟩,
        hempty, hnone⟩
    · next hold =>
        have hn : n < (c.hubs ++ [Hub.broker new]).length := hn
        rw [List.length_append, List.length_singleton] at hn
        obtain ⟨hub, hthere, attends, hempty, hnone⟩ := built.attend n (by omega)
        rw [hthere]
        refine ⟨hub, rfl, ⟨attends.on, attends.route, attends.runs, huncancelled hub.token,
          attends.feeds.subscribe _ _⟩, hempty, ?_⟩
        exact (attends.feeds.contents_subscribe _ _).trans hnone

theorem vacant (built : Built topic c) : Vacant c where
  reached := built.reached
  attended := .brokers topic fun n hn => by
    obtain ⟨hub, hthere, attends, -⟩ := built.attend n hn
    exact ⟨hub, hthere, attends⟩
  nothing := built.nothing
  silent := by
    intro n hub hn
    have hlt := (List.getElem?_eq_some_iff.mp (Core.brokerHub?_eq_some_iff.mp hn)).1
    obtain ⟨hub', hthere, -, -, hnone⟩ := built.attend n hlt
    cases hn.symm.trans hthere
    exact hnone
  empty := by
    intro n registry hn
    obtain ⟨hub, hhub, -⟩ := Option.bind_eq_some_iff.mp hn
    obtain ⟨hub', hthere, -, hempty, -⟩ := built.attend n (List.getElem?_eq_some_iff.mp hhub).1
    rw [registryOf?_of_brokerHub? hthere] at hn
    exact (Option.some.inj hn).symm.trans hempty

end Built

theorem Deployment.buildEvent_of_built {d d' : Deployment} {c : HubConfig} {n : Nat}
    (built : d.buildHub c = (d', .ok n)) (route : c.route = some .direct) :
    ∃ capacity hub, d.buildEvent c = .build capacity hub ∧ 0 < capacity ∧
      hub.route = .direct ∧ hub.topic = c.topic := by
  rw [buildHub] at built
  rw [buildEvent]
  cases hcheck : c.check with
  | error e =>
      rw [hcheck] at built
      cases built
  | ok checked =>
      obtain ⟨route', token, channel⟩ := checked
      obtain ⟨hroute, hcapacity, -⟩ := of_check hcheck
      obtain rfl := Option.some.inj (route.symm.trans hroute)
      exact ⟨channel.capacity, _, rfl, hcapacity, rfl, rfl⟩

theorem OnTopic.built {topic : String} {d : Deployment} (onTopic : OnTopic topic d) :
    Built topic d.core := by
  induction onTopic with
  | empty => exact ⟨⟨[], .start⟩, rfl, rfl, nofun⟩
  | token _ ih | child _ _ ih => exact ih.token
  | @build d d' c n _ built route on ih =>
      obtain ⟨capacity, new, hevent, hcapacity, hroute, htopic⟩ :=
        Deployment.buildEvent_of_built built route
      have happens := Deployment.happens_buildHub d c
      rw [built, hevent] at happens
      rw [happens.core_eq]
      exact ih.build happens.possible hcapacity hroute (htopic.trans on)

end DiceRooms
