import DiceRooms.Proofs.Broker.Interleaving
import DiceRooms.Proofs.Deployment.Roster
import Mathlib.Data.List.Nodup

/-!
The table of the broker counted. On every topic it has the loops that have not stopped and
those who listen by hand, each of them once and nobody else.
-/
namespace DiceRooms

/-- The loop of a hub on the topic has not stopped. -/
def Hub.livesOn (topic : String) : Hub → Bool
  | broker h => h.topic = topic ∧ h.phase ≠ .stopped
  | _ => false

/-- The subscription of a hub whose loop lives on the topic. -/
def Hub.liveOn? (topic : String) (hub : Hub) : Option Nat :=
  if hub.livesOn topic then hub.broker?.map (·.subscription) else none

/-- A loop that has closed its channel leaves before anything else happens. -/
def History.Uninterrupted (h : History) : Prop :=
  ∀ s ∈ h, ∀ n hub, s.1.brokerHub? n = some hub → hub.phase = .closed → s.2.leaves n = true

theorem Hub.liveOn?_eq_some_iff {topic : String} {hub : Hub} {id : Nat} :
    hub.liveOn? topic = some id ↔
      ∃ h, hub = .broker h ∧ h.topic = topic ∧ h.phase ≠ .stopped ∧ h.subscription = id := by
  cases hub with
  | broker h => simp [liveOn?, livesOn, broker?, and_assoc]
  | memory | bare | failing => simp [liveOn?, livesOn]

theorem Hub.isSome_liveOn? (topic : String) (hub : Hub) :
    (hub.liveOn? topic).isSome = hub.livesOn topic := by
  cases hub with
  | broker h => simp only [liveOn?, broker?]; split <;> simp_all
  | memory | bare | failing => rfl

/-- Values that each come from one place only. -/
theorem nodup_filterMap_of_places {α β : Type} {f : α → Option β} {l : List α}
    (h : ∀ (i j : Nat) a b x, l[i]? = some a → l[j]? = some b →
      f a = some x → f b = some x → i = j) :
    (l.filterMap f).Nodup := by
  induction l with
  | nil => exact .nil
  | cons a l ih =>
      have hrest := ih fun i j b b' x hb hb' hx hx' =>
        Nat.succ.inj (h (i + 1) (j + 1) b b' x hb hb' hx hx')
      rw [List.filterMap_cons]
      cases hx : f a with
      | none => exact hrest
      | some x =>
          refine List.nodup_cons.mpr ⟨fun hmem => ?_, hrest⟩
          obtain ⟨b, hb, hbx⟩ := List.mem_filterMap.mp hmem
          obtain ⟨j, hj⟩ := List.mem_iff_getElem?.mp hb
          cases h 0 (j + 1) a b x rfl hj hx hbx

section
variable {h : History} {c : Core}

theorem mem_liveOn?_iff {topic : String} {id : Nat} :
    id ∈ c.hubs.filterMap (Hub.liveOn? topic) ↔ ∃ n hub, c.brokerHub? n = some hub ∧
      hub.topic = topic ∧ hub.phase ≠ .stopped ∧ hub.subscription = id := by
  rw [List.mem_filterMap]
  constructor
  · rintro ⟨_, hmem, hlives⟩
    obtain ⟨n, hn⟩ := List.mem_iff_getElem?.mp hmem
    obtain ⟨hub, rfl, hon⟩ := Hub.liveOn?_eq_some_iff.mp hlives
    exact ⟨n, hub, Core.brokerHub?_eq_some_iff.mpr hn, hon⟩
  · rintro ⟨n, hub, hn, hlives⟩
    exact ⟨_, List.mem_of_getElem? (Core.brokerHub?_eq_some_iff.mp hn),
      Hub.liveOn?_eq_some_iff.mpr ⟨hub, rfl, hlives⟩⟩

theorem mem_listeners_iff {ls : List Listener} {topic : String} {id : Nat} :
    id ∈ (ls.filter (·.topic = topic)).map Listener.subscription ↔
      ∃ l ∈ ls, l.topic = topic ∧ l.subscription = id := by
  simp [and_assoc]

theorem nodup_liveOn? (reached : Reached h c) (topic : String) :
    (c.hubs.filterMap (Hub.liveOn? topic)).Nodup := by
  refine nodup_filterMap_of_places fun i j a b id ha hb hida hidb => ?_
  obtain ⟨hub, rfl, -, -, hsame⟩ := Hub.liveOn?_eq_some_iff.mp hida
  obtain ⟨hub', rfl, -, -, hsame'⟩ := Hub.liveOn?_eq_some_iff.mp hidb
  exact reached.housed.distinct i j hub hub' (Core.brokerHub?_eq_some_iff.mpr ha)
    (Core.brokerHub?_eq_some_iff.mpr hb) (hsame.trans hsame'.symm)

/-- If nothing comes between, a loop that has closed its channel is still registered. -/
theorem registered_of_closed (reached : Reached h c) (orderly : ∀ s ∈ h, Orderly s)
    (uninterrupted : h.Uninterrupted) {n : Nat} {hub : BrokerHub}
    (hn : c.brokerHub? n = some hub) (hclosed : hub.phase = .closed) :
    hub.subscription ∈ c.broker.subscriptions hub.topic := by
  cases reached with
  | start => cases hn
  | @step h c e before possible =>
      obtain ⟨hbefore, hlast⟩ := List.forall_mem_append.mp orderly
      rcases Core.of_brokerHub?_apply possible hn with ⟨-, capacity, rfl⟩ | ⟨old, hold, rfl⟩
      · rw [possible.2.1] at hclosed
        cases hclosed
      · rw [Event.topic_onHub, Event.subscription_onHub]
        rcases phase_of_turn_or_not before possible hold with
          ⟨t, rfl, hturn, hphase⟩ | ⟨hnot, hphase⟩
        · rw [hphase] at hclosed
          cases t with
          | close =>
              have hdraining : old.phase = .draining := hturn
              have fed := (before.roster hbefore).fed hold (by rw [hdraining]; rfl)
              have hstays : ¬ c.broker.Expels old.topic old.subscription
                  (.close old.subscription) := id
              exact Broker.mem_subscriptions_of_not_expels fed.1 hstays
          | cancelled | channelClosed | undecodable | dispatch | leave => cases hclosed
        · have hearlier : old.phase = .closed := by
            rcases hphase with hsame | ⟨-, hruns⟩
            · exact hsame.symm.trans hclosed
            · rw [hruns] at hclosed
              cases hclosed
          have hleaves := uninterrupted _ (List.mem_append_right _ List.mem_cons_self) n old hold
            hearlier
          obtain ⟨hub', arrives, hevent⟩ := Event.leaves_iff.mp hleaves
          dsimp only at hevent
          subst hevent
          obtain ⟨rfl, -⟩ := Event.of_turn possible hold
          exact (hnot _ rfl).elim

/-- The table has the loops on the topic that have not stopped, and those who listen by hand. -/
theorem subscriptions_perm (reached : Reached h c) (orderly : ∀ s ∈ h, Orderly s)
    (uninterrupted : h.Uninterrupted) (topic : String) :
    (c.broker.subscriptions topic).Perm (c.hubs.filterMap (Hub.liveOn? topic) ++
      (h.listeners.filter (·.topic = topic)).map Listener.subscription) := by
  have roster := reached.roster orderly
  refine (List.perm_ext_iff_of_nodup (reached.account.tidy.nodup topic) ?_).mpr fun id => ?_
  · refine List.nodup_append.mpr ⟨nodup_liveOn? reached topic,
      roster.distinct.sublist (List.filter_sublist.map _), ?_⟩
    intro id hid id' hid'
    obtain ⟨n, hub, hn, -, -, rfl⟩ := mem_liveOn?_iff.mp hid
    obtain ⟨l, hl, -, rfl⟩ := mem_listeners_iff.mp hid'
    exact roster.others hl hn
  · rw [List.mem_append, mem_liveOn?_iff, mem_listeners_iff]
    constructor
    · intro hid
      rcases roster.known hid with ⟨n, hub, hn, rfl⟩ | hl
      · obtain ⟨capacity, hmade⟩ := reached.housed.made n hub hn
        obtain rfl := reached.account.own_topic hmade topic hid
        exact .inl ⟨n, hub, hn, rfl, fun hstopped => roster.stopped hn hstopped hid, rfl⟩
      · exact .inr hl
    · rintro (⟨n, hub, hn, rfl, hlives, rfl⟩ | ⟨l, hl, rfl, rfl⟩)
      · cases hphase : hub.phase with
        | stopped => exact (hlives hphase).elim
        | closed => exact registered_of_closed reached orderly uninterrupted hn hphase
        | running | dispatching | draining => exact (roster.fed hn (by rw [hphase]; rfl)).1
      · exact (roster.listens hl).1

end

/-! What is asked of those who use the broker, in terms of what they do. -/

namespace Action

/-- The subscription that somebody goes to without a hub. -/
def byHand? : Action → Option Nat
  | receive _ id | closeChannel id | leave _ id => some id
  | _ => none

/-- The hub whose loop takes a turn. -/
def turn? : Action → Option Nat
  | turn n => some n
  | _ => none

end Action

namespace Deployment

def subscription? (d : Deployment) (n : Nat) : Option Nat := (d.brokerHub? n).map (·.subscription)

/-- The loop has closed its channel and has yet to leave. -/
def leaving (d : Deployment) (n : Nat) : Bool := (d.brokerHub? n).any (·.phase = .closed)

end Deployment

namespace Trace

/-- Nobody goes by hand to the subscription of a hub, which only its loop has. -/
def HandsOff (tr : Trace) : Prop :=
  ∀ s ∈ tr, ∀ n < s.1.hubs.length, ∀ id ∈ s.2.byHand?, s.1.subscription? n ≠ some id

/-- A loop that has closed its channel leaves before anything else happens. -/
def Uninterrupted (tr : Trace) : Prop :=
  ∀ s ∈ tr, ∀ n < s.1.hubs.length, s.1.leaving n = true → s.2.turn? = some n

instance (tr : Trace) : Decidable tr.HandsOff :=
  inferInstanceAs (Decidable (∀ s ∈ tr, ∀ n < s.1.hubs.length, ∀ id ∈ s.2.byHand?,
    s.1.subscription? n ≠ some id))

instance (tr : Trace) : Decidable tr.Uninterrupted :=
  inferInstanceAs (Decidable (∀ s ∈ tr, ∀ n < s.1.hubs.length, s.1.leaving n = true →
    s.2.turn? = some n))

end Trace

namespace Deployment

variable {d : Deployment} {as : List Action}

theorem lt_of_brokerHub? {n : Nat} {hub : BrokerHub} (hn : d.brokerHub? n = some hub) :
    n < d.hubs.length := by
  rw [← brokerHub?_core] at hn
  exact (List.getElem?_eq_some_iff.mp (Core.brokerHub?_eq_some_iff.mp hn)).1

theorem mem_history_iff {s : Core × Event} :
    s ∈ d.history as ↔ ∃ t ∈ d.trace as, (t.1.core, t.1.event t.2) = s := by
  rw [history_eq_trace, List.mem_map]

theorem orderly_of_handsOff (run : Run .empty as d)
    (direct : ∀ {n hub}, d.brokerHub? n = some hub → hub.route = .direct)
    (handsOff : (trace .empty as).HandsOff) : ∀ s ∈ history .empty as, Orderly s := by
  intro s hs
  obtain ⟨⟨d₀, a⟩, ht, rfl⟩ := mem_history_iff.mp hs
  constructor
  · intro move hmove n hub hn htarget
    rw [brokerHub?_core] at hn
    have hapart := handsOff _ ht n (lt_of_brokerHub? hn)
    rw [subscription?, hn] at hapart
    cases byHand_of_event hmove with
    | receive | close | leave => exact hapart _ rfl htarget.symm
    | listen | publish => cases htarget
  · intro n hub arrives hevent
    obtain ⟨before, hat⟩ := History.at_of_mem hs
    have possible := run.reached.possible_of_mem hs
    have harrives := arrives_event d₀ a
    dsimp only at hevent
    rw [hevent] at possible harrives
    obtain ⟨hub', hn', hroute⟩ := run.reached.hub_keeps BrokerHub.route
      (fun e hub => e.route_onHub n hub) hat possible.1
    rw [brokerHub?_core] at hn'
    exact harrives (hroute.symm.trans (direct hn'))

theorem uninterrupted_history (uninterrupted : (trace .empty as).Uninterrupted) :
    (history .empty as).Uninterrupted := by
  intro s hs n hub hn hclosed
  obtain ⟨⟨d₀, a⟩, ht, rfl⟩ := mem_history_iff.mp hs
  rw [brokerHub?_core] at hn
  have hturn := uninterrupted _ ht n (lt_of_brokerHub? hn) (by simp [leaving, hn, hclosed])
  cases a with
  | turn k =>
      cases hturn
      simp [event, turnEvent, hn, hclosed, Event.leaves]
  | _ => cases hturn

end Deployment

/-- What the broker has in its table after a run. -/
structure InStep (as : List Action) (d : Deployment) : Prop where
  /-- A running loop stands in it once, under its own topic. -/
  running : ∀ {n hub}, d.brokerHub? n = some hub → hub.phase.state = .running → ∀ topic,
    (d.exchange.broker.subscriptions topic).count hub.subscription =
      if topic = hub.topic then 1 else 0
  stopped : ∀ {n hub}, d.brokerHub? n = some hub → hub.phase = .stopped → ∀ topic,
    hub.subscription ∉ d.exchange.broker.subscriptions topic
  /-- No two registrations have the same number, be it on one topic or on two. -/
  nodup : ∀ topic, (d.exchange.broker.subscriptions topic).Nodup
  disjoint : ∀ {topic topic' id}, id ∈ d.exchange.broker.subscriptions topic →
    id ∈ d.exchange.broker.subscriptions topic' → topic = topic'
  count : (Deployment.trace .empty as).Uninterrupted → ∀ topic,
    d.exchange.broker.subscriptionCount topic = d.hubs.countP (Hub.livesOn topic) +
      (Deployment.history .empty as).listeners.countP (·.topic = topic)
  /-- When a loop is about to leave, it will be told that it has. -/
  leaves : (Deployment.trace .empty as).Uninterrupted → ∀ {n hub}, d.brokerHub? n = some hub →
    hub.phase = .closed →
    (d.exchange.unsubscribe hub.route hub.topic hub.subscription).2.2 = .ok ()

namespace Deployment

variable {d : Deployment} {as : List Action}

/-- The table of a broker that hubs use directly is in step with their loops. -/
theorem table_in_step (run : Run .empty as d)
    (direct : ∀ {n hub}, d.brokerHub? n = some hub → hub.route = .direct)
    (handsOff : (trace .empty as).HandsOff) : InStep as d := by
  have orderly := orderly_of_handsOff run direct handsOff
  have reached := run.reached
  have roster := reached.roster orderly
  have htopic : ∀ {n hub topic}, d.brokerHub? n = some hub →
      hub.subscription ∈ d.exchange.broker.subscriptions topic → topic = hub.topic := by
    intro n hub topic hn hid
    obtain ⟨capacity, hmade⟩ := reached.housed.made n hub ((brokerHub?_core d n).trans hn)
    exact reached.account.own_topic hmade topic hid
  constructor
  · intro n hub hn hruns topic
    split
    · next heq =>
        subst heq
        exact List.count_eq_one_of_mem (reached.account.tidy.nodup hub.topic)
          (roster.fed ((brokerHub?_core d n).trans hn) (Phase.holds_of_running hruns)).1
    · next hne => exact List.count_eq_zero_of_not_mem fun hid => hne (htopic hn hid)
  · intro n hub hn hstopped topic hid
    obtain rfl := htopic hn hid
    exact roster.stopped ((brokerHub?_core d n).trans hn) hstopped hid
  · exact reached.account.tidy.nodup
  · intro topic topic' id hid hid'
    obtain ⟨capacity, hmade⟩ := reached.account.own topic id hid
    exact (reached.account.own_topic hmade topic' hid').symm
  · intro uninterrupted topic
    have hperm := subscriptions_perm reached orderly (uninterrupted_history uninterrupted) topic
    rw [Broker.subscriptionCount]
    refine hperm.length_eq.trans ?_
    rw [List.length_append, List.length_map, List.length_filterMap_eq_countP,
      ← List.countP_eq_length_filter]
    simp only [Hub.isSome_liveOn?]
    rfl
  · intro uninterrupted n hub hn hclosed
    have hid := registered_of_closed reached orderly (uninterrupted_history uninterrupted)
      ((brokerHub?_core d n).trans hn) hclosed
    rw [direct hn]
    exact Broker.unsubscribe_of_mem hid

/-- Three hubs and three who listen by hand. One of these closes its channel before something is
published on the topic, one gives up, and the third closes its channel in the end; one hub
stops, and another one has only closed its channel. -/
def coming : List Action :=
  [.newToken, .build ⟨some .direct, some ⟨0, []⟩, "rolls", 1⟩,
    .build ⟨some .direct, some ⟨0, []⟩, "rolls", 1⟩,
    .build ⟨some .direct, some ⟨0, []⟩, "news", 1⟩, .listen "rolls" 1 false,
    .listen "rolls" 1 false, .listen "rolls" 1 false, .closeChannel 3, .publish ⟨"rolls", [1]⟩,
    .leave "rolls" 4, .closeChannel 5, .shutdown 1, .turn 1, .turn 1, .turn 1, .shutdown 2,
    .turn 2, .turn 2]

theorem table_in_step_coming :
    ∃ d hub, Run .empty coming d ∧ d.brokerHub? 2 = some hub ∧ InStep coming d ∧
      d.exchange.broker.subscriptions "rolls" = [0, 5] ∧
      d.exchange.broker.subscriptionCount "rolls" = 1 + 1 ∧
      (d.exchange.unsubscribe hub.route hub.topic hub.subscription).2.2 = .ok () := by
  obtain ⟨d, hd⟩ : ∃ d, coming.foldlM perform .empty = some d := ⟨_, rfl⟩
  have run := run_iff.mpr hd
  have direct : ∀ {n hub}, d.brokerHub? n = some hub → hub.route = .direct := by
    intro n hub hn
    have hall : ∀ n < d.hubs.length, (d.brokerHub? n).all (·.route = .direct) = true := by
      cases hd
      decide
    simpa [hn] using hall n (lt_of_brokerHub? hn)
  have uninterrupted : (trace .empty coming).Uninterrupted := by decide
  have inStep := table_in_step run direct (by decide)
  obtain ⟨hub, hn, hclosed⟩ : ∃ hub, d.brokerHub? 2 = some hub ∧ hub.phase = .closed := by
    cases hd
    exact ⟨_, rfl, rfl⟩
  refine ⟨d, hub, run, hn, inStep, ?_, ?_, inStep.leaves uninterrupted hn hclosed⟩
  · cases hd
    rfl
  · rw [inStep.count uninterrupted]
    cases hd
    rfl

end Deployment

end DiceRooms
