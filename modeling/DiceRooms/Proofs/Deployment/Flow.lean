import DiceRooms.Proofs.Deployment.History

/-!
The flow of messages through a deployment. Hubs and raw receivers share one broker, whose
moves are told by the history; every hub has a channel of its own on its topic. Whatever
is done in whatever order, the messages taken from a channel and those still in it are the
messages that were published for it, but for those that found it full.
-/
namespace DiceRooms

/-- The moves of the broker in a history. -/
def History.moves (h : History) : Broker.History :=
  h.map fun s => (s.1.broker, s.2.move)

theorem History.moves_concat (h : History) (c : Core) (e : Event) :
    History.moves (h ++ [(c, e)]) = h.moves ++ [(c.broker, e.move)] := by
  simp only [moves, List.map_append, List.map_cons, List.map_nil]

theorem Reached.account {h : History} {c : Core} (reached : Reached h c) :
    Broker.Account h.moves c.broker := by
  induction reached with
  | start => exact Broker.account_empty
  | step before possible ih =>
      rw [History.moves_concat]
      exact ih.concat _

/-- Every hub on a broker has a subscription to its topic, and shares it with no other. -/
structure Housed (h : Broker.History) (c : Core) : Prop where
  made : ∀ n hub, c.brokerHub? n = some hub →
    ∃ capacity, (Broker.subscribed h)[hub.subscription]? = some (hub.topic, capacity)
  distinct : ∀ n n' hub hub', c.brokerHub? n = some hub → c.brokerHub? n' = some hub' →
    hub.subscription = hub'.subscription → n = n'

/-- A hub that is there after an event is new, on a new channel of its topic, or was there
before on the same channel. -/
theorem newcomer_or_old {c : Core} {e : Event} (possible : e.Possible c) {n : Nat}
    {hub : BrokerHub} (hn : (c.apply e).brokerHub? n = some hub) :
    (n = c.hubs.length ∧ hub.subscription = c.broker.channels.length ∧
        ∃ capacity, e.move = .subscribe hub.topic capacity) ∨
      ∃ old, c.brokerHub? n = some old ∧ old.topic = hub.topic ∧
        old.subscription = hub.subscription := by
  rcases Core.of_brokerHub?_apply possible hn with ⟨hlength, capacity, rfl⟩ | ⟨old, hold, rfl⟩
  · exact .inl ⟨hlength, possible.2.2.1, capacity, rfl⟩
  · exact .inr ⟨old, hold, (e.topic_onHub n old).symm, (e.subscription_onHub n old).symm⟩

theorem Housed.apply {h : Broker.History} {c : Core} {e : Event} (housed : Housed h c)
    (count : (Broker.subscribed h).length = c.broker.channels.length)
    (possible : e.Possible c) : Housed (h ++ [(c.broker, e.move)]) (c.apply e) := by
  have below : ∀ n old, c.brokerHub? n = some old →
      old.subscription < c.broker.channels.length := by
    intro n old hold
    obtain ⟨capacity, hmade⟩ := housed.made n old hold
    rw [← count]
    exact (List.getElem?_eq_some_iff.mp hmade).1
  constructor
  · intro n hub hn
    rw [Broker.subscribed_concat]
    rcases newcomer_or_old possible hn with ⟨-, hsub, capacity, hmove⟩ | ⟨old, hold, htopic, hsub⟩
    · refine ⟨capacity, ?_⟩
      rw [hmove, hsub, ← count]
      simp [Broker.subscribedAt]
    · obtain ⟨capacity, hmade⟩ := housed.made n old hold
      refine ⟨capacity, ?_⟩
      rw [← htopic, ← hsub,
        List.getElem?_append_left (List.getElem?_eq_some_iff.mp hmade).1]
      exact hmade
  · intro n n' hub hub' hn hn' heq
    rcases newcomer_or_old possible hn with ⟨hlast, hsub, -⟩ | ⟨old, hold, -, hsub⟩
    · rcases newcomer_or_old possible hn' with ⟨hlast', -, -⟩ | ⟨old', hold', -, hsub'⟩
      · rw [hlast, hlast']
      · have := below n' old' hold'
        omega
    · rcases newcomer_or_old possible hn' with ⟨-, hsub', -⟩ | ⟨old', hold', -, hsub'⟩
      · have := below n old hold
        omega
      · exact housed.distinct n n' old old' hold hold' (by rw [hsub, hsub', heq])

theorem Reached.housed {h : History} {c : Core} (reached : Reached h c) :
    Housed h.moves c := by
  induction reached with
  | start => exact ⟨nofun, nofun⟩
  | step before possible ih =>
      rw [History.moves_concat]
      exact ih.apply before.account.count possible

theorem Reached.subscription_lt {h : History} {c : Core} (reached : Reached h c) {n : Nat}
    {hub : BrokerHub} (hn : c.brokerHub? n = some hub) :
    hub.subscription < c.broker.channels.length := by
  obtain ⟨capacity, hmade⟩ := reached.housed.made n hub hn
  rw [← reached.account.count]
  exact (List.getElem?_eq_some_iff.mp hmade).1

namespace Deployment

open Broker (subscribed taken due Quits)

/-- The moves of the broker when the actions are carried out on an empty deployment. -/
def brokerMoves (as : List Action) : Broker.History :=
  (history .empty as).moves

/-- Every channel of every run: what has been taken and what is buffered are the messages
due, no buffer holds more than its capacity, and it is fed until somebody closes the
channel or leaves the topic. Every hub has one of these channels to itself. -/
theorem message_flow {as : List Action} {d : Deployment} (run : Run .empty as d) :
    (∀ id c, d.exchange.broker.channels[id]? = some c →
      ∃ topic, (subscribed (brokerMoves as))[id]? = some (topic, c.capacity) ∧
        taken id (brokerMoves as) ++ c.buffer = due topic c.capacity id (brokerMoves as) ∧
        c.buffer.length ≤ c.capacity ∧
        ((d.exchange.broker.isRegistered topic id = true ∧ c.isOpen = true) ↔
          ∀ s ∈ brokerMoves as, ¬ Quits topic id s)) ∧
    (∀ n h, d.brokerHub? n = some h →
      ∃ capacity, (subscribed (brokerMoves as))[h.subscription]? = some (h.topic, capacity)) ∧
    ∀ n n' h h', d.brokerHub? n = some h → d.brokerHub? n' = some h' →
      h.subscription = h'.subscription → n = n' := by
  have housed := run.reached.housed
  refine ⟨?_, ?_, ?_⟩
  · intro id c hc
    obtain ⟨topic, hmade, hflows⟩ := run.reached.account.exists_flows hc
    refine ⟨topic, hmade, hflows.flow, hflows.bounded, ?_⟩
    rw [Broker.isRegistered_iff]
    exact hflows.fed
  · intro n h hn
    exact housed.made n h ((brokerHub?_core d n).trans hn)
  · intro n n' h h' hn hn'
    exact housed.distinct n n' h h' ((brokerHub?_core d n).trans hn)
      ((brokerHub?_core d n').trans hn')

/-- Three messages for a hub whose channel holds one, the first taken before the third. -/
def overflowing : List Action :=
  [.newToken, .build ⟨some .direct, some ⟨0, []⟩, "rolls", 1⟩, .publish ⟨"rolls", [1]⟩,
    .publish ⟨"rolls", [2]⟩, .turn 0, .publish ⟨"rolls", [3]⟩]

theorem message_flow_overflowing :
    ∃ d, Run .empty overflowing d ∧
      d.exchange.broker.channels[0]? = some ⟨1, [⟨"rolls", [3]⟩], true⟩ ∧
      taken 0 (brokerMoves overflowing) ++ [⟨"rolls", [3]⟩] =
        due "rolls" 1 0 (brokerMoves overflowing) ∧
      (due "rolls" 1 0 (brokerMoves overflowing)).length = 2 := by
  obtain ⟨d, hd⟩ : ∃ d, overflowing.foldlM perform .empty = some d := ⟨_, rfl⟩
  have hc : d.exchange.broker.channels[0]? = some ⟨1, [⟨"rolls", [3]⟩], true⟩ := by
    cases hd
    rfl
  obtain ⟨topic, hmade, hflow, -⟩ := (message_flow (run_iff.mpr hd)).1 0 _ hc
  cases hmade
  exact ⟨d, run_iff.mpr hd, hc, hflow, rfl⟩

end Deployment

end DiceRooms
