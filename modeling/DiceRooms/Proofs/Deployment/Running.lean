import DiceRooms.Proofs.Deployment.Shutdown

/-!
What a hub says about its loop. It says that the loop is running only of a loop that has not
ended. As long as nobody waits for the loop to end, it says so of every such loop; while somebody
waits it denies it, even if the loop is telling a roll and is registered with the broker. All
that is left of its word then is that the loop looks for no further message.
-/
namespace DiceRooms

namespace Deployment

variable {as : List Action} {d : Deployment} {n : Nat} {hub : BrokerHub}

/-- The loop is telling the roll to a handler that goes on, and it can be waited for. A call that
has come for its handle waits then. -/
theorem run_telling : ∃ d, Run .empty hanging d ∧ ∃ hub, d.brokerHub? 0 = some hub ∧
    hub.joinable = true ∧ d.core.loopState? 0 = some .running ∧
    ∃ d' hub', Run d [.shutdown 0, .takeHandle 0] d' ∧ d'.brokerHub? 0 = some hub' ∧
      d'.shutdowns = [⟨0, .waiting⟩] ∧ d'.isRunning 0 = false ∧
      d'.core.loopState? 0 = some .running ∧ d'.core.progress? 0 0 = some .running ∧
      hub'.subscription ∈ d'.exchange.broker.subscriptions hub'.topic := by
  obtain ⟨d, hd⟩ : ∃ d, announcing.foldlM perform .empty = some d := ⟨_, rfl⟩
  refine ⟨_, (run_iff.mpr hd).append
    (.cons (turn_announcing hd) (run_iff.mpr (by cases hd; rfl))), ?_⟩
  cases hd
  exact ⟨_, rfl, rfl, rfl, _, _, run_iff.mpr rfl, rfl, rfl, rfl, rfl, rfl,
    List.mem_singleton_self 0⟩

/-- While the caller of `shutdown` waits for a handler that is running, the hub says that its
loop is not running, though the loop is still registered with the broker. -/
theorem denied_while_telling : ∃ d hub, Run .empty (hanging ++ [.shutdown 0, .takeHandle 0]) d ∧
    d.brokerHub? 0 = some hub ∧ d.shutdowns = [⟨0, .waiting⟩] ∧ d.isRunning 0 = false ∧
    d.core.loopState? 0 = some .running ∧ d.core.progress? 0 0 = some .running ∧
    hub.subscription ∈ d.exchange.broker.subscriptions hub.topic := by
  obtain ⟨d, run, -, -, -, -, d', hub', rest, facts⟩ := run_telling
  exact ⟨d', hub', run.append rest, facts⟩

end Deployment

end DiceRooms
