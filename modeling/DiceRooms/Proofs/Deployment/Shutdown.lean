import DiceRooms.Proofs.Deployment.Serving

/-!
What callers who shut a hub down can rely on, however their calls overlap. A call cancels the
token of the hub first and comes for the handle of the loop next. One call gets the handle and
waits, so when it returns the loop has stopped, and a loop that has stopped does nothing any more.
The others return at once. They find the loop stopped, too, unless the one with the handle still
waits or has been let go of by its caller; but whatever they find, the loop looks for no
further message.
-/
namespace DiceRooms

/-! A loop that can be waited for no more. -/

theorem Event.gone_onHub {n : Nat} {hub : BrokerHub} (e : Event) (h : hub.joinable = false) :
    (e.onHub n hub).joinable = false := by
  cases e with
  | register _ _ _ _ | unregister _ _ _ | conclude _ _ | turn _ _ _ =>
      simp only [Event.onHub]
      split <;> exact h
  | detach _ _ =>
      simp only [Event.onHub]
      split
      · rfl
      · exact h
  | _ => exact h

theorem Event.joinable_onHub {n : Nat} {hub : BrokerHub} {e : Event}
    (he : ∀ h, e ≠ .detach n h) : (e.onHub n hub).joinable = hub.joinable := by
  cases e with
  | register _ _ _ _ | unregister _ _ _ | conclude _ _ | turn _ _ _ =>
      simp only [Event.onHub]
      split <;> rfl
  | detach k h =>
      have hne : k ≠ n := fun heq => he h (heq ▸ rfl)
      simp [Event.onHub, hne]
  | _ => rfl

/-! A loop that has stopped. -/

theorem Core.loopState?_eq_some_iff {c : Core} {n : Nat} {s : LoopState} :
    c.loopState? n = some s ↔ ∃ hub, c.brokerHub? n = some hub ∧ hub.phase.state = s := by
  rw [loopState?, Option.map_eq_some_iff]

section
variable {h : History} {c : Core} {n : Nat}

theorem Reached.stopped_apply (reached : Reached h c) (hstopped : c.loopState? n = some .stopped)
    {e : Event} (possible : e.Possible c) : (c.apply e).loopState? n = some .stopped := by
  obtain ⟨hub, hn, hstate⟩ := Core.loopState?_eq_some_iff.mp hstopped
  refine Core.loopState?_eq_some_iff.mpr ⟨_, Core.brokerHub?_apply_of_some possible hn, ?_⟩
  have change := stateChange_onHub reached.busy possible hn
  rw [hstate] at change
  generalize (e.onHub n hub).phase.state = after at change
  cases change with
  | none => rfl

end

namespace Deployment

/-! What the calls come to. -/

section
variable {d d' : Deployment} {n : Nat}

theorem isStopped_iff {hub : BrokerHub} (hn : d.brokerHub? n = some hub) :
    d.isStopped n = true ↔ d.core.loopState? n = some .stopped := by
  rw [Core.loopState?, brokerHub?_core, hn, isStopped, hn]
  cases hphase : hub.phase <;> simp [hphase, Phase.state]

end

/-! The steps of the calls. -/

/-- A call gets on, or begins, by an action. -/
inductive GetsOn (d : Deployment) (k : Nat) : Action → Shutdown → Prop
  | stays {a : Action} {s : Shutdown} (hs : d.shutdowns[k]? = some s) : GetsOn d k a s
  | begins {n : Nat} {hub : BrokerHub} (hn : d.brokerHub? n = some hub) :
      GetsOn d k (.shutdown n) ⟨n, .called⟩
  | takes {n : Nat} {hub : BrokerHub} (hs : d.shutdowns[k]? = some ⟨n, .called⟩)
      (hn : d.brokerHub? n = some hub) :
      GetsOn d k (.takeHandle k) ⟨n, if hub.joinable then .waiting else .returned false⟩
  | ends {n : Nat} (hs : d.shutdowns[k]? = some ⟨n, .waiting⟩) (stopped : d.isStopped n = true) :
      GetsOn d k (.endShutdown k) ⟨n, .returned true⟩
  | letGo {n : Nat} (hs : d.shutdowns[k]? = some ⟨n, .waiting⟩) :
      GetsOn d k (.abandonShutdown k) ⟨n, .abandoned⟩

section
variable {d d' : Deployment} {a : Action} {k n : Nat} {s : Shutdown} {hub : BrokerHub}

/-- What a call is after an action it has become by it. -/
theorem getsOn_perform (step : d.perform a = some d') (hs : d'.shutdowns[k]? = some s) :
    GetsOn d k a s := by
  have moves : ∀ {m : Nat} {new : Shutdown}, (d.shutdowns.set m new)[k]? = some s →
      d.shutdowns[k]? = some s ∨ m = k ∧ new = s := by
    intro m new h
    rw [List.getElem?_set] at h
    split at h
    · next heq =>
        split at h
        · exact .inr ⟨heq, Option.some.inj h⟩
        · cases h
    · exact .inl h
  cases a with
  | shutdown n =>
      cases step
      rw [shutdown] at hs
      split at hs
      · exact .stays hs
      · next hub hn =>
          rw [getElem?_concat] at hs
          split at hs
          · cases hs
            exact .begins hn
          · exact .stays hs
  | takeHandle m =>
      obtain ⟨n, hub, hm, hn, rfl⟩ := of_takeHandle step
      rcases moves hs with hold | ⟨rfl, rfl⟩
      · exact .stays hold
      · exact .takes hm hn
  | endShutdown m =>
      obtain ⟨n, hm, hstopped, rfl⟩ := of_endShutdown step
      rcases moves hs with hold | ⟨rfl, rfl⟩
      · exact .stays hold
      · exact .ends hm hstopped
  | abandonShutdown m =>
      obtain ⟨n, hm, rfl⟩ := of_abandonShutdown step
      rcases moves hs with hold | ⟨rfl, rfl⟩
      · exact .stays hold
      · exact .letGo hm
  | _ =>
      rw [shutdowns_of_not_stops step rfl] at hs
      exact .stays hs

/-- The hub of the given number after an action, if it has been there before. -/
theorem brokerHub?_perform (step : d.perform a = some d') (hn : d.brokerHub? n = some hub) :
    d'.brokerHub? n = some ((d.event a).onHub n hub) := by
  have happens := happens_perform step
  rw [← brokerHub?_core, happens.core_eq]
  exact Core.brokerHub?_apply_of_some happens.possible ((brokerHub?_core d n).trans hn)

theorem isCancelled_perform (step : d.perform a = some d') {t : Token}
    (hcancelled : d.tokens.isCancelled t = true) : d'.tokens.isCancelled t = true := by
  rw [show d'.tokens = _ from congrArg Core.tokens (happens_perform step).core_eq]
  exact Core.isCancelled_apply (c := d.core) hcancelled (d.event a)

/-- A loop that cannot be waited for could not be before, or somebody has taken its handle. -/
theorem gone_perform (step : d.perform a = some d') (hn : d'.brokerHub? n = some hub)
    (hnot : hub.joinable = false) : ∃ old, d.brokerHub? n = some old ∧
      (old.joinable = false ∨ ∃ k, a = .takeHandle k ∧ d.shutdowns[k]? = some ⟨n, .called⟩) := by
  have happens := happens_perform step
  rw [← brokerHub?_core, happens.core_eq] at hn
  rcases Core.of_brokerHub?_apply happens.possible hn with ⟨-, capacity, hbuild⟩ | ⟨old, hold, rfl⟩
  · rw [(of_event_eq_build hbuild).1] at hnot
    cases hnot
  · refine ⟨old, (brokerHub?_core d n).symm.trans hold, ?_⟩
    by_cases hdetach : ∃ h, d.event a = .detach n h
    · obtain ⟨h, heq⟩ := hdetach
      exact .inr (event_eq_detach heq).2
    · rw [Event.joinable_onHub fun h heq => hdetach ⟨h, heq⟩] at hnot
      exact .inl hnot

end

/-! Who has the handle. -/

/-- The call has got the handle of the loop, whatever has come of it since. -/
def held (s : Shutdown) : Bool :=
  match s.stage with
  | .waiting | .returned true | .abandoned => true
  | .called | .returned false => false

/-- The handle of a loop is in its place or in the hands of one call. -/
structure Entrusted (d : Deployment) : Prop where
  /-- Every call has cancelled the token of the hub, -/
  there : ∀ {k : Nat} {s : Shutdown}, d.shutdowns[k]? = some s → ∃ hub, d.brokerHub? s.hub = some hub ∧
    d.tokens.isCancelled hub.token = true ∧ (s.stage ≠ .called → hub.joinable = false)
  ended : ∀ {k n : Nat}, d.shutdowns[k]? = some ⟨n, .returned true⟩ →
    d.core.loopState? n = some .stopped
  /-- and a handle that is not in its place has gone to one of them. -/
  taken : ∀ {n hub}, d.brokerHub? n = some hub → hub.joinable = false →
    ∃ (k : Nat) (s : Shutdown), d.shutdowns[k]? = some s ∧ s.hub = n ∧ held s = true
  once : ∀ {k m : Nat} {s t : Shutdown}, d.shutdowns[k]? = some s → d.shutdowns[m]? = some t →
    s.hub = t.hub → held s = true → held t = true → k = m

section
variable {d d' : Deployment} {a : Action} {k n : Nat} {s : Shutdown} {hub : BrokerHub}

theorem held_iff_of_stage : held ⟨n, if hub.joinable then .waiting else .returned false⟩ = true ↔
    hub.joinable = true := by
  cases hub.joinable <;> simp [held]

/-- Who has the handle after an action has had it before, or takes it now. -/
theorem GetsOn.held (getsOn : GetsOn d k a s) (hheld : held s = true) :
    (∃ old, d.shutdowns[k]? = some old ∧ old.hub = s.hub ∧ Deployment.held old = true) ∨
      a = .takeHandle k ∧ ∃ hub, d.brokerHub? s.hub = some hub ∧ hub.joinable = true := by
  cases getsOn with
  | stays hs => exact .inl ⟨s, hs, rfl, hheld⟩
  | begins => cases hheld
  | takes hs hn => exact .inr ⟨rfl, _, hn, held_iff_of_stage.mp hheld⟩
  | ends hs | letGo hs => exact .inl ⟨_, hs, rfl, rfl⟩

/-- Who has had the handle keeps it, or keeps it from all others. -/
theorem held_perform (step : d.perform a = some d') (hs : d.shutdowns[k]? = some s)
    (hheld : held s = true) : ∃ s', d'.shutdowns[k]? = some s' ∧ s'.hub = s.hub ∧ held s' = true := by
  have moves : ∀ {m : Nat} {old new : Shutdown}, d.shutdowns[m]? = some old →
      (held old = true → new.hub = old.hub ∧ held new = true) →
      ∃ s', (d.shutdowns.set m new)[k]? = some s' ∧ s'.hub = s.hub ∧ held s' = true := by
    intro m old new hm keeps
    rw [List.getElem?_set]
    split
    · next heq =>
        subst heq
        cases hs.symm.trans hm
        obtain ⟨hhub, hnew⟩ := keeps hheld
        exact ⟨new, if_pos (List.getElem?_eq_some_iff.mp hs).1, hhub, hnew⟩
    · exact ⟨s, hs, rfl, hheld⟩
  cases a with
  | shutdown n =>
      cases step
      rw [shutdown]
      split
      · exact ⟨s, hs, rfl, hheld⟩
      · exact ⟨s, (List.getElem?_append_left (List.getElem?_eq_some_iff.mp hs).1).trans hs, rfl,
          hheld⟩
  | takeHandle m =>
      obtain ⟨n, hub, hm, -, rfl⟩ := of_takeHandle step
      exact moves hm fun h => by cases h
  | endShutdown m =>
      obtain ⟨n, hm, -, rfl⟩ := of_endShutdown step
      exact moves hm fun _ => ⟨rfl, rfl⟩
  | abandonShutdown m =>
      obtain ⟨n, hm, rfl⟩ := of_abandonShutdown step
      exact moves hm fun _ => ⟨rfl, rfl⟩
  | _ => exact ⟨s, (shutdowns_of_not_stops step rfl).symm ▸ hs, rfl, hheld⟩

namespace Entrusted

theorem start : Entrusted .empty where
  there h := by simp [empty] at h
  ended h := by simp [empty] at h
  taken h := by simp [brokerHub?, empty] at h
  once h := by simp [empty] at h

variable (entrusted : Entrusted d)
include entrusted

/-- What a call has done to the hub that it is for. -/
theorem there_of (hs : d.shutdowns[k]? = some s) (hn : d.brokerHub? s.hub = some hub) :
    d.tokens.isCancelled hub.token = true ∧ (s.stage ≠ .called → hub.joinable = false) := by
  obtain ⟨hub', hn', there⟩ := entrusted.there hs
  cases hn.symm.trans hn'
  exact there

variable (step : d.perform a = some d')
include step

theorem there_step (hs : d'.shutdowns[k]? = some s) : ∃ hub, d'.brokerHub? s.hub = some hub ∧
    d'.tokens.isCancelled hub.token = true ∧ (s.stage ≠ .called → hub.joinable = false) := by
  have kept : ∀ {n hub}, d.brokerHub? n = some hub → d.tokens.isCancelled hub.token = true →
      (s.stage ≠ .called → hub.joinable = false) →
      ∃ hub', d'.brokerHub? n = some hub' ∧ d'.tokens.isCancelled hub'.token = true ∧
        (s.stage ≠ .called → hub'.joinable = false) := by
    intro n hub hn hcancelled hnot
    refine ⟨_, brokerHub?_perform step hn, ?_, fun h => Event.gone_onHub _ (hnot h)⟩
    rw [Event.token_onHub]
    exact isCancelled_perform step hcancelled
  cases getsOn_perform step hs with
  | stays hs =>
      obtain ⟨hub, hn, hcancelled, hnot⟩ := entrusted.there hs
      exact kept hn hcancelled hnot
  | @begins n hub hn =>
      cases step
      refine ⟨hub, ?_, ?_, fun h => (h rfl).elim⟩
      · rw [shutdown, hn]
        exact hn
      · rw [shutdown, hn]
        exact (d.tokens.isCancelled_cancel hub.token hub.token).mpr (.inl List.mem_cons_self)
  | @takes n hub hk hn =>
      have hcancelled := (entrusted.there_of hk hn).1
      have hevent : d.event (.takeHandle k) = .detach n hub := by
        simp [event, takeHandleEvent, hk, hn]
      refine ⟨_, brokerHub?_perform step hn, ?_, fun _ => ?_⟩
      · rw [Event.token_onHub]
        exact isCancelled_perform step hcancelled
      · rw [hevent, Event.onHub, if_pos rfl]
  | ends hk | letGo hk =>
      obtain ⟨hub, hn, hcancelled, hnot⟩ := entrusted.there hk
      exact kept hn hcancelled fun _ => hnot fun h => by cases h

theorem ended_step {h : History} (reached : Reached h d.core)
    (hs : d'.shutdowns[k]? = some ⟨n, .returned true⟩) :
    d'.core.loopState? n = some .stopped := by
  have kept : d.core.loopState? n = some .stopped → d'.core.loopState? n = some .stopped := by
    intro hstopped
    rw [(happens_perform step).core_eq]
    exact reached.stopped_apply hstopped (happens_perform step).possible
  generalize hnew : (⟨n, .returned true⟩ : Shutdown) = new at hs
  cases getsOn_perform step hs with
  | stays hs => exact kept (entrusted.ended (hnew ▸ hs))
  | begins => cases hnew
  | @takes _ hub => cases hjoinable : hub.joinable <;> simp [hjoinable] at hnew
  | ends hk stopped =>
      cases hnew
      obtain ⟨hub, hn, -⟩ := entrusted.there hk
      exact kept ((isStopped_iff hn).mp stopped)
  | letGo => cases hnew

theorem taken_step (hn : d'.brokerHub? n = some hub) (hnot : hub.joinable = false) :
    ∃ (k : Nat) (s : Shutdown), d'.shutdowns[k]? = some s ∧ s.hub = n ∧ held s = true := by
  obtain ⟨old, hold, hgone⟩ := gone_perform step hn hnot
  cases hjoinable : old.joinable with
  | false =>
      obtain ⟨k, s, hs, hhub, hheld⟩ := entrusted.taken hold hjoinable
      obtain ⟨s', hs', hhub', hheld'⟩ := held_perform step hs hheld
      exact ⟨k, s', hs', hhub'.trans hhub, hheld'⟩
  | true =>
      obtain ⟨k, rfl, hs⟩ := hgone.resolve_left (by simp [hjoinable])
      cases (takeHandle_of_called hs hold).symm.trans step
      refine ⟨k, ⟨n, .waiting⟩, ?_, rfl, rfl⟩
      simp [setShutdown, setHub, hjoinable, (List.getElem?_eq_some_iff.mp hs).1]

theorem once_step {m : Nat} {t : Shutdown} (hs : d'.shutdowns[k]? = some s)
    (ht : d'.shutdowns[m]? = some t) (hhub : s.hub = t.hub) (hheld : held s = true)
    (hheld' : held t = true) : k = m := by
  have free : ∀ {j : Nat} {u : Shutdown} {hub : BrokerHub}, d.shutdowns[j]? = some u →
      held u = true → d.brokerHub? u.hub = some hub → hub.joinable = false := by
    intro j u hub hu hheld hn
    refine (entrusted.there_of hu hn).2 fun h => ?_
    simp [held, h] at hheld
  rcases (getsOn_perform step hs).held hheld with ⟨old, hold, hfrom, hbefore⟩ | ⟨rfl, hub, hn, hj⟩
  · rcases (getsOn_perform step ht).held hheld' with
      ⟨old', hold', hfrom', hbefore'⟩ | ⟨-, hub, hn, hj⟩
    · exact entrusted.once hold hold' (hfrom.trans (hhub.trans hfrom'.symm)) hbefore hbefore'
    · rw [← hhub, ← hfrom] at hn
      cases hj.symm.trans (free hold hbefore hn)
  · rcases (getsOn_perform step ht).held hheld' with ⟨old', hold', hfrom', hbefore'⟩ | ⟨heq, -⟩
    · rw [hhub, ← hfrom'] at hn
      cases hj.symm.trans (free hold' hbefore' hn)
    · exact Action.takeHandle.inj heq

theorem perform {h : History} (reached : Reached h d.core) : Entrusted d' where
  there := entrusted.there_step step
  ended := entrusted.ended_step step reached
  taken := entrusted.taken_step step
  once := entrusted.once_step step

omit step in
theorem along {h : History} (reached : Reached h d.core) {as : List Action} (run : Run d as d') :
    Entrusted d' := by
  induction run generalizing h with
  | nil => exact entrusted
  | cons first _ ih =>
      have happens := happens_perform first
      have reached₁ := reached.step happens.possible
      rw [← happens.core_eq] at reached₁
      exact ih (entrusted.perform first reached) reached₁

end Entrusted

end

/-! What calls come to. -/

section
variable {as : List Action} {d : Deployment} {n : Nat} {hub : BrokerHub}

theorem Run.entrusted (run : Run .empty as d) : Entrusted d :=
  Entrusted.start.along .start run

end

/-- The loop tells the roll to a handler that goes on. -/
def hanging : List Action := announcing ++ [.turn 0, .start 0 0]

end Deployment

end DiceRooms
