import DiceRooms.Proofs.Deployment.Quiescence

/-!
What callers do with a deployment, told by the actions and the deployments they meet. A caller
cancels, and builds hubs on, only tokens that have been given to callers, and lets the channels
of the hubs alone; whatever else happens, in whatever order, is allowed. Under this conduct the
numbers of tokens tell all that can be cancelled: a caller's token by its own kin alone, and
the token of a hub by the kin of the token it was built on and by the end of this very hub.
-/
namespace DiceRooms

/-- The actions of a run in order, each with the deployment that it meets. -/
abbrev Trace := List (Deployment × Action)

namespace Trace

/-- The token that an action gives to its caller. -/
def givenAt : Deployment × Action → Option Token
  | (d, .newToken) => some d.newToken.2
  | (d, .childToken parent) => some (d.childToken parent).2
  | _ => none

def given (tr : Trace) : List Token := tr.filterMap givenAt

def cancelledAt : Deployment × Action → Option Token
  | (_, .cancel t) => some t
  | _ => none

/-- The tokens that callers have cancelled themselves. -/
def cancelled (tr : Trace) : List Token := tr.filterMap cancelledAt

def builtOnAt (n : Nat) : Deployment × Action → Option Token
  | (d, .build c) => if (d.buildHub c).2 = .ok n then c.token else none
  | _ => none

/-- The token that the hub of the given number was built on. -/
def builtOn (tr : Trace) (n : Nat) : Option Token := tr.findSome? (builtOnAt n)

def EndsAt (n : Nat) (s : Deployment × Action) : Prop :=
  (∃ hub, s.1.brokerHub? n = some hub) ∧ (s.2 = .shutdown n ∨ s.2 = .dropHub n)

/-- The hub of the given number has been shut down or dropped. -/
def Ended (tr : Trace) (n : Nat) : Prop := ∃ s ∈ tr, EndsAt n s

section
variable (tr : Trace) (s : Deployment × Action) (n : Nat)

theorem mem_given_concat {t : Token} :
    t ∈ given (tr ++ [s]) ↔ t ∈ tr.given ∨ givenAt s = some t := by
  simp [given, List.filterMap_append]

omit s in
theorem mem_given_append {tr : Trace} {t : Token} (ht : t ∈ tr.given) (more : Trace) :
    t ∈ given (tr ++ more) := by
  rw [given, List.filterMap_append]
  exact List.mem_append_left _ ht

theorem mem_cancelled_concat {t : Token} :
    t ∈ cancelled (tr ++ [s]) ↔ t ∈ tr.cancelled ∨ cancelledAt s = some t := by
  simp [cancelled, List.filterMap_append]

theorem builtOn_concat : builtOn (tr ++ [s]) n = (tr.builtOn n).or (builtOnAt n s) := by
  simp [builtOn, List.findSome?_append, List.findSome?_singleton]

theorem ended_concat : Ended (tr ++ [s]) n ↔ tr.Ended n ∨ EndsAt n s := by
  simp [Ended, List.mem_append, or_and_right, exists_or]

end

end Trace

namespace Deployment

/-- The actions in order, up to the first that cannot be performed. -/
def trace : Deployment → List Action → Trace
  | _, [] => []
  | d, a :: as =>
    match d.perform a with
    | some d' => (d, a) :: d'.trace as
    | none => []

theorem trace_cons {d d' : Deployment} {a : Action} (step : d.perform a = some d')
    (as : List Action) : d.trace (a :: as) = (d, a) :: d'.trace as := by
  simp only [trace, step]

/-- What happens in a run is told by its trace. -/
theorem history_eq_trace (d : Deployment) (as : List Action) :
    d.history as = (d.trace as).map fun s => (s.1.core, s.1.event s.2) := by
  induction as generalizing d with
  | nil => rfl
  | cons a as ih =>
      rw [history, trace]
      cases d.perform a with
      | none => rfl
      | some d' => exact congrArg (_ :: ·) (ih d')

theorem mem_of_mem_trace {d : Deployment} {as : List Action} {s : Deployment × Action}
    (hs : s ∈ d.trace as) : s.2 ∈ as := by
  induction as generalizing d with
  | nil => cases hs
  | cons a as ih =>
      rw [trace] at hs
      split at hs
      · rcases List.mem_cons.mp hs with rfl | hs
        · exact List.mem_cons_self
        · exact List.mem_cons_of_mem a (ih hs)
      · cases hs

end Deployment

/-- What a caller may do, who holds the tokens that have been given to callers. The channel of
a hub belongs to its loop. -/
def Permitted (tr : Trace) (d : Deployment) : Action → Prop
  | .cancel t | .childToken t => t ∈ tr.given
  | .build c => ∀ t, c.token = some t → t ∈ tr.given
  | .receive _ id | .closeChannel id | .leave _ id =>
    ∀ n hub, d.brokerHub? n = some hub → hub.subscription ≠ id
  | _ => True

/-- The trace leads to the deployment, and callers have only done what they may. -/
inductive Conduct : Trace → Deployment → Prop
  | start : Conduct [] .empty
  | step {tr : Trace} {d d' : Deployment} {a : Action} (before : Conduct tr d)
      (permitted : Permitted tr d a) (performed : d.perform a = some d') :
      Conduct (tr ++ [(d, a)]) d'

namespace Conduct

variable {tr : Trace} {d : Deployment}

theorem run (conduct : Conduct tr d) : Deployment.Run .empty (tr.map Prod.snd) d := by
  induction conduct with
  | start => exact .nil _
  | step before permitted performed ih =>
      rw [List.map_append]
      exact ih.append (.single performed)

theorem reached (conduct : Conduct tr d) :
    Reached (Deployment.history .empty (tr.map Prod.snd)) d.core :=
  conduct.run.reached

end Conduct

/-! The actions that have to do with tokens. -/

/-- The action may build a hub, make a token or cancel one. -/
def Action.governs : Action → Bool
  | build _ | newToken | childToken _ | cancel _ | shutdown _ | dropHub _ => true
  | _ => false

namespace Deployment

variable {d d' : Deployment}

/-- The event builds a hub, makes a token or cancels one. -/
def governs : Event → Bool
  | .build .. | .token | .cancel _ => true
  | _ => false

theorem tokens_of_not_governs {e : Event} (h : governs e = false) (ts : Tokens) :
    e.tokens ts = ts := by
  cases e <;> first | rfl | cases h

/-- What an action makes of the tokens. -/
def tokensBy (d : Deployment) : Action → Tokens
  | .newToken | .childToken _ => d.tokens.root.1
  | .build c => if (d.buildHub c).2.isOk then d.tokens.root.1 else d.tokens
  | .cancel t => d.tokens.cancel t
  | .shutdown n | .dropHub n =>
    ((d.brokerHub? n).map fun hub => d.tokens.cancel hub.token).getD d.tokens
  | _ => d.tokens

theorem token_of_check {c : HubConfig} {route : Route} {token : Token} {channel : Channel}
    (h : c.check = .ok (route, token, channel)) : c.token = some token := by
  rw [HubConfig.check] at h
  split at h
  · cases h
  · cases h
  · next htoken =>
      split at h
      · cases h
      · split at h
        · cases h
        · split at h
          · cases h
          · cases h
            exact htoken

/-- A hub is built just when the event says so, with the next number and a child of the
token that was asked for. -/
theorem buildEvent_spec (d : Deployment) (c : HubConfig) :
    (d.buildEvent c = .idle ∧ (d.buildHub c).2.isOk = false) ∨
      ∃ capacity hub token, d.buildEvent c = .build capacity hub ∧
        (d.buildHub c).2 = .ok d.hubs.length ∧ c.token = some token ∧
        hub.token = (d.tokens.child token).2 := by
  rw [buildEvent, buildHub]
  cases hcheck : c.check with
  | error e => exact .inl ⟨rfl, rfl⟩
  | ok checked =>
      obtain ⟨route, token, channel⟩ := checked
      obtain ⟨-, -, hchannel⟩ := of_check hcheck
      dsimp only
      split
      · next hfails =>
          obtain ⟨e, he⟩ := d.exchange.subscribe_of_fails c.topic channel hfails
          rw [he]
          exact .inl ⟨rfl, rfl⟩
      · next hreaches =>
          obtain ⟨-, hid⟩ := d.exchange.subscribe_of_reaches c.topic channel.capacity
            (Bool.eq_false_iff.mpr hreaches)
          rw [← hchannel] at hid
          rcases hx : d.exchange.subscribe route c.topic channel with ⟨x, ns, answer⟩
          rw [hx] at hid
          obtain rfl : answer = .ok d.exchange.broker.channels.length := hid
          exact .inr ⟨channel.capacity, _, token, rfl, rfl, token_of_check hcheck, rfl⟩

theorem not_governs_event {a : Action} (ha : a.governs = false) : governs (d.event a) = false := by
  have causes := d.causes_event a
  generalize d.event a = e at causes ⊢
  cases causes with
  | build _ | newToken | childToken _ | cancel _ | dropHub _ | shutdown _ => cases ha
  | _ => rfl

theorem tokens_event (d : Deployment) (a : Action) :
    (d.event a).tokens d.tokens = d.tokensBy a := by
  cases a with
  | newToken | childToken _ | cancel _ => rfl
  | build c =>
      rw [tokensBy]
      rcases d.buildEvent_spec c with ⟨hevent, hanswer⟩ | ⟨_, _, _, hevent, hanswer, -⟩
      · rw [event, hevent, hanswer]
        rfl
      · rw [event, hevent, hanswer]
        rfl
  | shutdown n | dropHub n =>
      rw [event, tokensBy]
      cases d.brokerHub? n <;> rfl
  | _ => exact tokens_of_not_governs (not_governs_event rfl) _

theorem tokens_of_perform {a : Action} (performed : d.perform a = some d') :
    d'.tokens = d.tokensBy a :=
  (congrArg Core.tokens (happens_perform performed).core_eq).trans (d.tokens_event a)

theorem next_le_tokensBy (d : Deployment) (a : Action) :
    d.tokens.next ≤ (d.tokensBy a).next := by
  have hcancel : ∀ t, (d.tokens.cancel t).next = d.tokens.next := by
    intro t
    rw [Tokens.cancel]
    split <;> rfl
  cases a with
  | newToken | childToken _ => exact Nat.le_succ _
  | build c =>
      rw [tokensBy]
      split
      · exact Nat.le_succ _
      · exact Nat.le_refl _
  | cancel t => exact Nat.le_of_eq (hcancel t).symm
  | shutdown n | dropHub n =>
      rw [tokensBy]
      cases d.brokerHub? n with
      | none => exact Nat.le_refl _
      | some hub => exact Nat.le_of_eq (hcancel hub.token).symm
  | _ => exact Nat.le_refl _

/-! What an action adds to what callers hold, and to the hubs. -/

section
variable {tr : Trace} {a : Action} {n : Nat} {hub : BrokerHub}

theorem givenAt_spec (permitted : Permitted tr d a) {t : Token}
    (ht : Trace.givenAt (d, a) = some t) :
    t.number = d.tokens.next ∧ (d.tokensBy a).next = d.tokens.next + 1 ∧
      ∀ k ∈ t.ancestors, ∃ u ∈ tr.given, k ∈ u.lineage := by
  cases a with
  | newToken => cases ht; exact ⟨rfl, rfl, nofun⟩
  | childToken parent => cases ht; exact ⟨rfl, rfl, fun k hk => ⟨parent, permitted, hk⟩⟩
  | _ => cases ht

theorem cancelledAt_spec (permitted : Permitted tr d a) {t : Token}
    (ht : Trace.cancelledAt (d, a) = some t) : t ∈ tr.given := by
  cases a with
  | cancel u => cases ht; exact permitted
  | _ => cases ht

/-- A hub that ends has its own token cancelled, and nothing else. -/
theorem mem_cancelled_of_ending {k : Nat} :
    k ∈ (((d.brokerHub? n).map fun hub => d.tokens.cancel hub.token).getD d.tokens).cancelled ↔
      k ∈ d.tokens.cancelled ∨ ∃ hub, d.brokerHub? n = some hub ∧ hub.token.number = k := by
  cases d.brokerHub? n with
  | none => simp
  | some hub =>
      rw [Option.map_some, Option.getD_some, Tokens.mem_cancelled_cancel]
      simp only [Option.some.injEq, exists_eq_left', or_comm, eq_comm]

/-- A token is cancelled by its caller, or with the hub that it belongs to. -/
theorem mem_cancelled_tokensBy (k : Nat) : k ∈ (d.tokensBy a).cancelled ↔
    k ∈ d.tokens.cancelled ∨ (∃ u, Trace.cancelledAt (d, a) = some u ∧ u.number = k) ∨
      ∃ n hub, d.brokerHub? n = some hub ∧ hub.token.number = k ∧ Trace.EndsAt n (d, a) := by
  cases a with
  | cancel t =>
      simp only [tokensBy, Tokens.mem_cancelled_cancel, Trace.cancelledAt, Trace.EndsAt,
        Option.some.injEq, exists_eq_left', reduceCtorEq, or_self, and_false, exists_false,
        or_false]
      exact ⟨fun h => h.symm.imp_right Eq.symm, fun h => h.symm.imp_left Eq.symm⟩
  | shutdown m | dropHub m =>
      simp only [tokensBy, Trace.cancelledAt, Trace.EndsAt, reduceCtorEq, false_and,
        exists_false, false_or, or_false, Action.shutdown.injEq, Action.dropHub.injEq]
      rw [mem_cancelled_of_ending]
      refine or_congr_right ⟨?_, ?_⟩
      · rintro ⟨hub, hm, hk⟩
        exact ⟨m, hub, hm, hk, ⟨hub, hm⟩, rfl⟩
      · rintro ⟨_, hub, hm, hk, -, rfl⟩
        exact ⟨hub, hm, hk⟩
  | build c =>
      have hroot : (d.tokensBy (.build c)).cancelled = d.tokens.cancelled := by
        rw [tokensBy]
        split <;> rfl
      simp [hroot, Trace.cancelledAt, Trace.EndsAt]
  | newToken | childToken _ => simp [tokensBy, Tokens.root, Trace.cancelledAt, Trace.EndsAt]
  | _ => simp [tokensBy, Trace.cancelledAt, Trace.EndsAt]

theorem event_eq_build {capacity : Nat} (h : d.event a = .build capacity hub) :
    ∃ c token, a = .build c ∧ (d.buildHub c).2 = .ok d.hubs.length ∧ c.token = some token ∧
      hub.token = (d.tokens.child token).2 := by
  obtain ⟨-, c, rfl⟩ := of_event_eq_build h
  rcases d.buildEvent_spec c with ⟨hidle, -⟩ | ⟨_, _, token, hbuild, hanswer, htoken, hown⟩
  · cases hidle.symm.trans h
  · cases hbuild.symm.trans h
    exact ⟨c, token, rfl, hanswer, htoken, hown⟩

/-- A hub that is there after an action is there before with the same token, or it has just
been built and got a new one. -/
theorem token_of_perform (performed : d.perform a = some d')
    (hn : d'.brokerHub? n = some hub) :
    (∃ old, d.brokerHub? n = some old ∧ old.token = hub.token) ∨
      n = d.hubs.length ∧ (d.tokensBy a).next = d.tokens.next + 1 ∧
        ∃ token, Trace.builtOnAt n (d, a) = some token ∧
          (∃ c, a = .build c ∧ c.token = some token) ∧ hub.token = (d.tokens.child token).2 := by
  have happens := happens_perform performed
  rw [← brokerHub?_core, happens.core_eq] at hn
  rcases Core.of_brokerHub?_apply happens.possible hn with
    ⟨rfl, capacity, hbuild⟩ | ⟨old, hold, rfl⟩
  · obtain ⟨c, token, rfl, hanswer, htoken, hown⟩ := event_eq_build hbuild
    refine .inr ⟨rfl, ?_, token, ?_, ⟨c, rfl, htoken⟩, hown⟩
    · rw [tokensBy, hanswer]
      rfl
    · rw [Trace.builtOnAt]
      exact (if_pos hanswer).trans htoken
  · rw [brokerHub?_core] at hold
    exact .inl ⟨old, hold, (Event.token_onHub n old _).symm⟩

theorem hub_of_perform (performed : d.perform a = some d') (hn : d.brokerHub? n = some hub) :
    ∃ hub', d'.brokerHub? n = some hub' ∧ hub'.token = hub.token := by
  have happens := happens_perform performed
  refine ⟨_, ?_, Event.token_onHub n hub (d.event a)⟩
  rw [← brokerHub?_core, happens.core_eq]
  exact Core.brokerHub?_apply_of_some happens.possible ((brokerHub?_core d n).trans hn)

theorem builtOnAt_spec {token : Token} (h : Trace.builtOnAt n (d, a) = some token) :
    n = d.hubs.length ∧ ∃ capacity hub, d.event a = .build capacity hub := by
  cases a with
  | build c =>
      simp only [Trace.builtOnAt] at h
      split at h
      · next hanswer =>
          rcases d.buildEvent_spec c with ⟨-, hrefused⟩ | ⟨capacity, hub, _, hbuild, hok, -⟩
          · rw [hanswer] at hrefused
            cases hrefused
          · cases hanswer.symm.trans hok
            exact ⟨rfl, capacity, hub, hbuild⟩
      · cases h
  | _ => cases h

/-- Hubs are never taken away. -/
theorem length_le_hubs (hs : List Hub) (e : Event) : hs.length ≤ (e.hubs hs).length := by
  cases e with
  | hub _ | build _ _ => simp [Event.hubs]
  | conclude _ p =>
      simp only [Event.hubs]
      split <;> simp
  | _ => simp [Event.hubs]

theorem length_hubs_of_perform (performed : d.perform a = some d') :
    d'.hubs.length = ((d.event a).hubs d.hubs).length :=
  congrArg (fun c : Core => c.hubs.length) (happens_perform performed).core_eq

end

end Deployment

/-! The kin of all tokens. -/

/-- What the numbers of the tokens tell. -/
structure Kinship (tr : Trace) (d : Deployment) : Prop where
  /-- The ancestors of a caller's token are tokens of callers. -/
  callers : ∀ t ∈ tr.given, ∀ k ∈ t.lineage, ∃ u ∈ tr.given, u.number = k
  below : ∀ t ∈ tr.given, t.number < d.tokens.next
  held : ∀ t ∈ tr.cancelled, t ∈ tr.given
  parent : ∀ {n hub}, d.brokerHub? n = some hub →
    ∃ token ∈ tr.given, tr.builtOn n = some token ∧ hub.token.ancestors = token.lineage
  hubBelow : ∀ {n hub}, d.brokerHub? n = some hub → hub.token.number < d.tokens.next
  /-- Callers are not given the token of a hub. -/
  own : ∀ {n hub}, d.brokerHub? n = some hub → ∀ t ∈ tr.given, t.number ≠ hub.token.number
  apart : ∀ {n n' hub hub'}, d.brokerHub? n = some hub → d.brokerHub? n' = some hub' →
    hub.token.number = hub'.token.number → n = n'
  unbuilt : ∀ n, d.hubs.length ≤ n → tr.builtOn n = none
  ended : ∀ n, tr.Ended n → ∃ hub, d.brokerHub? n = some hub
  cancelled : ∀ k, k ∈ d.tokens.cancelled ↔ (∃ t ∈ tr.cancelled, t.number = k) ∨
    ∃ n hub, d.brokerHub? n = some hub ∧ hub.token.number = k ∧ tr.Ended n

namespace Kinship

open Deployment

variable {tr : Trace} {d d' : Deployment} {a : Action}

theorem start : Kinship [] .empty where
  callers := nofun
  below := nofun
  held := nofun
  parent := nofun
  hubBelow := nofun
  own := nofun
  apart := nofun
  unbuilt n _ := rfl
  ended n h := by
    obtain ⟨s, hs, -⟩ := h
    cases hs
  cancelled k := by
    refine ⟨nofun, ?_⟩
    rintro (⟨t, ht, -⟩ | ⟨n, hub, hn, -⟩)
    · cases ht
    · cases hn

/-- A hub that has just been built has a token that nobody else has. -/
theorem fresh_of_build (permitted : Permitted tr d a)
    (performed : d.perform a = some d') {n : Nat} {hub : BrokerHub}
    (hn : d'.brokerHub? n = some hub) :
    (∃ old, d.brokerHub? n = some old ∧ old.token = hub.token) ∨
      hub.token.number = d.tokens.next ∧ n = d.hubs.length ∧ Trace.givenAt (d, a) = none ∧
        (d.tokensBy a).next = d.tokens.next + 1 ∧
        ∃ token ∈ tr.given, Trace.builtOnAt n (d, a) = some token ∧
          hub.token.ancestors = token.lineage := by
  rcases token_of_perform performed hn with
    hold | ⟨hlast, hnext, token, hbuilt, ⟨c, rfl, htoken⟩, hown⟩
  · exact .inl hold
  · refine .inr ⟨by rw [hown]; rfl, hlast, rfl, hnext, token, permitted token htoken, hbuilt, ?_⟩
    rw [hown]
    rfl

section
variable (kin : Kinship tr d) (permitted : Permitted tr d a) (performed : d.perform a = some d')
include kin permitted performed

omit kin permitted in
theorem next_le : d.tokens.next ≤ d'.tokens.next := by
  rw [tokens_of_perform performed]
  exact d.next_le_tokensBy a

omit performed in
theorem callers_step {t : Token} (ht : t ∈ (tr ++ [(d, a)]).given) {k : Nat}
    (hk : k ∈ t.lineage) : ∃ u ∈ (tr ++ [(d, a)]).given, u.number = k := by
  have held : ∀ u ∈ tr.given, ∀ k ∈ u.lineage, ∃ u ∈ (tr ++ [(d, a)]).given, u.number = k := by
    intro u hu k hk
    obtain ⟨v, hv, hnumber⟩ := kin.callers u hu k hk
    exact ⟨v, Trace.mem_given_append hv _, hnumber⟩
  rcases (Trace.mem_given_concat tr (d, a)).mp ht with hold | hnew
  · exact held t hold k hk
  · rcases List.mem_cons.mp hk with rfl | hk
    · exact ⟨t, ht, rfl⟩
    · obtain ⟨u, hu, hku⟩ := (givenAt_spec permitted hnew).2.2 k hk
      exact held u hu k hku

theorem parent_step {n : Nat} {hub : BrokerHub} (hn : d'.brokerHub? n = some hub) :
    ∃ token ∈ (tr ++ [(d, a)]).given, (tr ++ [(d, a)]).builtOn n = some token ∧
      hub.token.ancestors = token.lineage := by
  rcases fresh_of_build permitted performed hn with
    ⟨old, hold, htoken⟩ | ⟨-, rfl, -, -, token, hmem, hbuilt, hancestors⟩
  · obtain ⟨token, hmem, hbuilt, hancestors⟩ := kin.parent hold
    refine ⟨token, Trace.mem_given_append hmem _, ?_, htoken ▸ hancestors⟩
    rw [Trace.builtOn_concat, hbuilt]
    rfl
  · refine ⟨token, Trace.mem_given_append hmem _, ?_, hancestors⟩
    rw [Trace.builtOn_concat, kin.unbuilt _ (Nat.le_refl _), hbuilt]
    rfl

theorem own_step {n : Nat} {hub : BrokerHub} (hn : d'.brokerHub? n = some hub) {t : Token}
    (ht : t ∈ (tr ++ [(d, a)]).given) : t.number ≠ hub.token.number := by
  rcases fresh_of_build permitted performed hn with
    ⟨old, hold, htoken⟩ | ⟨hnumber, -, hnone, -⟩
  · rw [← htoken]
    rcases (Trace.mem_given_concat tr (d, a)).mp ht with ht | hnew
    · exact kin.own hold t ht
    · have := (givenAt_spec permitted hnew).1
      have := kin.hubBelow hold
      omega
  · rcases (Trace.mem_given_concat tr (d, a)).mp ht with ht | hnew
    · have := kin.below t ht
      omega
    · cases hnone.symm.trans hnew

theorem apart_step {n n' : Nat} {hub hub' : BrokerHub} (hn : d'.brokerHub? n = some hub)
    (hn' : d'.brokerHub? n' = some hub') (heq : hub.token.number = hub'.token.number) :
    n = n' := by
  have below : ∀ {m old}, d.brokerHub? m = some old → ∀ {new : Token}, old.token = new →
      new.number < d.tokens.next := by
    rintro m old hold _ rfl
    exact kin.hubBelow hold
  rcases fresh_of_build permitted performed hn with ⟨old, hold, htoken⟩ | ⟨hnumber, hlast, -⟩ <;>
    rcases fresh_of_build permitted performed hn' with
      ⟨old', hold', htoken'⟩ | ⟨hnumber', hlast', -⟩
  · exact kin.apart hold hold' (by rw [htoken, htoken', heq])
  · have := below hold htoken
    omega
  · have := below hold' htoken'
    omega
  · rw [hlast, hlast']

omit permitted in
theorem unbuilt_step {n : Nat} (hn : d'.hubs.length ≤ n) :
    (tr ++ [(d, a)]).builtOn n = none := by
  have hlength := length_hubs_of_perform performed
  have hlengths := length_le_hubs d.hubs (d.event a)
  rw [Trace.builtOn_concat, kin.unbuilt n (by omega)]
  cases hbuilt : Trace.builtOnAt n (d, a) with
  | none => rfl
  | some token =>
      obtain ⟨rfl, capacity, hub, hevent⟩ := builtOnAt_spec hbuilt
      rw [hlength, hevent, Event.hubs, List.length_append, List.length_singleton] at hn
      omega

omit permitted performed in
/-- A hub that has ended by then was there. -/
theorem there_of_ended {n : Nat} (hended : (tr ++ [(d, a)]).Ended n) :
    ∃ hub, d.brokerHub? n = some hub := by
  rcases (Trace.ended_concat tr (d, a) n).mp hended with hended | hends
  · exact kin.ended n hended
  · exact hends.1

omit permitted in
theorem cancelled_step (k : Nat) : k ∈ d'.tokens.cancelled ↔
    (∃ t ∈ (tr ++ [(d, a)]).cancelled, t.number = k) ∨ ∃ n hub, d'.brokerHub? n = some hub ∧
      hub.token.number = k ∧ (tr ++ [(d, a)]).Ended n := by
  rw [tokens_of_perform performed, mem_cancelled_tokensBy, kin.cancelled]
  have ended : ∀ {n hub}, d.brokerHub? n = some hub → hub.token.number = k →
      (tr ++ [(d, a)]).Ended n → ∃ n hub, d'.brokerHub? n = some hub ∧ hub.token.number = k ∧
        (tr ++ [(d, a)]).Ended n := by
    intro n hub hn hk hended
    obtain ⟨hub', hn', htoken⟩ := hub_of_perform performed hn
    exact ⟨n, hub', hn', htoken ▸ hk, hended⟩
  constructor
  · rintro ((⟨t, ht, hk⟩ | ⟨n, hub, hn, hk, hended⟩) | ⟨t, ht, hk⟩ | ⟨n, hub, hn, hk, hends⟩)
    · exact .inl ⟨t, (Trace.mem_cancelled_concat tr (d, a)).mpr (.inl ht), hk⟩
    · exact .inr (ended hn hk ((Trace.ended_concat tr (d, a) n).mpr (.inl hended)))
    · exact .inl ⟨t, (Trace.mem_cancelled_concat tr (d, a)).mpr (.inr ht), hk⟩
    · exact .inr (ended hn hk ((Trace.ended_concat tr (d, a) n).mpr (.inr hends)))
  · rintro (⟨t, ht, hk⟩ | ⟨n, hub', hn', hk, hended⟩)
    · rcases (Trace.mem_cancelled_concat tr (d, a)).mp ht with ht | hnew
      · exact .inl (.inl ⟨t, ht, hk⟩)
      · exact .inr (.inl ⟨t, hnew, hk⟩)
    · obtain ⟨hub, hn⟩ := kin.there_of_ended hended
      obtain ⟨hub'', hn'', htoken⟩ := hub_of_perform performed hn
      obtain rfl := Option.some.inj (hn'.symm.trans hn'')
      rw [htoken] at hk
      rcases (Trace.ended_concat tr (d, a) n).mp hended with hended | hends
      · exact .inl (.inr ⟨n, hub, hn, hk, hended⟩)
      · exact .inr (.inr ⟨n, hub, hn, hk, hends⟩)

theorem step : Kinship (tr ++ [(d, a)]) d' where
  callers _ ht _ hk := kin.callers_step permitted ht hk
  below t ht := by
    rcases (Trace.mem_given_concat tr (d, a)).mp ht with ht | hnew
    · exact Nat.lt_of_lt_of_le (kin.below t ht) (next_le performed)
    · obtain ⟨hnumber, hmore, -⟩ := givenAt_spec permitted hnew
      rw [tokens_of_perform performed]
      omega
  held t ht := by
    rcases (Trace.mem_cancelled_concat tr (d, a)).mp ht with ht | hnew
    · exact Trace.mem_given_append (kin.held t ht) _
    · exact Trace.mem_given_append (cancelledAt_spec permitted hnew) _
  parent := kin.parent_step permitted performed
  hubBelow hn := by
    rcases fresh_of_build permitted performed hn with
      ⟨old, hold, htoken⟩ | ⟨hnumber, -, -, hmore, -⟩
    · rw [← htoken]
      exact Nat.lt_of_lt_of_le (kin.hubBelow hold) (next_le performed)
    · rw [tokens_of_perform performed]
      omega
  own hn _ := kin.own_step permitted performed hn
  apart := kin.apart_step permitted performed
  unbuilt _ := kin.unbuilt_step performed
  ended n hended := by
    obtain ⟨hub, hn⟩ := kin.there_of_ended hended
    obtain ⟨hub', hn', -⟩ := hub_of_perform performed hn
    exact ⟨hub', hn'⟩
  cancelled := kin.cancelled_step performed

end

end Kinship

end DiceRooms
