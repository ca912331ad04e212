import DiceRooms.Proofs.Deployment.Bare
import DiceRooms.Proofs.Deployment.Front
import DiceRooms.Proofs.Deployment.Interchange

/-!
What the layers that measure do to the calls that pass through them. They answer as the hub
behind them does and change nothing else, and each of them records a call once, when it
ends, by the answer. A call that has not ended is not recorded.
-/
namespace DiceRooms

/-- The endpoint with one more layer around it. -/
def Endpoint.within (e : Endpoint) (kind : String) : Endpoint := ⟨e.hub, e.layers ++ [kind]⟩

/-! Calls, as they are made. -/

namespace Call

def operation : Call → Operation
  | subscribe .. => .subscribe
  | unsubscribe .. => .unsubscribe
  | notify _ => .notify

/-- Makes the call through the layers of an endpoint. -/
def through (d : Deployment) (e : Endpoint) : Call → Deployment × Notified
  | subscribe room subscriber h =>
    let (d, answer) := d.subscribe e room subscriber h
    (d, .done (answer.map fun _ => ()))
  | unsubscribe room subscriber =>
    let (d, answer) := d.unsubscribe e room subscriber
    (d, .done (answer.map fun _ => ()))
  | notify r => d.notify e r

end Call

/-- A call that has been made, with what came of it at once. -/
structure Asked where
  endpoint : Endpoint
  call : Call
  reply : Notified

/-- A call that has ended. -/
structure Finished where
  endpoint : Endpoint
  operation : Operation
  result : Except HubError Unit

namespace Asked

/-- The same call to the hub itself. -/
def bare (c : Asked) : Asked := { c with endpoint := c.endpoint.bare }

/-- The number of the dispatch that the caller waits for. -/
def dispatch? (c : Asked) : Option Nat :=
  match c.reply with
  | .done _ => none
  | .dispatched n => some n

/-- The call with its answer, if there is one by now. -/
def finished? (d : Deployment) (c : Asked) : Option Finished :=
  (d.answer? c.reply).map (⟨c.endpoint, c.call.operation, ·⟩)

end Asked

/-- One record by each layer, from the innermost outwards. -/
def Finished.records (c : Finished) : List Measurement :=
  c.endpoint.layers.map fun kind =>
    { histogram := if c.operation = .notify then .notifier else .subscriber
      hubKind := kind
      operation := c.operation.name
      success := c.result.isOk }

namespace Deployment

/-- The call that an action makes. -/
def call? (d : Deployment) : Action → Option (Endpoint × Call)
  | .subscribe e room subscriber h => some (e, .subscribe room subscriber h)
  | .unsubscribe e room subscriber => some (e, .unsubscribe room subscriber)
  | .notify e r => some (e, .notify r)
  | .tellRoll n => do
    let c ← d.creations[n]?
    let s ← d.services[c.service]?
    some (s.notifier, .notify c.roll)
  | .subscribeViewer e id room h => if room = "" then none else some (e, .subscribe room id h)
  | .unsubscribeViewer v => some (v.endpoint, .unsubscribe v.room v.id)
  | .openSession e id room => some (e, .subscribe room id (.feed d.feeds.length))
  | .closeSession s => some (s.endpoint, .unsubscribe s.room s.id)
  | _ => none

end Deployment

namespace Trace

/-- The call that is made, if there is a hub behind the endpoint. -/
def askedAt (s : Deployment × Action) : Option Asked := do
  let (e, call) ← s.1.call? s.2
  let _ ← s.1.hubs[e.hub]?
  some ⟨e, call, (call.through s.1 e).2⟩

def asked (tr : Trace) : List Asked := tr.filterMap askedAt

/-- A notification that handlers have been told ends with its dispatch. -/
def concludedAt : Deployment × Action → Option Finished
  | (d, .conclude n) =>
    match d.dispatches[n]?.map (·.owner) with
    | some (Owner.caller e) => some ⟨e, .notify, .ok ()⟩
    | _ => none
  | _ => none

/-- The call that ends: the one that is made or one made before. -/
def finishedAt (s : Deployment × Action) : Option Finished :=
  match askedAt s with
  | some c => c.finished? s.1
  | none => concludedAt s

/-- The calls in the order in which they have ended. -/
def finished (tr : Trace) : List Finished := tr.filterMap finishedAt

theorem asked_concat (tr : Trace) (s : Deployment × Action) :
    asked (tr ++ [s]) = tr.asked ++ (askedAt s).toList :=
  Broker.filterMap_concat askedAt tr s

theorem finished_concat (tr : Trace) (s : Deployment × Action) :
    finished (tr ++ [s]) = tr.finished ++ (finishedAt s).toList :=
  Broker.filterMap_concat finishedAt tr s

end Trace

theorem Trace.concludedAt_of_ne {d : Deployment} {a : Action} (h : ∀ n, a ≠ .conclude n) :
    concludedAt (d, a) = none := by
  cases a with
  | conclude n => exact (h n rfl).elim
  | _ => rfl

theorem Finished.records_eq (c : Finished) :
    c.records = c.endpoint.layers.map (Measurement.of · c.operation c.result.isOk) := by
  obtain ⟨e, op, result⟩ := c
  cases op <;> rfl

/-! Without layers. -/

namespace Deployment

theorem bare_through (d : Deployment) (e : Endpoint) (call : Call) :
    call.through d.bare e.bare = ((call.through d e).1.bare, (call.through d e).2) := by
  cases call with
  | subscribe room subscriber h =>
      simp only [Call.through, subscribe, bare_changeRegistry]
  | unsubscribe room subscriber =>
      simp only [Call.through, unsubscribe, bare_changeRegistry]
  | notify r => exact d.bare_notify e r

theorem bare_call? (d : Deployment) (a : Action) :
    d.bare.call? a.bare = (d.call? a).map fun x => (x.1.bare, x.2) := by
  cases a with
  | tellRoll n =>
      simp only [call?, Action.bare, bare_service, Option.bind_eq_bind]
      show (d.creations[n]?.bind _) = (d.creations[n]?.bind _).map _
      cases d.creations[n]? with
      | none => rfl
      | some c =>
          dsimp only [Option.bind_some]
          cases d.services[c.service]? <;> rfl
  | subscribeViewer e id room h =>
      simp only [call?, Action.bare]
      split <;> rfl
  | _ => rfl

theorem bare_askedAt (d : Deployment) (a : Action) :
    Trace.askedAt (d.bare, a.bare) = (Trace.askedAt (d, a)).map Asked.bare := by
  simp only [Trace.askedAt, bare_call?, Option.bind_eq_bind]
  cases d.call? a with
  | none => rfl
  | some x =>
      obtain ⟨e, call⟩ := x
      dsimp only [Option.map_some, Option.bind_some]
      rw [bare_through, bare_hubs, Endpoint.bare]
      cases d.hubs[e.hub]? <;> rfl

theorem bare_asked (d : Deployment) (as : List Action) :
    (d.bare.trace (as.map Action.bare)).asked = (d.trace as).asked.map Asked.bare := by
  rw [bare_trace, Trace.asked, Trace.asked, List.filterMap_map, List.map_filterMap]
  exact congrArg (fun f => (d.trace as).filterMap f) (funext fun s => bare_askedAt s.1 s.2)

/-! What a call adds to the records. -/

variable {d d' : Deployment} {e : Endpoint} {hub : Hub}

theorem changeRegistry_of_absent (h : d.hubs[e.hub]? = none) (op : Operation)
    (change : Registry Handler → Registry Handler × Bool) (notice : Bool → Notice) :
    d.changeRegistry e op change notice = (d, .error noSuchHub) := by
  rw [changeRegistry, h]

theorem measurements_changeRegistry (h : d.hubs[e.hub]? = some hub) (op : Operation)
    (change : Registry Handler → Registry Handler × Bool) (notice : Bool → Notice) :
    (d.changeRegistry e op change notice).1.measurements =
      d.measurements ++
        e.layers.map (Measurement.of · op (d.changeRegistry e op change notice).2.isOk) := by
  simp only [changeRegistry, h]
  cases hub.registry with
  | error error => rfl
  | ok r => dsimp only; split <;> rfl

theorem aside_measurements : Aside measurements :=
  ⟨fun _ _ => rfl, fun _ _ => rfl, fun _ _ => rfl, fun _ _ => rfl⟩

theorem isConcluded_of_le {n : Nat} (h : d.dispatches.size ≤ n) : d.isConcluded n = false := by
  rw [isConcluded, Array.getElem?_eq_none h]
  rfl

/-- A notification is recorded at once if it ends at once. -/
theorem measurements_notify (h : d.hubs[e.hub]? = some hub) (r : Roll) :
    (d.notify e r).1.measurements = d.measurements ++
      ((d.answer? (d.notify e r).2).map fun result =>
        e.layers.map (Measurement.of · .notify result.isOk)).getD [] := by
  have pending : d.isConcluded d.dispatches.size = false := isConcluded_of_le (Nat.le_refl _)
  simp only [notify, h]
  cases hub with
  | failing error => rfl
  | broker b => exact congrArg (· ++ _) (aside_measurements.publish d b r)
  | memory registry | bare registry => simp [openDispatch, tell, answer?, pending]

theorem measurements_through (h : d.hubs[e.hub]? = some hub) (call : Call) :
    (call.through d e).1.measurements = d.measurements ++
      ((Asked.mk e call (call.through d e).2).finished? d).toList.flatMap Finished.records := by
  have isOk_map : ∀ answer : Except HubError Bool,
      (answer.map fun _ => ()).isOk = answer.isOk := by rintro (_ | _) <;> rfl
  cases call with
  | subscribe room subscriber f =>
      rw [Call.through, subscribe]
      dsimp only
      rw [measurements_changeRegistry h]
      simp [Asked.finished?, answer?, Finished.records_eq, isOk_map, Call.operation]
  | unsubscribe room subscriber =>
      rw [Call.through, unsubscribe]
      dsimp only
      rw [measurements_changeRegistry h]
      simp [Asked.finished?, answer?, Finished.records_eq, isOk_map, Call.operation]
  | notify r =>
      rw [Call.through, measurements_notify h, Asked.finished?]
      cases d.answer? (d.notify e r).2 with
      | none => rfl
      | some result => simp [Finished.records_eq, Call.operation]

theorem changeRegistry_withFeeds (d : Deployment) (feeds : List Feed) (e : Endpoint)
    (op : Operation) (change : Registry Handler → Registry Handler × Bool)
    (notice : Bool → Notice) :
    ({ d with feeds } : Deployment).changeRegistry e op change notice =
      ({ (d.changeRegistry e op change notice).1 with feeds },
        (d.changeRegistry e op change notice).2) := by
  simp only [changeRegistry]
  cases d.hubs[e.hub]? with
  | none => rfl
  | some hub =>
      dsimp only
      cases hub.registry with
      | error error => rfl
      | ok r => dsimp only; split <;> rfl

/-- An action that makes a call records what the call does. -/
theorem measurements_of_call {a : Action} {call : Call} (ha : d.call? a = some (e, call))
    (step : d.perform a = some d') : d'.measurements = (call.through d e).1.measurements := by
  cases a with
  | subscribe e room subscriber f | unsubscribe e room subscriber | notify e r =>
      cases ha
      cases step
      rfl
  | tellRoll n =>
      simp only [call?, Option.bind_eq_bind, Option.bind_eq_some_iff] at ha
      obtain ⟨c, hc, s, hs, hcall⟩ := ha
      cases hcall
      simp only [perform, tellRoll, hc, hs, Option.bind_eq_bind, Option.bind_some] at step
      split at step
      · cases step
        rfl
      · cases step
  | subscribeViewer e id room f =>
      simp only [call?] at ha
      split at ha
      · cases ha
      · next hroom =>
          cases ha
          simp only [perform, subscribeViewer, if_neg hroom] at step
          rw [Call.through]
          generalize d.subscribe e room id f = x at step ⊢
          obtain ⟨d₁, answer⟩ := x
          cases answer <;> · cases step; rfl
  | unsubscribeViewer v =>
      cases ha
      simp only [perform, unsubscribeViewer] at step
      rw [Call.through]
      generalize d.unsubscribe v.endpoint v.room v.id = x at step ⊢
      obtain ⟨d₁, answer⟩ := x
      cases answer <;> · cases step; rfl
  | openSession e id room =>
      cases ha
      simp only [perform, openSession, subscribe, changeRegistry_withFeeds] at step
      rw [Call.through, subscribe]
      generalize d.changeRegistry e .subscribe _ _ = x at step ⊢
      obtain ⟨d₁, answer⟩ := x
      cases answer <;> · cases step; rfl
  | closeSession s =>
      cases ha
      simp only [perform, closeSession, adjustFeed, unsubscribe, changeRegistry_withFeeds] at step
      rw [Call.through, unsubscribe]
      generalize d.changeRegistry s.endpoint .unsubscribe _ _ = x at step ⊢
      obtain ⟨d₁, answer⟩ := x
      cases answer <;> · cases step; rfl
  | _ => cases ha

theorem through_of_absent (h : d.hubs[e.hub]? = none) (call : Call) :
    (call.through d e).1 = d := by
  cases call with
  | subscribe room subscriber f => rw [Call.through, subscribe, changeRegistry_of_absent h]
  | unsubscribe room subscriber => rw [Call.through, unsubscribe, changeRegistry_of_absent h]
  | notify r => rw [Call.through, notify, h]

/-! One layer more. -/

/-- A layer of the kind around the endpoint passes every call on to what is within; it makes
a record of its own when the answer is there, and answers the same. -/
structure Wraps (d : Deployment) (e : Endpoint) (kind : String) : Prop where
  changes : ∀ op change notice, d.changeRegistry (e.within kind) op change notice =
    ((d.changeRegistry e op change notice).1.measure ⟨e.hub, [kind]⟩ op
        (d.changeRegistry e op change notice).2.isOk,
      (d.changeRegistry e op change notice).2)
  notified : ∀ r result, (d.notify e r).2 = .done result → d.notify (e.within kind) r =
    ((d.notify e r).1.measure ⟨e.hub, [kind]⟩ .notify result.isOk, .done result)
  /-- While handlers are being told it waits with those within, and records nothing -/
  waits : ∀ r n, (d.notify e r).2 = .dispatched n → ∃ b,
    (d.notify e r).1.dispatches = d.dispatches.push ⟨.caller e, r, b, false⟩ ∧
    d.notify (e.within kind) r = ({ (d.notify e r).1 with
      dispatches := d.dispatches.push ⟨.caller (e.within kind), r, b, false⟩ }, .dispatched n)
  /-- until all of them are done. -/
  settles : ∀ p : Dispatch, d.settle { p with owner := .caller (e.within kind) } =
    (d.settle { p with owner := .caller e }).measure ⟨e.hub, [kind]⟩ .notify true

theorem measure_within (d : Deployment) (e : Endpoint) (kind : String) (op : Operation)
    (success : Bool) : d.measure (e.within kind) op success =
      (d.measure e op success).measure ⟨e.hub, [kind]⟩ op success := by
  simp only [measure, Endpoint.within, List.map_append, List.append_assoc]

theorem wraps (h : d.hubs[e.hub]? = some hub) (kind : String) : d.Wraps e kind where
  changes op change notice := by
    have hwithin : d.hubs[(e.within kind).hub]? = some hub := h
    simp only [changeRegistry, h, hwithin, measure_within]
    cases hub.registry with
    | error error => rfl
    | ok r => dsimp only; split <;> rfl
  notified r result hdone := by
    have hwithin : d.hubs[(e.within kind).hub]? = some hub := h
    simp only [notify, h] at hdone
    simp only [notify, h, hwithin, measure_within]
    cases hub with
    | failing error | broker b => cases hdone; rfl
    | memory registry | bare registry => cases hdone
  waits r n hdispatched := by
    have hwithin : d.hubs[(e.within kind).hub]? = some hub := h
    simp only [notify, h] at hdispatched
    simp only [notify, h, hwithin]
    cases hub with
    | failing error | broker b => cases hdispatched
    | memory registry | bare registry => cases hdispatched; exact ⟨_, rfl, rfl⟩
  settles p := by
    have hwithin : d.hubs[(e.within kind).hub]? = d.hubs[e.hub]? := rfl
    simp only [settle, hwithin]
    split <;> exact measure_within _ e kind .notify true

/-! What the other actions record. -/

theorem measurements_settle (d : Deployment) (p : Dispatch) :
    (d.settle p).measurements = d.measurements ++
      match p.owner with
      | .caller e => e.layers.map (Measurement.of · .notify true)
      | .receiver _ => [] := by
  simp only [settle]
  cases p.owner with
  | caller e => dsimp only; split <;> rfl
  | receiver n =>
      dsimp only
      rw [aside_measurements.setPhase, List.append_nil]
      split <;> rfl

theorem measurements_conclude {n : Nat} (h : d.conclude n = some d') :
    d'.measurements = d.measurements ++
      (Trace.concludedAt (d, .conclude n)).toList.flatMap Finished.records := by
  simp only [conclude, Option.bind_eq_bind, Option.bind_eq_some_iff] at h
  obtain ⟨p, hp, h⟩ := h
  split at h
  · cases h
    rw [measurements_settle, Trace.concludedAt, hp, Option.map_some]
    cases p.owner with
    | caller e => simp [Finished.records_eq, tell, setDispatch, Except.isOk, Except.toBool]
    | receiver n => rfl
  · cases h

theorem measurements_of_silent {a : Action} (ha : d.call? a = none)
    (hconclude : ∀ n, a ≠ .conclude n)
    (step : d.perform a = some d') : d'.measurements = d.measurements := by
  cases a with
  | subscribe | unsubscribe | notify | unsubscribeViewer | openSession | closeSession => cases ha
  | conclude n => exact (hconclude n rfl).elim
  | turn n => exact aside_measurements.turn step
  | build c =>
      cases step
      simp only [buildHub, viaExchange]
      cases c.check with
      | error e => rfl
      | ok checked =>
          obtain ⟨route, token, channel⟩ := checked
          dsimp only
          rcases d.exchange.subscribe route c.topic channel with ⟨x, ns, answer⟩
          cases answer <;> rfl
  | start n i =>
      obtain ⟨p, inv, b, -, -, -, rfl⟩ := of_startInvocation step
      cases inv.handler <;> rfl
  | finish n i said =>
      obtain ⟨p, inv, b, -, -, -, rfl⟩ := of_finishInvocation step
      cases inv.handler <;> rfl
  | shutdown | takeHandle | endShutdown | abandonShutdown =>
      obtain ⟨_, _, _, rfl⟩ := of_stops rfl step
      rfl
  | dropHub n =>
      cases step
      simp only [dropHub]
      split <;> rfl
  | listen topic capacity closed =>
      cases step
      simp only [listen, viaExchange]
      cases Channel.ofCapacity? capacity with
      | error fault => rfl
      | ok c =>
          dsimp only
          rcases d.exchange.subscribe .direct topic (if closed then c.close else c) with
            ⟨x, ns, answer⟩
          cases answer <;> rfl
  | requestRoll service ids now q =>
      obtain ⟨⟨d₁, answer⟩, h, rfl⟩ := Option.map_eq_some_iff.mp step
      simp only [requestRoll, Option.bind_eq_bind, Option.bind_eq_some_iff] at h
      obtain ⟨s, -, h⟩ := h
      split at h <;> · cases h; rfl
  | throwDice n throw =>
      simp only [perform, throwDice, Option.bind_eq_bind, Option.bind_eq_some_iff] at step
      obtain ⟨c, -, h⟩ := step
      split at h
      · split at h <;> · cases h; rfl
      · cases h
  | tellRoll n =>
      simp only [perform, tellRoll, Option.bind_eq_bind, Option.bind_eq_some_iff] at step
      obtain ⟨c, hc, s, hs, -⟩ := step
      simp [call?, hc, hs] at ha
  | endCreation n =>
      simp only [perform, endCreation, Option.bind_eq_bind, Option.bind_eq_some_iff] at step
      obtain ⟨c, -, h⟩ := step
      split at h
      · split at h
        · cases h
          rfl
        · cases h
      · cases h
  | subscribeViewer e id room f =>
      simp only [call?] at ha
      split at ha
      · next hroom =>
          cases step
          rw [subscribeViewer, if_pos hroom]
      · cases ha
  | _ => cases step; rfl

theorem askedAt_eq_some {a : Action} {c : Asked} (h : Trace.askedAt (d, a) = some c) :
    d.call? a = some (c.endpoint, c.call) ∧ (∃ hub, d.hubs[c.endpoint.hub]? = some hub) ∧
      c.reply = (c.call.through d c.endpoint).2 := by
  simp only [Trace.askedAt, Option.bind_eq_bind, Option.bind_eq_some_iff] at h
  obtain ⟨⟨e, call⟩, ha, hub, hhub, hc⟩ := h
  cases hc
  exact ⟨ha, ⟨hub, hhub⟩, rfl⟩

theorem askedAt_eq_none {a : Action} (h : Trace.askedAt (d, a) = none) :
    d.call? a = none ∨ ∃ e call, d.call? a = some (e, call) ∧ d.hubs[e.hub]? = none := by
  simp only [Trace.askedAt, Option.bind_eq_bind] at h
  cases ha : d.call? a with
  | none => exact .inl rfl
  | some x =>
      obtain ⟨e, call⟩ := x
      rw [ha] at h
      cases hhub : d.hubs[e.hub]? with
      | none => exact .inr ⟨e, call, rfl, hhub⟩
      | some hub => simp [hhub] at h

/-- What is recorded in one step are the records of the call that ends with it. -/
theorem measurements_perform {a : Action} (step : d.perform a = some d') :
    d'.measurements = d.measurements ++
      (Trace.finishedAt (d, a)).toList.flatMap Finished.records := by
  rw [Trace.finishedAt]
  cases hasked : Trace.askedAt (d, a) with
  | some c =>
      obtain ⟨ha, ⟨hub, hhub⟩, hreply⟩ := askedAt_eq_some hasked
      rw [measurements_of_call ha step, measurements_through hhub, ← hreply]
  | none =>
      by_cases hconclude : ∃ n, a = .conclude n
      · obtain ⟨n, rfl⟩ := hconclude
        exact measurements_conclude step
      · have silent : ∀ n, a ≠ .conclude n := fun n h => hconclude ⟨n, h⟩
        dsimp only
        rw [Trace.concludedAt_of_ne silent]
        show _ = d.measurements ++ []
        rw [List.append_nil]
        rcases askedAt_eq_none hasked with ha | ⟨e, call, ha, habsent⟩
        · exact measurements_of_silent ha silent step
        · rw [measurements_of_call ha step, through_of_absent habsent]

end Deployment

end DiceRooms
