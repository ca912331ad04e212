import DiceRooms.Proofs.Deployment.Measuring

/-!
How the handlers end is nobody else's business. Two deployments agree if they differ only in
how invocations have ended and in the notices that tell of it. Actions that differ only in
such endings are possible in both or in neither, and lead to deployments that agree again.
-/
namespace DiceRooms

/-- A dispatch, but for how its invocations have ended. -/
structure Outline where
  owner : Owner
  roll : Roll
  /-- The subscribers with their handlers and with how far the invocations have come. -/
  stages : List (String × Handler × Nat)
  concluded : Bool

def Invocation.stage (i : Invocation) : String × Handler × Nat :=
  (i.subscriber, i.handler, i.progress.rank)

def Broadcast.stages (b : Broadcast) : List (String × Handler × Nat) := b.map Invocation.stage

def Dispatch.outline (p : Dispatch) : Outline :=
  ⟨p.owner, p.roll, p.broadcast.stages, p.concluded⟩

/-- It tells how invocations have ended. -/
def Notice.ofOutcomes : Notice → Bool
  | handlerFailed .. | dispatched .. | partlyDelivered .. => true
  | _ => false

/-- The notices of everything else. -/
def Notice.others (ns : List Notice) : List Notice := ns.filter (!·.ofOutcomes)

/-- They differ at most in how invocations have ended and in the notices of it. -/
structure Deployment.Agree (d₁ d₂ : Deployment) : Prop where
  tokens : d₁.tokens = d₂.tokens
  exchange : d₁.exchange = d₂.exchange
  hubs : d₁.hubs = d₂.hubs
  outlines : d₁.dispatches.map Dispatch.outline = d₂.dispatches.map Dispatch.outline
  feeds : d₁.feeds = d₂.feeds
  services : d₁.services = d₂.services
  creations : d₁.creations = d₂.creations
  shutdowns : d₁.shutdowns = d₂.shutdowns
  measurements : d₁.measurements = d₂.measurements
  notices : Notice.others d₁.notices = Notice.others d₂.notices

/-- The actions differ at most in how an invocation ends. -/
inductive Action.Resembles : Action → Action → Prop
  | same (a : Action) : Resembles a a
  | ended (n i : Nat) (o₁ o₂ : Outcome) : Resembles (.finish n i o₁) (.finish n i o₂)

theorem rel_bind {α β γ δ : Type} {R : α → β → Prop} {S : γ → δ → Prop} {x : Option α}
    {y : Option β} {f : α → Option γ} {g : β → Option δ} (h : Option.Rel R x y)
    (hfg : ∀ a b, R a b → Option.Rel S (f a) (g b)) :
    Option.Rel S (x.bind f) (y.bind g) := by
  cases h with
  | none => exact .none
  | some hab => exact hfg _ _ hab

theorem exists_of_rel_some {α β : Type} {R : α → β → Prop} {a : α} {y : Option β}
    (h : Option.Rel R (some a) y) : ∃ b, y = some b ∧ R a b := by
  cases h with
  | some hab => exact ⟨_, rfl, hab⟩

theorem rel_of_map_eq {α β : Type} {f : α → β} {x y : Option α} (h : x.map f = y.map f) :
    Option.Rel (fun a b => f a = f b) x y := by
  cases x with
  | none => cases y with
    | none => exact .none
    | some b => cases h
  | some a => cases y with
    | none => cases h
    | some b => exact .some (Option.some.inj h)

/-! Broadcasts of the same stages. -/

namespace Broadcast

variable {b₁ b₂ : Broadcast}

theorem invocation_rel (h : b₁.stages = b₂.stages) (n : Nat) :
    Option.Rel (fun i₁ i₂ => i₁.stage = i₂.stage) b₁[n]? b₂[n]? := by
  refine rel_of_map_eq ?_
  rw [← List.getElem?_map, ← List.getElem?_map]
  exact congrArg (·[n]?) h

/-- The next stage is reached in both or in neither: how far an invocation has come says
whether it waits or runs. -/
theorem advance_rel (h : b₁.stages = b₂.stages) (n : Nat) {before after₁ after₂ : Progress}
    (hbefore : before.rank < 2) (hafter : after₁.rank = after₂.rank) :
    Option.Rel (fun b₁ b₂ : Broadcast => b₁.stages = b₂.stages)
      (b₁.advance n before after₁) (b₂.advance n before after₂) := by
  have known : ∀ progress : Progress, progress = before ↔ progress.rank = before.rank := by
    intro progress
    cases progress <;> cases before <;> simp [Progress.rank] at hbefore ⊢
  have hinv := invocation_rel h n
  rw [advance, advance]
  generalize b₁[n]? = x, b₂[n]? = y at hinv
  cases hinv with
  | none => exact .none
  | @some i₁ i₂ hstage =>
      obtain ⟨hsubscriber, hhandler, hrank⟩ : i₁.subscriber = i₂.subscriber ∧
          i₁.handler = i₂.handler ∧ i₁.progress.rank = i₂.progress.rank := by
        simpa [Invocation.stage] using hstage
      simp only [known, hrank]
      split
      · refine .some ?_
        rw [stages, stages, List.map_set, List.map_set, Invocation.stage, Invocation.stage,
          hsubscriber, hhandler, hafter]
        exact congrArg (fun l : List (String × Handler × Nat) => l.set n _) h
      · exact .none

theorem isOver_eq (b : Broadcast) : b.isOver = b.stages.all (·.2.2 == 2) := by
  rw [isOver, stages, List.all_map]
  refine congrArg (List.all b ·) (funext fun i => ?_)
  obtain ⟨subscriber, handler, progress⟩ := i
  cases progress <;> rfl

end Broadcast

/-- Nobody is invoked but by the beginning of an invocation. -/
theorem Deployment.invokes?_event_eq_none (d : Deployment) {a : Action}
    (hstart : ∀ n i, a ≠ .start n i) : (d.event a).invokes? d.core = none := by
  have causes := d.causes_event a
  generalize d.event a = e at causes ⊢
  cases causes with
  | start n i => exact (hstart n i rfl).elim
  | _ => rfl

namespace Deployment.Agree

variable {d₁ d₂ : Deployment}

theorem refl (d : Deployment) : Agree d d := ⟨rfl, rfl, rfl, rfl, rfl, rfl, rfl, rfl, rfl, rfl⟩

/-! What agreeing deployments have in common. -/

theorem brokerHub? (h : Agree d₁ d₂) (n : Nat) : d₁.brokerHub? n = d₂.brokerHub? n := by
  rw [Deployment.brokerHub?, Deployment.brokerHub?, h.hubs]

theorem size (h : Agree d₁ d₂) : d₁.dispatches.size = d₂.dispatches.size := by
  simpa using congrArg Array.size h.outlines

theorem dispatch (h : Agree d₁ d₂) (n : Nat) :
    Option.Rel (fun p₁ p₂ => p₁.outline = p₂.outline) d₁.dispatches[n]? d₂.dispatches[n]? := by
  refine rel_of_map_eq ?_
  rw [← Array.getElem?_map, ← Array.getElem?_map, h.outlines]

theorem isConcluded (h : Agree d₁ d₂) (n : Nat) : d₁.isConcluded n = d₂.isConcluded n := by
  have hdispatch := h.dispatch n
  rw [Deployment.isConcluded, Deployment.isConcluded]
  generalize d₁.dispatches[n]? = x, d₂.dispatches[n]? = y at hdispatch
  cases hdispatch with
  | none => rfl
  | some hp => exact congrArg Outline.concluded hp

theorem answer? (h : Agree d₁ d₂) (reply : Notified) : d₁.answer? reply = d₂.answer? reply := by
  cases reply with
  | done result => rfl
  | dispatched n => simp only [Deployment.answer?, h.isConcluded]

/-! What each change to a deployment keeps. -/

theorem tell (h : Agree d₁ d₂) (ns₁ ns₂ : List Notice)
    (hns : Notice.others ns₁ = Notice.others ns₂) : Agree (d₁.tell ns₁) (d₂.tell ns₂) := by
  refine { h with notices := ?_ }
  simp only [Deployment.tell, Notice.others, List.filter_append, List.filter_reverse]
  exact congrArg₂ (· ++ ·) (congrArg List.reverse hns) h.notices

theorem measure (h : Agree d₁ d₂) (e : Endpoint) (op : Operation) (success : Bool) :
    Agree (d₁.measure e op success) (d₂.measure e op success) :=
  { h with measurements := congrArg (· ++ _) h.measurements }

theorem setHub (h : Agree d₁ d₂) (n : Nat) (hub : Hub) :
    Agree (d₁.setHub n hub) (d₂.setHub n hub) :=
  { h with hubs := congrArg (·.set n hub) h.hubs }

theorem addHub (h : Agree d₁ d₂) (hub : Hub) : Agree (d₁.addHub hub).1 (d₂.addHub hub).1 :=
  { h with hubs := congrArg (· ++ [hub]) h.hubs }

theorem withExchange (h : Agree d₁ d₂) (exchange : Exchange) :
    Agree { d₁ with exchange } { d₂ with exchange } :=
  { h with exchange := rfl }

theorem withTokens (h : Agree d₁ d₂) (tokens : Tokens) :
    Agree { d₁ with tokens } { d₂ with tokens } :=
  { h with tokens := rfl }

theorem withFeeds (h : Agree d₁ d₂) (feeds : List Feed) :
    Agree { d₁ with feeds } { d₂ with feeds } :=
  { h with feeds := rfl }

theorem withServices (h : Agree d₁ d₂) (services : List Service) :
    Agree { d₁ with services } { d₂ with services } :=
  { h with services := rfl }

theorem withCreations (h : Agree d₁ d₂) (creations : List Creation) :
    Agree { d₁ with creations } { d₂ with creations } :=
  { h with creations := rfl }

theorem setBroker (h : Agree d₁ d₂) (b : Broker) : Agree (d₁.setBroker b) (d₂.setBroker b) :=
  { h with exchange := congrArg ({ · with broker := b }) h.exchange }

theorem setPhase (h : Agree d₁ d₂) (n : Nat) (phase : Phase) :
    Agree (d₁.setPhase n phase) (d₂.setPhase n phase) := by
  rw [Deployment.setPhase, Deployment.setPhase, h.brokerHub?]
  cases d₂.brokerHub? n with
  | none => exact h
  | some hub => exact h.setHub n _

theorem cancel (h : Agree d₁ d₂) (t : Token) : Agree (d₁.cancel t) (d₂.cancel t) :=
  { h with tokens := congrArg (·.cancel t) h.tokens }

theorem setCreation (h : Agree d₁ d₂) (n : Nat) (c : Creation) :
    Agree (d₁.setCreation n c) (d₂.setCreation n c) :=
  { h with creations := congrArg (·.set n c) h.creations }

theorem adjustFeed (h : Agree d₁ d₂) (n : Nat) (f : Feed → Feed) :
    Agree (d₁.adjustFeed n f) (d₂.adjustFeed n f) :=
  { h with feeds := congrArg (·.modify n f) h.feeds }

theorem setDispatch (h : Agree d₁ d₂) (n : Nat) {p₁ p₂ : Dispatch}
    (hp : p₁.outline = p₂.outline) : Agree (d₁.setDispatch n p₁) (d₂.setDispatch n p₂) := by
  refine { h with outlines := ?_ }
  simp only [Deployment.setDispatch, Array.map_setIfInBounds, h.outlines, hp]

theorem openDispatch (h : Agree d₁ d₂) (owner : Owner) (registry : Registry Handler) (r : Roll) :
    Agree (d₁.openDispatch owner registry r).1 (d₂.openDispatch owner registry r).1 ∧
      (d₁.openDispatch owner registry r).2 = (d₂.openDispatch owner registry r).2 := by
  refine ⟨{ h.tell _ _ rfl with outlines := ?_ }, h.size⟩
  simp only [Deployment.openDispatch, Deployment.tell, Array.map_push, h.outlines]

/-! The operations, with their answers. -/

theorem changeRegistry (h : Agree d₁ d₂) (e : Endpoint) (op : Operation)
    (change : Registry Handler → Registry Handler × Bool) (notice : Bool → Notice) :
    Agree (d₁.changeRegistry e op change notice).1 (d₂.changeRegistry e op change notice).1 ∧
      (d₁.changeRegistry e op change notice).2 = (d₂.changeRegistry e op change notice).2 := by
  simp only [Deployment.changeRegistry, h.hubs]
  cases d₂.hubs[e.hub]? with
  | none => exact ⟨h, rfl⟩
  | some hub =>
      dsimp only
      cases hub.registry with
      | error error => exact ⟨h.measure e op false, rfl⟩
      | ok r =>
          have hset := h.setHub e.hub (hub.withRegistry (change r).1)
          refine ⟨Agree.measure ?_ e op true, rfl⟩
          split
          · exact hset
          · exact hset.tell _ _ rfl

theorem publish (h : Agree d₁ d₂) (b : BrokerHub) (r : Roll) :
    Agree (d₁.publish b r).1 (d₂.publish b r).1 ∧ (d₁.publish b r).2 = (d₂.publish b r).2 := by
  simp only [Deployment.publish, viaExchange, h.exchange]
  rcases d₂.exchange.publish b.route ⟨b.topic, Wire.encode r⟩ with ⟨x, ns, answer⟩
  have hsent := (h.withExchange x).tell ns ns rfl
  cases answer with
  | error e => exact ⟨hsent, rfl⟩
  | ok _ => exact ⟨hsent.tell _ _ rfl, rfl⟩

theorem notify (h : Agree d₁ d₂) (e : Endpoint) (r : Roll) :
    Agree (d₁.notify e r).1 (d₂.notify e r).1 ∧ (d₁.notify e r).2 = (d₂.notify e r).2 := by
  simp only [Deployment.notify, h.hubs]
  cases d₂.hubs[e.hub]? with
  | none => exact ⟨h, rfl⟩
  | some hub =>
      cases hub with
      | failing error => exact ⟨h.measure e .notify false, rfl⟩
      | broker b =>
          obtain ⟨hsent, hresult⟩ := h.publish b r
          dsimp only
          rw [hresult]
          exact ⟨hsent.measure e .notify _, rfl⟩
      | memory registry | bare registry =>
          obtain ⟨hopen, hnumber⟩ := h.openDispatch (.caller e) registry r
          exact ⟨hopen, congrArg Notified.dispatched hnumber⟩

theorem buildHub (h : Agree d₁ d₂) (c : HubConfig) :
    Agree (d₁.buildHub c).1 (d₂.buildHub c).1 := by
  simp only [Deployment.buildHub, viaExchange, h.exchange]
  cases c.check with
  | error e => exact h
  | ok checked =>
      obtain ⟨route, token, channel⟩ := checked
      dsimp only
      rcases d₂.exchange.subscribe route c.topic channel with ⟨x, ns, answer⟩
      have hvia := (h.withExchange x).tell ns ns rfl
      cases answer with
      | error e => exact hvia
      | ok subscription =>
          simp only [Deployment.tell, h.tokens]
          exact ((hvia.withTokens _).addHub _).tell _ _ rfl

theorem adjustFeedOf (h : Agree d₁ d₂) (f : Handler) {g₁ g₂ : Feed → Feed} (hg : g₁ = g₂) :
    Agree (d₁.adjustFeedOf f g₁) (d₂.adjustFeedOf f g₂) := by
  subst hg
  cases f with
  | feed n => exact h.adjustFeed n g₁
  | outside | idle => exact h

/-- An invocation proceeds in both or in neither, wherever it gets to, and its handler sends the
same. -/
theorem advance (h : Agree d₁ d₂) (n i : Nat) (before : Progress)
    (after₁ after₂ : Handler → Progress) (send : Roll → Feed → Feed) (hbefore : before.rank < 2)
    (hafter : ∀ f, (after₁ f).rank = (after₂ f).rank) :
    Option.Rel Agree
      (d₁.dispatches[n]?.bind fun p => p.broadcast[i]?.bind fun inv =>
        (p.broadcast.advance i before (after₁ inv.handler)).bind fun b =>
          some ((d₁.setDispatch n { p with broadcast := b }).adjustFeedOf inv.handler
            (send p.roll)))
      (d₂.dispatches[n]?.bind fun p => p.broadcast[i]?.bind fun inv =>
        (p.broadcast.advance i before (after₂ inv.handler)).bind fun b =>
          some ((d₂.setDispatch n { p with broadcast := b }).adjustFeedOf inv.handler
            (send p.roll))) := by
  refine rel_bind (h.dispatch n) fun p₁ p₂ hp => ?_
  obtain ⟨howner, hroll, hstages, hconcluded⟩ := Outline.mk.inj hp
  refine rel_bind (Broadcast.invocation_rel hstages i) fun inv₁ inv₂ hinv => ?_
  have hhandler : inv₁.handler = inv₂.handler := congrArg (·.2.1) hinv
  rw [hhandler]
  refine rel_bind (Broadcast.advance_rel hstages i hbefore (hafter _)) fun b₁ b₂ hb => ?_
  refine .some ((h.setDispatch n ?_).adjustFeedOf _ (congrArg send hroll))
  rw [Dispatch.outline, Dispatch.outline, howner, hroll, hb, hconcluded]

theorem startInvocation (h : Agree d₁ d₂) (n i : Nat) :
    Option.Rel Agree (d₁.startInvocation n i) (d₂.startInvocation n i) :=
  h.advance n i .waiting (fun _ => .running) (fun _ => .running) (fun r f => f.sendRow ⟨n, i⟩ r)
    Nat.zero_lt_two fun _ => rfl

theorem finishInvocation (h : Agree d₁ d₂) (n i : Nat) (o₁ o₂ : Outcome) :
    Option.Rel Agree (d₁.finishInvocation n i o₁) (d₂.finishInvocation n i o₂) :=
  h.advance n i .running (fun f => .ended (d₁.outcomeOf ⟨n, i⟩ o₁ f))
    (fun f => .ended (d₂.outcomeOf ⟨n, i⟩ o₂ f)) (fun r f => f.sendId ⟨n, i⟩ r) Nat.one_lt_two
    fun _ => rfl

theorem settle (h : Agree d₁ d₂) {p₁ p₂ : Dispatch} (hp : p₁.outline = p₂.outline) :
    Agree (d₁.settle p₁) (d₂.settle p₂) := by
  have howner : p₁.owner = p₂.owner := congrArg Outline.owner hp
  simp only [Deployment.settle, howner, h.hubs]
  cases p₂.owner with
  | caller e =>
      dsimp only
      split
      · refine Agree.measure (h.tell _ _ ?_) e .notify true
        rfl
      · exact h.measure e .notify true
  | receiver n =>
      refine Agree.setPhase ?_ n .running
      -- Only a loop some of whose handlers have failed tells of it.
      split <;> split
      · refine h.tell _ _ ?_
        rfl
      · exact h.tell _ [] rfl
      · exact h.tell [] _ rfl
      · exact h

theorem conclude (h : Agree d₁ d₂) (n : Nat) :
    Option.Rel Agree (d₁.conclude n) (d₂.conclude n) := by
  have untold : ∀ p, Notice.others (failureNotices p) = [] := by
    intro p
    refine List.filter_eq_nil_iff.mpr fun notice hnotice => ?_
    obtain ⟨_, -, rfl⟩ := List.mem_map.mp hnotice
    exact nofun
  refine rel_bind (h.dispatch n) fun p₁ p₂ hp => ?_
  obtain ⟨howner, hroll, hstages, hconcluded⟩ := Outline.mk.inj hp
  rw [Broadcast.isOver_eq, Broadcast.isOver_eq, hstages, hconcluded]
  split
  · refine .some (((h.setDispatch n ?_).tell _ _ ?_).settle hp)
    · rw [Dispatch.outline, Dispatch.outline, howner, hroll, hstages]
    · rw [untold, untold]
  · exact .none

theorem takeMessage (h : Agree d₁ d₂) (n : Nat) (hub : BrokerHub) :
    Option.Rel Agree (d₁.takeMessage n hub) (d₂.takeMessage n hub) := by
  simp only [Deployment.takeMessage, h.exchange]
  have hset := h.setBroker (d₂.exchange.broker.receive hub.topic hub.subscription).1
  cases (d₂.exchange.broker.receive hub.topic hub.subscription).2 with
  | empty => exact .none
  | closed => exact .some ((hset.tell _ _ rfl).setPhase n .draining)
  | message m =>
      dsimp only
      cases Wire.decode m.payload with
      | error e => exact .some (hset.tell _ _ rfl)
      | ok r =>
          obtain ⟨hopen, hnumber⟩ := (hset.tell [.received r.room r.id] _ rfl).openDispatch
            (.receiver n) hub.registry r
          dsimp only
          rw [hnumber]
          exact .some (hopen.setPhase n _)

theorem leaveBroker (h : Agree d₁ d₂) (n : Nat) (hub : BrokerHub) :
    Agree (d₁.leaveBroker n hub) (d₂.leaveBroker n hub) := by
  simp only [Deployment.leaveBroker, viaExchange, h.exchange]
  rcases d₂.exchange.unsubscribe hub.route hub.topic hub.subscription with ⟨x, ns, answer⟩
  have hvia := (h.withExchange x).tell ns ns rfl
  cases answer with
  | ok _ => exact (hvia.setPhase n .stopped).tell _ _ rfl
  | error e => exact ((hvia.tell _ _ rfl).setPhase n .stopped).tell _ _ rfl

theorem turn (h : Agree d₁ d₂) (n : Nat) : Option.Rel Agree (d₁.turn n) (d₂.turn n) := by
  simp only [Deployment.turn, h.brokerHub?, h.tokens]
  cases d₂.brokerHub? n with
  | none => exact .none
  | some hub =>
      dsimp only
      cases hub.phase with
      | running =>
          dsimp only
          split
          · exact .some ((h.tell _ _ rfl).setPhase n .draining)
          · exact h.takeMessage n hub
      | dispatching _ | stopped => exact .none
      | draining =>
          rw [h.exchange]
          exact .some ((h.setBroker _).setPhase n .closed)
      | closed => exact .some (h.leaveBroker n hub)

theorem setShutdown (h : Agree d₁ d₂) (k : Nat) (s : Shutdown) :
    Agree (d₁.setShutdown k s) (d₂.setShutdown k s) :=
  { h with shutdowns := congrArg (·.set k s) h.shutdowns }

theorem shutdown (h : Agree d₁ d₂) (n : Nat) : Agree (d₁.shutdown n) (d₂.shutdown n) := by
  simp only [Deployment.shutdown, h.brokerHub?, h.shutdowns]
  cases d₂.brokerHub? n with
  | none => exact h
  | some hub => exact { h.cancel hub.token with shutdowns := rfl }

theorem takeHandle (h : Agree d₁ d₂) (k : Nat) :
    Option.Rel Agree (d₁.takeHandle k) (d₂.takeHandle k) := by
  simp only [Deployment.takeHandle, h.shutdowns, h.brokerHub?, Option.bind_eq_bind]
  cases d₂.shutdowns[k]? with
  | none => exact .none
  | some s =>
      dsimp only [Option.bind_some]
      cases d₂.brokerHub? s.hub with
      | none => exact .none
      | some hub =>
          dsimp only [Option.bind_some]
          split
          · exact .some ((h.setHub s.hub _).setShutdown k _)
          · exact .none

theorem isStopped (h : Agree d₁ d₂) (n : Nat) : d₁.isStopped n = d₂.isStopped n := by
  rw [Deployment.isStopped, Deployment.isStopped, h.brokerHub?]

theorem endShutdown (h : Agree d₁ d₂) (k : Nat) :
    Option.Rel Agree (d₁.endShutdown k) (d₂.endShutdown k) := by
  simp only [Deployment.endShutdown, h.shutdowns, h.isStopped, Option.bind_eq_bind]
  cases d₂.shutdowns[k]? with
  | none => exact .none
  | some s =>
      dsimp only [Option.bind_some]
      split
      · exact .some (h.setShutdown k _)
      · exact .none

theorem abandonShutdown (h : Agree d₁ d₂) (k : Nat) :
    Option.Rel Agree (d₁.abandonShutdown k) (d₂.abandonShutdown k) := by
  simp only [Deployment.abandonShutdown, h.shutdowns, Option.bind_eq_bind]
  cases d₂.shutdowns[k]? with
  | none => exact .none
  | some s =>
      dsimp only [Option.bind_some]
      split
      · exact .some (h.setShutdown k _)
      · exact .none

theorem dropHub (h : Agree d₁ d₂) (n : Nat) : Agree (d₁.dropHub n) (d₂.dropHub n) := by
  simp only [Deployment.dropHub, h.brokerHub?]
  cases d₂.brokerHub? n with
  | none => exact h
  | some hub => exact h.cancel hub.token

theorem listen (h : Agree d₁ d₂) (topic : String) (capacity : Nat) (closed : Bool) :
    Agree (d₁.listen topic capacity closed).1 (d₂.listen topic capacity closed).1 := by
  simp only [Deployment.listen, viaExchange, h.exchange]
  cases Channel.ofCapacity? capacity with
  | error fault => exact h
  | ok c =>
      dsimp only
      rcases d₂.exchange.subscribe .direct topic (if closed then c.close else c) with
        ⟨x, ns, answer⟩
      cases answer <;> exact (h.withExchange x).tell ns ns rfl

theorem requestRoll (h : Agree d₁ d₂) (service : Nat) (ids : UInt64 → FreshIds) (now : Instant)
    (q : Request) : Option.Rel (fun x y => Agree x.1 y.1) (d₁.requestRoll service ids now q)
      (d₂.requestRoll service ids now q) := by
  simp only [Deployment.requestRoll, h.services, h.creations]
  cases d₂.services[service]? with
  | none => exact .none
  | some s =>
      have hserial := h.withServices (d₂.services.set service
        { s with serial := (q.accept s.serial ids now).1 })
      dsimp only [Option.bind_eq_bind, Option.bind_some]
      rw [h.creations] at hserial
      cases (q.accept s.serial ids now).2 with
      | error e => exact .some hserial
      | ok draft => exact .some (hserial.withCreations _)

theorem throwDice (h : Agree d₁ d₂) (n : Nat) (throw : Roll → Except DiceError Roll) :
    Option.Rel Agree (d₁.throwDice n throw) (d₂.throwDice n throw) := by
  simp only [Deployment.throwDice, h.creations]
  cases d₂.creations[n]? with
  | none => exact .none
  | some c =>
      dsimp only [Option.bind_eq_bind, Option.bind_some]
      cases c.stage with
      | drafted =>
          dsimp only
          cases throw c.roll with
          | error e => exact .some (h.setCreation n _)
          | ok roll => exact .some ((h.setCreation n _).tell _ _ rfl)
      | thrown | telling _ | ended _ => exact .none

theorem tellRoll (h : Agree d₁ d₂) (n : Nat) :
    Option.Rel Agree (d₁.tellRoll n) (d₂.tellRoll n) := by
  simp only [Deployment.tellRoll, h.creations, h.services]
  cases d₂.creations[n]? with
  | none => exact .none
  | some c =>
      dsimp only [Option.bind_eq_bind, Option.bind_some]
      cases d₂.services[c.service]? with
      | none => exact .none
      | some s =>
          dsimp only [Option.bind_some]
          cases c.stage with
          | thrown =>
              obtain ⟨htold, hreply⟩ := h.notify s.notifier c.roll
              dsimp only
              rw [hreply]
              exact .some (htold.setCreation n _)
          | drafted | telling _ | ended _ => exact .none

theorem endCreation (h : Agree d₁ d₂) (n : Nat) :
    Option.Rel Agree (d₁.endCreation n) (d₂.endCreation n) := by
  simp only [Deployment.endCreation, h.creations, h.isConcluded]
  cases d₂.creations[n]? with
  | none => exact .none
  | some c =>
      dsimp only [Option.bind_eq_bind, Option.bind_some]
      cases c.stage with
      | telling dispatch =>
          dsimp only
          split
          · exact .some (h.setCreation n _)
          · exact .none
      | drafted | thrown | ended _ => exact .none

theorem subscribe (h : Agree d₁ d₂) (e : Endpoint) (room subscriber : String) (f : Handler) :
    Agree (d₁.subscribe e room subscriber f).1 (d₂.subscribe e room subscriber f).1 ∧
      (d₁.subscribe e room subscriber f).2 = (d₂.subscribe e room subscriber f).2 :=
  h.changeRegistry e .subscribe _ _

theorem unsubscribe (h : Agree d₁ d₂) (e : Endpoint) (room subscriber : String) :
    Agree (d₁.unsubscribe e room subscriber).1 (d₂.unsubscribe e room subscriber).1 ∧
      (d₁.unsubscribe e room subscriber).2 = (d₂.unsubscribe e room subscriber).2 :=
  h.changeRegistry e .unsubscribe _ _

theorem subscribeViewer (h : Agree d₁ d₂) (e : Endpoint) (id room : String) (f : Handler) :
    Agree (d₁.subscribeViewer e id room f).1 (d₂.subscribeViewer e id room f).1 := by
  have hset := h.subscribe e room id f
  simp only [Deployment.subscribeViewer]
  split
  · exact h
  · generalize d₁.subscribe e room id f = x, d₂.subscribe e room id f = y at hset
    obtain ⟨e₁, answer₁⟩ := x
    obtain ⟨e₂, answer₂⟩ := y
    obtain ⟨hagree, rfl⟩ := hset
    cases answer₁ with
    | error error => exact hagree
    | ok replaced => exact hagree.tell _ _ rfl

theorem unsubscribeViewer (h : Agree d₁ d₂) (v : Viewer) :
    Agree (d₁.unsubscribeViewer v).1 (d₂.unsubscribeViewer v).1 := by
  have hdeleted := h.unsubscribe v.endpoint v.room v.id
  simp only [Deployment.unsubscribeViewer]
  generalize d₁.unsubscribe v.endpoint v.room v.id = x,
    d₂.unsubscribe v.endpoint v.room v.id = y at hdeleted
  obtain ⟨e₁, answer₁⟩ := x
  obtain ⟨e₂, answer₂⟩ := y
  obtain ⟨hagree, rfl⟩ := hdeleted
  cases answer₁ <;> exact hagree

theorem openSession (h : Agree d₁ d₂) (e : Endpoint) (id room : String) :
    Agree (d₁.openSession e id room).1 (d₂.openSession e id room).1 := by
  have hset := (h.withFeeds (d₂.feeds ++ [Feed.fresh])).subscribe e room id
    (.feed d₂.feeds.length)
  simp only [Deployment.openSession, h.feeds]
  generalize ({ d₁ with feeds := d₂.feeds ++ [Feed.fresh] } : Deployment) = f₁,
    ({ d₂ with feeds := d₂.feeds ++ [Feed.fresh] } : Deployment) = f₂ at hset
  generalize f₁.subscribe e room id (.feed d₂.feeds.length) = x,
    f₂.subscribe e room id (.feed d₂.feeds.length) = y at hset
  obtain ⟨e₁, answer₁⟩ := x
  obtain ⟨e₂, answer₂⟩ := y
  obtain ⟨hagree, rfl⟩ := hset
  cases answer₁ with
  | error error => exact hagree
  | ok replaced => exact hagree.tell _ _ rfl

theorem closeSession (h : Agree d₁ d₂) (s : DiceRooms.Session) :
    Agree (d₁.closeSession s).1 (d₂.closeSession s).1 := by
  have hdeleted := (h.adjustFeed s.feed Feed.drop).unsubscribe s.endpoint s.room s.id
  simp only [Deployment.closeSession]
  generalize d₁.adjustFeed s.feed Feed.drop = f₁, d₂.adjustFeed s.feed Feed.drop = f₂
    at hdeleted
  generalize f₁.unsubscribe s.endpoint s.room s.id = x,
    f₂.unsubscribe s.endpoint s.room s.id = y at hdeleted
  obtain ⟨e₁, answer₁⟩ := x
  obtain ⟨e₂, answer₂⟩ := y
  obtain ⟨hagree, rfl⟩ := hdeleted
  cases answer₁ with
  | error error => exact hagree
  | ok removed => exact hagree.tell _ _ rfl

/-- What one action leads to agrees with what the other leads to, and neither is possible
without the other. -/
theorem perform (h : Agree d₁ d₂) {a b : Action} (hab : a.Resembles b) :
    Option.Rel Agree (d₁.perform a) (d₂.perform b) := by
  cases hab with
  | ended n i o₁ o₂ => exact h.finishInvocation n i o₁ o₂
  | same =>
      cases a with
      | openMemory | openBare | openFailing _ => exact .some (h.addHub _)
      | build c => exact .some (h.buildHub c)
      | newToken => exact .some { h with tokens := congrArg (·.root.1) h.tokens }
      | childToken parent =>
          exact .some { h with tokens := congrArg (·.child parent |>.1) h.tokens }
      | cancel t => exact .some (h.cancel t)
      | subscribe e room subscriber f => exact .some (h.subscribe e room subscriber f).1
      | unsubscribe e room subscriber => exact .some (h.unsubscribe e room subscriber).1
      | notify e r => exact .some (h.notify e r).1
      | start n i => exact h.startInvocation n i
      | finish n i o => exact h.finishInvocation n i o o
      | conclude n => exact h.conclude n
      | turn n => exact h.turn n
      | shutdown n => exact .some (h.shutdown n)
      | takeHandle k => exact h.takeHandle k
      | endShutdown k => exact h.endShutdown k
      | abandonShutdown k => exact h.abandonShutdown k
      | dropHub n => exact .some (h.dropHub n)
      | listen topic capacity closed => exact .some (h.listen topic capacity closed)
      | receive topic id =>
          simp only [Deployment.perform, Deployment.receive, h.exchange]
          exact .some (h.setBroker _)
      | closeChannel id =>
          simp only [Deployment.perform, Deployment.closeChannel, h.exchange]
          exact .some (h.setBroker _)
      | leave topic id =>
          simp only [Deployment.perform, Deployment.leave, viaExchange, h.exchange]
          exact .some ((h.withExchange _).tell _ _ rfl)
      | publish m =>
          simp only [Deployment.perform, publishMessage, viaExchange, h.exchange]
          exact .some ((h.withExchange _).tell _ _ rfl)
      | setFaults publish subscribe unsubscribe =>
          simp only [Deployment.perform, Deployment.setFaults, setRelay, h.exchange]
          exact .some (h.withExchange _)
      | addService notifier subscriber =>
          exact .some { h with services := congrArg (· ++ _) h.services }
      | requestRoll service ids now q =>
          have hrequest := h.requestRoll service ids now q
          simp only [Deployment.perform]
          generalize d₁.requestRoll service ids now q = x, d₂.requestRoll service ids now q = y
            at hrequest
          cases hrequest with
          | none => exact .none
          | some hxy => exact .some hxy
      | throwDice n throw => exact h.throwDice n throw
      | tellRoll n => exact h.tellRoll n
      | endCreation n => exact h.endCreation n
      | subscribeViewer e id room f => exact .some (h.subscribeViewer e id room f)
      | unsubscribeViewer v => exact .some (h.unsubscribeViewer v)
      | openSession e id room => exact .some (h.openSession e id room)
      | closeSession s => exact .some (h.closeSession s)
      | dropRows n | dropNotifications n | readFeed n => exact .some (h.adjustFeed n _)

/-! What is seen of the actions. -/

/-- What is read off an invocation, and not off its end, is the same in both. -/
theorem invocation_congr (h : Agree d₁ d₂) (n i : Nat) {α : Type}
    {f g : Dispatch → Invocation → Option α} (hfg : ∀ {p₁ p₂ : Dispatch} {i₁ i₂ : Invocation},
      p₁.roll = p₂.roll → i₁.subscriber = i₂.subscriber → i₁.handler = i₂.handler →
        f p₁ i₁ = g p₂ i₂) :
    (d₁.dispatches[n]?.bind fun p => p.broadcast[i]?.bind fun inv => f p inv) =
      d₂.dispatches[n]?.bind fun p => p.broadcast[i]?.bind fun inv => g p inv := by
  have hdispatch := h.dispatch n
  generalize d₁.dispatches[n]? = x, d₂.dispatches[n]? = y at hdispatch
  cases hdispatch with
  | none => rfl
  | @some p₁ p₂ hp =>
      obtain ⟨-, hroll, hstages, -⟩ := Outline.mk.inj hp
      have hinv := Broadcast.invocation_rel hstages i
      simp only [Option.bind_some]
      generalize p₁.broadcast[i]? = x, p₂.broadcast[i]? = y at hinv
      cases hinv with
      | none => rfl
      | some hstage => exact hfg hroll (congrArg (·.1) hstage) (congrArg (·.2.1) hstage)

/-- The invocation that begins, wherever it gets to. -/
theorem invokes?_proceed (h : Agree d₁ d₂) (n i : Nat) (after₁ after₂ : Progress) :
    (Event.proceed n i .waiting after₁).invokes? d₁.core =
      (Event.proceed n i .waiting after₂).invokes? d₂.core := by
  simp only [Event.invokes?, Option.bind_eq_bind, getElem?_core_dispatches]
  refine h.invocation_congr n i fun hroll hsubscriber hhandler => ?_
  rw [Dispatch.invoke, Dispatch.invoke, hroll, hsubscriber, hhandler]

theorem invokes? (h : Agree d₁ d₂) {a b : Action} (hab : a.Resembles b) :
    (d₁.event a).invokes? d₁.core = (d₂.event b).invokes? d₂.core := by
  cases hab with
  | ended n i o₁ o₂ => rfl
  | same =>
      have silent (hstart : ∀ n i, a ≠ .start n i) :
          (d₁.event a).invokes? d₁.core = (d₂.event a).invokes? d₂.core := by
        rw [d₁.invokes?_event_eq_none hstart, d₂.invokes?_event_eq_none hstart]
      cases a with
      | start n i => exact h.invokes?_proceed n i _ _
      | _ => exact silent nofun

theorem call? (h : Agree d₁ d₂) {a b : Action} (hab : a.Resembles b) :
    d₁.call? a = d₂.call? b := by
  cases hab with
  | ended n i o₁ o₂ => rfl
  | same =>
      cases a with
      | tellRoll n => simp only [Deployment.call?, h.creations, h.services]
      | openSession e id room => simp only [Deployment.call?, h.feeds]
      | _ => rfl

theorem through (h : Agree d₁ d₂) (e : Endpoint) (call : Call) :
    (call.through d₁ e).2 = (call.through d₂ e).2 := by
  cases call with
  | subscribe room subscriber f =>
      simp only [Call.through, (h.subscribe e room subscriber f).2]
  | unsubscribe room subscriber =>
      simp only [Call.through, (h.unsubscribe e room subscriber).2]
  | notify r => exact (h.notify e r).2

theorem askedAt (h : Agree d₁ d₂) {a b : Action} (hab : a.Resembles b) :
    Trace.askedAt (d₁, a) = Trace.askedAt (d₂, b) := by
  simp only [Trace.askedAt, h.call? hab, h.hubs, h.through]

theorem concludedAt (h : Agree d₁ d₂) {a b : Action} (hab : a.Resembles b) :
    Trace.concludedAt (d₁, a) = Trace.concludedAt (d₂, b) := by
  cases hab with
  | ended n i o₁ o₂ => rfl
  | same =>
      cases a with
      | conclude n =>
          have hdispatch := h.dispatch n
          simp only [Trace.concludedAt]
          generalize d₁.dispatches[n]? = x, d₂.dispatches[n]? = y at hdispatch
          cases hdispatch with
          | none => rfl
          | @some p₁ p₂ hp =>
              have howner : p₁.owner = p₂.owner := congrArg Outline.owner hp
              simp only [Option.map_some, howner]
      | _ => rfl

theorem finishedAt (h : Agree d₁ d₂) {a b : Action} (hab : a.Resembles b) :
    Trace.finishedAt (d₁, a) = Trace.finishedAt (d₂, b) := by
  simp only [Trace.finishedAt, h.askedAt hab, h.concludedAt hab, Asked.finished?, h.answer?]

end Deployment.Agree

/-! Whole runs. -/

theorem filterMap_eq_of_forall₂ {α β γ : Type} {f : α → Option γ} {g : β → Option γ}
    {l₁ : List α} {l₂ : List β} (h : List.Forall₂ (fun a b => f a = g b) l₁ l₂) :
    l₁.filterMap f = l₂.filterMap g := by
  induction h with
  | nil => rfl
  | cons hab _ ih => rw [List.filterMap_cons, List.filterMap_cons, hab, ih]

namespace Deployment

/-- Runs of one deployment that nobody can tell apart but by how the handlers have ended. -/
structure Undisturbed (d : Deployment) (as bs : List Action) (e₁ e₂ : Deployment) : Prop where
  /-- At every action the registries, the channels, the loops and all the rest agree. -/
  along : List.Forall₂ (fun s t => Agree s.1 t.1 ∧ s.2.Resembles t.2) (d.trace as) (d.trace bs)
  last : Agree e₁ e₂
  /-- The handlers are invoked with the same rolls in the same order. -/
  invoked : (d.history as).invoked = (d.history bs).invoked
  /-- The same calls are made, and get the same replies. -/
  asked : (d.trace as).asked = (d.trace bs).asked
  /-- They end in the same order, with the same results. -/
  finished : (d.trace as).finished = (d.trace bs).finished

theorem Agree.run {d₁ d₂ e₁ : Deployment} {as bs : List Action} (h : Agree d₁ d₂)
    (hab : List.Forall₂ Action.Resembles as bs) (run : Run d₁ as e₁) :
    ∃ e₂, Run d₂ bs e₂ ∧ Agree e₁ e₂ ∧
      List.Forall₂ (fun s t => Agree s.1 t.1 ∧ s.2.Resembles t.2) (d₁.trace as)
        (d₂.trace bs) := by
  induction run generalizing d₂ bs with
  | nil d =>
      cases hab
      exact ⟨d₂, .nil d₂, h, .nil⟩
  | @cons d d' d'' a as step rest ih =>
      obtain _ | ⟨ha, hrest⟩ := hab
      obtain ⟨f, step₂, hagree⟩ := exists_of_rel_some (step ▸ h.perform ha)
      obtain ⟨e₂, rest₂, hlast, halong⟩ := ih hagree hrest
      refine ⟨e₂, .cons step₂ rest₂, hlast, ?_⟩
      rw [trace_cons step, trace_cons step₂]
      exact .cons ⟨h, ha⟩ halong

/-- How handlers end makes no difference to anybody else: whatever is done, it can be done
with any other endings instead, and goes the same way. -/
theorem indifferent_to_outcomes {d e₁ : Deployment} {as bs : List Action} (run : Run d as e₁)
    (resembles : List.Forall₂ Action.Resembles as bs) :
    ∃ e₂, Run d bs e₂ ∧ Undisturbed d as bs e₁ e₂ := by
  obtain ⟨e₂, run₂, last, along⟩ := (Agree.refl d).run resembles run
  refine ⟨e₂, run₂, along, last, ?_, ?_, ?_⟩
  · simp only [history_eq_trace, History.invoked, List.filterMap_map]
    exact filterMap_eq_of_forall₂ (along.imp fun s t hst => hst.1.invokes? hst.2)
  · exact filterMap_eq_of_forall₂ (along.imp fun s t hst => hst.1.askedAt hst.2)
  · exact filterMap_eq_of_forall₂ (along.imp fun s t hst => hst.1.finishedAt hst.2)

/-- The handler panics when it is told the roll. -/
def panicking : List Action :=
  [.turn 0, .start 0 0, .finish 0 0 (.panic (.text "out of luck")), .conclude 0]

theorem indifferent_to_outcomes_panicking :
    ∃ e₁ e₂, Run .empty (announcing ++ hearing) e₁ ∧ Run .empty (announcing ++ panicking) e₂ ∧
      e₁.report 0 = ⟨1, 0⟩ ∧ e₂.report 0 = ⟨0, 1⟩ ∧ e₁.hubs = e₂.hubs ∧
      (history .empty (announcing ++ hearing)).invoked =
        (history .empty (announcing ++ panicking)).invoked := by
  obtain ⟨d, hd⟩ : ∃ d, announcing.foldlM perform .empty = some d := ⟨_, rfl⟩
  have before := run_iff.mpr hd
  obtain ⟨e₁, run₁, hdelivered⟩ : ∃ e₁, Run d hearing e₁ ∧ e₁.report 0 = ⟨1, 0⟩ := by
    refine ⟨_, .cons (turn_announcing hd) (run_iff.mpr (by cases hd; rfl)), ?_⟩
    cases hd
    rfl
  obtain ⟨e₂, run₂, hfailed⟩ : ∃ e₂, Run d panicking e₂ ∧ e₂.report 0 = ⟨0, 1⟩ := by
    refine ⟨_, .cons (turn_announcing hd) (run_iff.mpr (by cases hd; rfl)), ?_⟩
    cases hd
    rfl
  have resembles : List.Forall₂ Action.Resembles (announcing ++ hearing)
      (announcing ++ panicking) :=
    .cons (.same _) <| .cons (.same _) <| .cons (.same _) <| .cons (.same _) <|
      .cons (.same _) <| .cons (.same _) <| .cons (.ended 0 0 _ _) <| .cons (.same _) .nil
  obtain ⟨f, run, undisturbed⟩ := indifferent_to_outcomes (before.append run₁) resembles
  obtain rfl : e₂ = f :=
    Option.some.inj ((run_iff.mp (before.append run₂)).symm.trans (run_iff.mp run))
  exact ⟨e₁, e₂, before.append run₁, run, hdelivered, hfailed, undisturbed.last.hubs,
    undisturbed.invoked⟩

end Deployment

end DiceRooms
