import DiceRooms.Proofs.Deployment.Creating

/-!
What actions make of the services and of the rolls under way. Only five kinds of actions show
there: a service is opened, gets a request, has dice thrown, tells a roll or hears that a roll
has been told. The calls that shut hubs down are left alone by all but their own steps.
-/
namespace DiceRooms

/-- The action is one that services take part in. -/
def Action.serves : Action → Bool
  | addService .. | requestRoll .. | throwDice .. | tellRoll _ | endCreation _ => true
  | _ => false

/-- The action is one that feeds take part in. -/
def Action.stirs : Action → Bool
  | start .. | finish .. | openSession .. | closeSession _ | dropRows _ | dropNotifications _
  | readFeed _ => true
  | _ => false

namespace Deployment

/-- How the creation of the given number goes on by an action. -/
inductive Proceeds (d : Deployment) (n : Nat) (c : Creation) : Action → Creation → Prop
  | misthrown {throw : Roll → Except DiceError Roll} {e : DiceError} (drafted : c.stage = .drafted)
      (fails : throw c.roll = .error e) :
      Proceeds d n c (.throwDice n throw) { c with stage := .ended (.error e) }
  | thrown {throw : Roll → Except DiceError Roll} {r : Roll} (drafted : c.stage = .drafted)
      (throws : throw c.roll = .ok r) :
      Proceeds d n c (.throwDice n throw) { c with roll := r, stage := .thrown }
  | told {s : Service} (thrown : c.stage = .thrown) (hs : d.services[c.service]? = some s) :
      Proceeds d n c (.tellRoll n)
        { c with stage := .ofNotified (d.notify s.notifier c.roll).2 }
  | ended {k : Nat} (telling : c.stage = .telling k) :
      Proceeds d n c (.endCreation n) { c with stage := .ended (.ok ()) }

/-- What an action makes of the services and the creations. -/
inductive Serves (d d' : Deployment) : Action → Prop
  | aside {a : Action} (ha : a.serves = false) (services : d'.services = d.services)
      (creations : d'.creations = d.creations) : Serves d d' a
  | opens {notifier subscriber : Endpoint}
      (services : d'.services = d.services ++ [⟨0, notifier, subscriber⟩])
      (creations : d'.creations = d.creations) : Serves d d' (.addService notifier subscriber)
  | refuses {k : Nat} {ids : UInt64 → FreshIds} {now : Instant} {q : Request} {e : InvalidRequest}
      (refused : q.check = .error e) (same : d' = d) : Serves d d' (.requestRoll k ids now q)
  | accepts {k : Nat} {s : Service} {ids : UInt64 → FreshIds} {now : Instant} {q : Request}
      (accepted : q.check = .ok ()) (hs : d.services[k]? = some s)
      (services : d'.services = d.services.set k { s with serial := s.serial + 1 })
      (creations : d'.creations = d.creations ++
        [⟨k, q.draft (s.serial + 1) (ids (s.serial + 1)) now, .drafted⟩]) :
      Serves d d' (.requestRoll k ids now q)
  | proceeds {a : Action} {n : Nat} {c c' : Creation} (hc : d.creations[n]? = some c)
      (proceeds : Proceeds d n c a c') (services : d'.services = d.services)
      (creations : d'.creations = d.creations.set n c') : Serves d d' a

variable {d d' : Deployment}

/-- Services and creations. -/
def books (d : Deployment) : List Service × List Creation := (d.services, d.creations)

theorem books_of_front (h : d'.front = d.front) : d'.books = d.books :=
  congrArg (fun f : Front => (f.services, f.creations)) h

theorem books_notify (d : Deployment) (e : Endpoint) (r : Roll) :
    (d.notify e r).1.books = d.books :=
  books_of_front (d.front_notify e r)

theorem front_buildHub (d : Deployment) (c : HubConfig) : (d.buildHub c).1.front = d.front := by
  rw [buildHub]
  split
  · rfl
  · next route token channel _ =>
      have hvia := aside_front.viaExchange d (d.exchange.subscribe route c.topic channel)
      generalize d.viaExchange _ = x at hvia ⊢
      obtain ⟨d₁, answer⟩ := x
      cases answer <;> exact hvia

theorem front_listen (d : Deployment) (topic : String) (capacity : Nat) (closed : Bool) :
    (d.listen topic capacity closed).1.front = d.front := by
  rw [listen]
  split
  · rfl
  · next c _ =>
      have hvia := aside_front.viaExchange d
        (d.exchange.subscribe .direct topic (if closed then c.close else c))
      generalize d.viaExchange _ = x at hvia ⊢
      obtain ⟨d₁, answer⟩ := x
      cases answer <;> exact hvia

/-- What neither services nor feeds nor shutdowns take part in does not show in the front. -/
theorem front_of_apart {a : Action} (hserves : a.serves = false) (hstirs : a.stirs = false)
    (hstops : a.stops = false) (step : d.perform a = some d') : d'.front = d.front := by
  cases a with
  | shutdown | takeHandle | endShutdown | abandonShutdown => cases hstops
  | addService | requestRoll | throwDice | tellRoll | endCreation => cases hserves
  | start | finish | openSession | closeSession | dropRows | dropNotifications | readFeed =>
      cases hstirs
  | build c =>
      cases step
      exact d.front_buildHub c
  | subscribe | unsubscribe =>
      cases step
      exact d.front_changeRegistry _ _ _ _
  | notify e r =>
      cases step
      exact d.front_notify e r
  | conclude n => exact front_conclude step
  | turn n => exact aside_front.turn step
  | dropHub n =>
      cases step
      simp only [dropHub]
      split <;> rfl
  | listen topic capacity closed =>
      cases step
      exact d.front_listen topic capacity closed
  | leave | publish =>
      cases step
      exact aside_front.viaExchange d _
  | subscribeViewer e id room f =>
      cases step
      have hfront : (d.subscribe e room id f).1.front = d.front := d.front_changeRegistry e _ _ _
      rw [subscribeViewer]
      split
      · rfl
      · generalize d.subscribe e room id f = x at hfront ⊢
        obtain ⟨d₁, answer⟩ := x
        cases answer <;> exact hfront
  | unsubscribeViewer v =>
      cases step
      have hfront : (d.unsubscribe v.endpoint v.room v.id).1.front = d.front :=
        d.front_changeRegistry v.endpoint _ _ _
      rw [unsubscribeViewer]
      generalize d.unsubscribe v.endpoint v.room v.id = x at hfront ⊢
      obtain ⟨d₁, answer⟩ := x
      cases answer <;> exact hfront
  | _ =>
      cases step
      rfl

section
variable {k : Nat} {s : Service} {ids : UInt64 → FreshIds} {now : Instant} {q : Request}

theorem requestRoll_of_refused {e : InvalidRequest} (hs : d.services[k]? = some s)
    (refused : q.check = .error e) : d.requestRoll k ids now q = some (d, .error e) := by
  have hsame : d.services.set k s = d.services :=
    (set_eq_modify (f := id) hs rfl).trans (List.modify_id k d.services)
  simp only [requestRoll, Request.accept, hs, refused, Option.bind_eq_bind, Option.bind_some]
  rw [hsame]

theorem requestRoll_of_accepted (hs : d.services[k]? = some s) (accepted : q.check = .ok ()) :
    d.requestRoll k ids now q = some
      ({ d with
          services := d.services.set k { s with serial := s.serial + 1 }
          creations := d.creations ++
            [⟨k, q.draft (s.serial + 1) (ids (s.serial + 1)) now, .drafted⟩] },
        .ok d.creations.length) := by
  simp only [requestRoll, Request.accept, hs, accepted, Option.bind_eq_bind, Option.bind_some]

end

/-- Feeds and shutdowns are left alone by what services take part in, -/
theorem front_of_serves {a : Action} (ha : a.serves = true) (step : d.perform a = some d') :
    ∃ services creations, d'.front = { d.front with services, creations } := by
  cases a with
  | addService =>
      cases step
      exact ⟨_, _, rfl⟩
  | requestRoll k ids now q =>
      obtain ⟨r, request, rfl⟩ := Option.map_eq_some_iff.mp step
      obtain ⟨s, hs⟩ := service_of_requestRoll request
      cases hcheck : q.check with
      | error e =>
          rw [requestRoll_of_refused hs hcheck] at request
          cases request
          exact ⟨_, _, rfl⟩
      | ok =>
          rw [requestRoll_of_accepted hs hcheck] at request
          cases request
          exact ⟨_, _, rfl⟩
  | throwDice n throw =>
      simp only [perform, throwDice, Option.bind_eq_bind, Option.bind_eq_some_iff] at step
      obtain ⟨c, -, step⟩ := step
      split at step
      · split at step <;> · cases step; exact ⟨_, _, rfl⟩
      · cases step
  | tellRoll n =>
      simp only [perform, tellRoll, Option.bind_eq_bind, Option.bind_eq_some_iff] at step
      obtain ⟨c, -, s, -, step⟩ := step
      split at step
      · cases step
        have hfront := d.front_notify s.notifier c.roll
        exact ⟨_, _, congrArg₂ (Front.mk · _ _ ·) (congrArg Front.feeds hfront)
          (congrArg Front.shutdowns hfront)⟩
      · cases step
  | endCreation n =>
      simp only [perform, endCreation, Option.bind_eq_bind, Option.bind_eq_some_iff] at step
      obtain ⟨c, -, step⟩ := step
      split at step
      · split at step
        · cases step
          exact ⟨_, _, rfl⟩
        · cases step
      · cases step
  | _ => cases ha

/-- all but the feeds by what feeds take part in, -/
theorem front_of_stirs {a : Action} (ha : a.stirs = true) (step : d.perform a = some d') :
    ∃ feeds, d'.front = { d.front with feeds } := by
  cases a with
  | start | finish => exact ⟨_, (front_of_settles rfl step).1⟩
  | openSession e id room =>
      cases step
      have hfront := front_changeRegistry { d with feeds := d.feeds ++ [Feed.fresh] } e .subscribe
        (·.set room id (.feed d.feeds.length)) (.handlerSet room id)
      rw [openSession, subscribe]
      generalize changeRegistry _ e _ _ _ = x at hfront ⊢
      obtain ⟨d₁, answer⟩ := x
      cases answer <;> exact ⟨_, hfront⟩
  | closeSession s =>
      cases step
      have hfront := (d.adjustFeed s.feed Feed.drop).front_changeRegistry s.endpoint .unsubscribe
        (·.delete s.room s.id) (.handlerDeleted s.room s.id)
      rw [closeSession, unsubscribe]
      generalize changeRegistry _ s.endpoint _ _ _ = x at hfront ⊢
      obtain ⟨d₁, answer⟩ := x
      cases answer <;> exact ⟨_, hfront⟩
  | dropRows | dropNotifications | readFeed =>
      cases step
      exact ⟨_, rfl⟩
  | _ => cases ha

/-- and all but the shutdowns by their own steps. -/
theorem front_of_stops {a : Action} (ha : a.stops = true) (step : d.perform a = some d') :
    ∃ shutdowns, d'.front = { d.front with shutdowns } := by
  obtain ⟨_, _, shutdowns, rfl⟩ := of_stops ha step
  exact ⟨shutdowns, rfl⟩

section
variable {a : Action} (step : d.perform a = some d')
include step

theorem books_of_not_serves (ha : a.serves = false) : d'.books = d.books := by
  cases hstirs : a.stirs with
  | true =>
      obtain ⟨feeds, h⟩ := front_of_stirs hstirs step
      exact congrArg (fun f : Front => (f.services, f.creations)) h
  | false =>
      cases hstops : a.stops with
      | true =>
          obtain ⟨shutdowns, h⟩ := front_of_stops hstops step
          exact congrArg (fun f : Front => (f.services, f.creations)) h
      | false => exact books_of_front (front_of_apart ha hstirs hstops step)

theorem feeds_of_not_stirs (ha : a.stirs = false) : d'.feeds = d.feeds := by
  cases hserves : a.serves with
  | true =>
      obtain ⟨services, creations, h⟩ := front_of_serves hserves step
      exact congrArg Front.feeds h
  | false =>
      cases hstops : a.stops with
      | true =>
          obtain ⟨shutdowns, h⟩ := front_of_stops hstops step
          exact congrArg Front.feeds h
      | false => exact congrArg Front.feeds (front_of_apart hserves ha hstops step)

theorem shutdowns_of_not_stops (ha : a.stops = false) : d'.shutdowns = d.shutdowns := by
  cases hserves : a.serves with
  | true =>
      obtain ⟨services, creations, h⟩ := front_of_serves hserves step
      exact congrArg Front.shutdowns h
  | false =>
      cases hstirs : a.stirs with
      | true =>
          obtain ⟨feeds, h⟩ := front_of_stirs hstirs step
          exact congrArg Front.shutdowns h
      | false => exact congrArg Front.shutdowns (front_of_apart hserves hstirs ha step)

end

section
variable {k : Nat} {s : Service} {ids : UInt64 → FreshIds} {now : Instant} {q : Request}

theorem serves_requestRoll (step : d.perform (.requestRoll k ids now q) = some d') :
    Serves d d' (.requestRoll k ids now q) := by
  obtain ⟨r, request, rfl⟩ := Option.map_eq_some_iff.mp step
  obtain ⟨s, hs⟩ := service_of_requestRoll request
  cases hcheck : q.check with
  | error e =>
      rw [requestRoll_of_refused hs hcheck] at request
      cases request
      exact .refuses hcheck rfl
  | ok =>
      rw [requestRoll_of_accepted hs hcheck] at request
      cases request
      exact .accepts hcheck hs rfl rfl

end

theorem serves_tellRoll {n : Nat} (step : d.perform (.tellRoll n) = some d') :
    Serves d d' (.tellRoll n) := by
  simp only [perform, tellRoll, Option.bind_eq_bind, Option.bind_eq_some_iff] at step
  obtain ⟨c, hc, s, hs, step⟩ := step
  split at step
  · next hstage =>
      cases step
      have hbooks := d.books_notify s.notifier c.roll
      refine .proceeds hc (.told hstage hs) (congrArg Prod.fst hbooks) ?_
      have hcreations : (d.notify s.notifier c.roll).1.creations = d.creations :=
        congrArg Prod.snd hbooks
      rw [setCreation, hcreations]
  · cases step

/-- Every action makes of services and creations what it can. -/
theorem serves_perform {a : Action} (step : d.perform a = some d') : Serves d d' a := by
  cases a with
  | addService notifier subscriber =>
      cases step
      exact .opens rfl rfl
  | requestRoll k ids now q => exact serves_requestRoll step
  | throwDice n throw =>
      simp only [perform, throwDice, Option.bind_eq_bind, Option.bind_eq_some_iff] at step
      obtain ⟨c, hc, step⟩ := step
      split at step
      · next hstage =>
          split at step
          · next e hthrow =>
              cases step
              exact .proceeds hc (.misthrown hstage hthrow) rfl rfl
          · next r hthrow =>
              cases step
              exact .proceeds hc (.thrown hstage hthrow) rfl rfl
      · cases step
  | tellRoll n => exact serves_tellRoll step
  | endCreation n =>
      simp only [perform, endCreation, Option.bind_eq_bind, Option.bind_eq_some_iff] at step
      obtain ⟨c, hc, step⟩ := step
      split at step
      · next k hstage =>
          split at step
          · cases step
            exact .proceeds hc (.ended hstage) rfl rfl
          · cases step
      · cases step
  | _ =>
      have hbooks := books_of_not_serves step rfl
      exact .aside rfl (congrArg Prod.fst hbooks) (congrArg Prod.snd hbooks)

end Deployment

end DiceRooms
