import DiceRooms.Proofs.Deployment.Holdings
import DiceRooms.Proofs.Deployment.Notifications

/-!
Sessions, viewers who have subscribed through a service, and pairs that have been registered
directly all stand in the registries of hubs, under ids that are generated for the first two and
chosen by the callers of the last. As long as generated ids are new and nobody chooses one of
them, each of these handles has a seat of its own, and whoever gives it up clears that seat alone.
-/
namespace DiceRooms

/-- A place in the registry of a hub. -/
@[ext]
structure Seat where
  hub : Nat
  room : String
  subscriber : String
deriving DecidableEq

/-- The seat is in the room, on the hub of the given number. -/
def Seat.isIn (k : Nat) (room : String) (seat : Seat) : Bool := seat.hub = k ∧ seat.room = room

def Session.seat (s : Session) : Seat := ⟨s.endpoint.hub, s.room, s.id⟩

def Viewer.seat (v : Viewer) : Seat := ⟨v.endpoint.hub, v.room, v.id⟩

/-- What has been registered, by one who can give it up again. -/
inductive Handle
  | session (s : Session)
  | viewer (v : Viewer) (f : Handler)
  | direct (seat : Seat) (f : Handler)
deriving DecidableEq

namespace Handle

def seat : Handle → Seat
  | session s => s.seat
  | viewer v _ => v.seat
  | direct seat _ => seat

def handler : Handle → Handler
  | session s => .feed s.feed
  | viewer _ f | direct _ f => f

def id (h : Handle) : String := h.seat.subscriber

/-- The id has been chosen by the caller. -/
def isDirect : Handle → Bool
  | direct .. => true
  | _ => false

def session? : Handle → Option Session
  | session s => some s
  | _ => none

def viewer? : Handle → Option Viewer
  | viewer v _ => some v
  | _ => none

def direct? : Handle → Option Seat
  | direct seat _ => some seat
  | _ => none

/-- Only handles that have been registered directly may have ids in common. -/
structure Apart (h h' : Handle) : Prop where
  seats : h.seat ≠ h'.seat
  ids : h.id = h'.id → h.isDirect = true ∧ h'.isDirect = true

instance : Std.Symm Apart where
  symm _ _ apart := ⟨apart.seats.symm, fun heq => (apart.ids heq.symm).symm⟩

end Handle

namespace Action

/-- The id that is generated for a new handle. A request without a room gets none. -/
def generates? : Action → Option String
  | openSession _ id _ => some id
  | subscribeViewer _ id room _ => if room = "" then none else some id
  | _ => none

/-- The id under which somebody calls a hub directly. -/
def chooses? : Action → Option String
  | subscribe _ _ id _ | unsubscribe _ _ id => some id
  | _ => none

/-- The id of a handle that is closed or unsubscribed. -/
def givesUp? : Action → Option String
  | closeSession s => some s.id
  | unsubscribeViewer v => some v.id
  | _ => none

/-- The handle is given up or replaced. -/
def releases : Action → Handle → Bool
  | closeSession s, .session s' => s = s'
  | unsubscribeViewer v, .viewer v' _ => v = v'
  | subscribe e room id _, .direct seat _ | unsubscribe e room id, .direct seat _ =>
    ⟨e.hub, room, id⟩ = seat
  | _, _ => false

/-- Nobody is to have the seat after the action. -/
inductive Clears : Action → Seat → Prop
  | session (s : Session) : Clears (closeSession s) s.seat
  | viewer (v : Viewer) : Clears (unsubscribeViewer v) v.seat
  | direct (e : Endpoint) (room id : String) : Clears (unsubscribe e room id) ⟨e.hub, room, id⟩

theorem Clears.unique {a : Action} {seat seat' : Seat} (clears : a.Clears seat)
    (clears' : a.Clears seat') : seat = seat' := by
  cases clears <;> cases clears' <;> rfl

end Action

namespace Trace

/-- The handle that comes of a call, by its answer. -/
def gained : Deployment × Action → Option Handle
  | (d, .openSession e id room) => (d.openSession e id room).2.toOption.map .session
  | (d, .subscribeViewer e id room f) =>
    (d.subscribeViewer e id room f).2.toOption.map (.viewer · f)
  | (d, .subscribe e room id f) =>
    (d.subscribe e room id f).2.toOption.map fun _ => .direct ⟨e.hub, room, id⟩ f
  | _ => none

/-- The handles that have not been given up by then. -/
def held (tr : Trace) : List Handle :=
  tr.foldl (fun hs s => hs.filter (! s.2.releases ·) ++ (gained s).toList) []

/-- The open sessions. -/
def sessions (tr : Trace) : List Session := tr.held.filterMap Handle.session?

/-- The viewers whose subscriptions are active. -/
def viewers (tr : Trace) : List Viewer := tr.held.filterMap Handle.viewer?

/-- The pairs that are registered directly. -/
def pairs (tr : Trace) : List Seat := tr.held.filterMap Handle.direct?

def generated (tr : Trace) : List String := tr.filterMap (·.2.generates?)

def chosen (tr : Trace) : List String := tr.filterMap (·.2.chooses?)

/-- The ids of the sessions that have been closed and the viewers who have unsubscribed. -/
def givenUp (tr : Trace) : List String := tr.filterMap (·.2.givesUp?)

def Unused (tr : Trace) (id : String) : Prop := id ∉ tr.generated ∧ id ∉ tr.chosen

instance (tr : Trace) (id : String) : Decidable (tr.Unused id) :=
  inferInstanceAs (Decidable (_ ∧ _))

end Trace

/-- Generated ids are new, those that are chosen are not generated, and a handle is given up by
the one who holds it. -/
def Proper (tr : Trace) : Action → Prop
  | .openSession _ id _ => tr.Unused id
  | .subscribeViewer _ id room _ => room ≠ "" → tr.Unused id
  | .subscribe _ _ id _ | .unsubscribe _ _ id => id ∉ tr.generated
  | .closeSession s => s ∈ tr.sessions
  | .unsubscribeViewer v => v ∈ tr.viewers
  | _ => True

/-- The trace leads to the deployment, and all that has been done with handles is proper. -/
inductive Managed : Trace → Deployment → Prop
  | start : Managed [] .empty
  | step {tr : Trace} {d d' : Deployment} {a : Action} (before : Managed tr d)
      (proper : Proper tr a) (performed : d.perform a = some d') : Managed (tr ++ [(d, a)]) d'

namespace Managed

variable {tr : Trace} {d d' : Deployment}

theorem run (managed : Managed tr d) : Deployment.Run .empty (tr.map Prod.snd) d := by
  induction managed with
  | start => exact .nil _
  | step before proper performed ih =>
      rw [List.map_append]
      exact ih.append (.single performed)

theorem reached (managed : Managed tr d) :
    Reached (Deployment.history .empty (tr.map Prod.snd)) d.core :=
  managed.run.reached

theorem unique (managed : Managed tr d) (managed' : Managed tr d') : d = d' :=
  Option.some.inj ((Deployment.run_iff.mp managed.run).symm.trans
    (Deployment.run_iff.mp managed'.run))

theorem of_concat {s : Deployment × Action} (managed : Managed (tr ++ [s]) d') :
    Managed tr s.1 ∧ Proper tr s.2 ∧ s.1.perform s.2 = some d' := by
  generalize htr : tr ++ [s] = all at managed
  cases managed with
  | start => simp at htr
  | step before proper performed =>
      obtain ⟨rfl, hs⟩ := List.append_inj' htr rfl
      cases hs
      exact ⟨before, proper, performed⟩

end Managed

/-! Traces that grow at the end. -/

namespace Trace

variable {tr : Trace} {s : Deployment × Action} {h : Handle}

theorem held_concat (tr : Trace) (s : Deployment × Action) :
    held (tr ++ [s]) = tr.held.filter (! s.2.releases ·) ++ (gained s).toList :=
  List.foldl_concat _ _ _ _

theorem mem_held_concat : h ∈ held (tr ++ [s]) ↔
    (h ∈ tr.held ∧ s.2.releases h = false) ∨ gained s = some h := by
  rw [held_concat, List.mem_append, List.mem_filter, Option.mem_toList, Bool.not_eq_true']

theorem mem_generated_concat {id : String} : id ∈ generated (tr ++ [s]) ↔
    id ∈ tr.generated ∨ s.2.generates? = some id := by
  rw [generated, Broker.filterMap_concat, List.mem_append, Option.mem_toList, generated]

theorem mem_chosen_concat {id : String} : id ∈ chosen (tr ++ [s]) ↔
    id ∈ tr.chosen ∨ s.2.chooses? = some id := by
  rw [chosen, Broker.filterMap_concat, List.mem_append, Option.mem_toList, chosen]

theorem mem_givenUp_concat {id : String} : id ∈ givenUp (tr ++ [s]) ↔
    id ∈ tr.givenUp ∨ s.2.givesUp? = some id := by
  rw [givenUp, Broker.filterMap_concat, List.mem_append, Option.mem_toList, givenUp]

theorem mem_sessions {s : Session} : s ∈ tr.sessions ↔ .session s ∈ tr.held := by
  rw [sessions, List.mem_filterMap]
  refine ⟨?_, fun h => ⟨_, h, rfl⟩⟩
  rintro ⟨h, hmem, heq⟩
  cases h <;> cases heq
  exact hmem

theorem mem_viewers {v : Viewer} : v ∈ tr.viewers ↔ ∃ f, .viewer v f ∈ tr.held := by
  rw [viewers, List.mem_filterMap]
  refine ⟨?_, fun ⟨f, h⟩ => ⟨_, h, rfl⟩⟩
  rintro ⟨h, hmem, heq⟩
  cases h <;> cases heq
  exact ⟨_, hmem⟩

end Trace

/-! What calls make of seats. -/

namespace Deployment

/-- The handler that is registered for the seat. -/
def seated? (d : Deployment) (seat : Seat) : Option Handler :=
  (d.registry? seat.hub).bind (·.get? seat.room seat.subscriber)

/-- The action asks for the handle. -/
inductive Registers (d : Deployment) : Action → Handle → Prop
  | session (e : Endpoint) (id room : String) :
      Registers d (.openSession e id room) (.session ⟨id, room, e, d.feeds.length⟩)
  | viewer (e : Endpoint) (id : String) {room : String} (f : Handler) (hroom : room ≠ "") :
      Registers d (.subscribeViewer e id room f) (.viewer ⟨id, room, e⟩ f)
  | direct (e : Endpoint) (room id : String) (f : Handler) :
      Registers d (.subscribe e room id f) (.direct ⟨e.hub, room, id⟩ f)

/-- The action is about the seat. -/
def Concerns (d : Deployment) (a : Action) (seat : Seat) : Prop :=
  a.Clears seat ∨ ∃ h, Registers d a h ∧ h.seat = seat

variable {d d' : Deployment} {a : Action} {h : Handle} {seat : Seat}

theorem Registers.not_clears (registers : Registers d a h) : ¬ a.Clears seat := by
  intro clears
  cases registers <;> cases clears

theorem callAt_of_registers (registers : Registers d a h) :
    Trace.callAt h.seat.hub (d, a) =
      some (.subscribe h.seat.room h.seat.subscriber h.handler) := by
  cases registers with
  | session e id room => exact callAt_eq_some_iff.mpr ⟨e, rfl, rfl⟩
  | viewer e id f hroom => exact callAt_eq_some_iff.mpr ⟨e, if_neg hroom, rfl⟩
  | direct e room id f => exact callAt_eq_some_iff.mpr ⟨e, rfl, rfl⟩

theorem callAt_of_clears (clears : a.Clears seat) :
    Trace.callAt seat.hub (d, a) = some (.unsubscribe seat.room seat.subscriber) := by
  cases clears with
  | session s => exact callAt_eq_some_iff.mpr ⟨s.endpoint, rfl, rfl⟩
  | viewer v => exact callAt_eq_some_iff.mpr ⟨v.endpoint, rfl, rfl⟩
  | direct e room id => exact callAt_eq_some_iff.mpr ⟨e, rfl, rfl⟩

theorem concerns_of_callAt {call : Call} (hcall : Trace.callAt seat.hub (d, a) = some call)
    (hpair : call.pair? = some (seat.room, seat.subscriber)) : d.Concerns a seat := by
  obtain ⟨hub, room, subscriber⟩ := seat
  obtain ⟨e, hmade, rfl⟩ := callAt_eq_some_iff.mp hcall
  cases a with
  | subscribe e room id f =>
      cases hmade
      cases hpair
      exact .inr ⟨_, .direct e _ _ f, rfl⟩
  | unsubscribe e room id =>
      cases hmade
      cases hpair
      exact .inl (.direct e _ _)
  | openSession e id room =>
      cases hmade
      cases hpair
      exact .inr ⟨_, .session e _ _, rfl⟩
  | closeSession s =>
      cases hmade
      cases hpair
      exact .inl (.session s)
  | subscribeViewer e id room f =>
      rw [call?] at hmade
      split at hmade
      · cases hmade
      · next hroom =>
          cases hmade
          cases hpair
          exact .inr ⟨_, .viewer e _ f hroom, rfl⟩
  | unsubscribeViewer v =>
      cases hmade
      cases hpair
      exact .inl (.viewer v)
  | notify e r =>
      cases hmade
      cases hpair
  | tellRoll n =>
      simp only [call?, Option.bind_eq_bind, Option.bind_eq_some_iff] at hmade
      obtain ⟨c, -, s, -, hmade⟩ := hmade
      cases hmade
      cases hpair
  | _ => cases hmade

theorem concerns_of_releases (hreleases : a.releases h = true) : d.Concerns a h.seat := by
  cases a with
  | closeSession s =>
      cases h with
      | session s' =>
          obtain rfl := of_decide_eq_true hreleases
          exact .inl (.session s)
      | viewer | direct => cases hreleases
  | unsubscribeViewer v =>
      cases h with
      | viewer v' f =>
          obtain rfl := of_decide_eq_true hreleases
          exact .inl (.viewer v)
      | session | direct => cases hreleases
  | subscribe e room id f =>
      cases h with
      | direct seat g =>
          obtain rfl := of_decide_eq_true hreleases
          exact .inr ⟨_, .direct e room id f, rfl⟩
      | session | viewer => cases hreleases
  | unsubscribe e room id =>
      cases h with
      | direct seat g =>
          obtain rfl := of_decide_eq_true hreleases
          exact .inl (.direct e room id)
      | session | viewer => cases hreleases
  | _ => cases h <;> cases hreleases

/-- A hub that has just been built has nobody registered. -/
theorem seated?_of_absent (step : d.perform a = some d') (hnone : d.registry? seat.hub = none) :
    d'.seated? seat = none := by
  have happens := happens_perform step
  rw [seated?]
  cases hr : d'.registry? seat.hub with
  | none => rfl
  | some r =>
      have hr : d'.core.registryOf? seat.hub = some r := hr
      rw [happens.core_eq] at hr
      have hnew : d.core.hubs.length ≤ seat.hub := by
        by_contra hold
        rw [Core.registryOf?_apply _ (Nat.lt_of_not_le hold)] at hr
        obtain ⟨old, hold, -⟩ := Option.map_eq_some_iff.mp hr
        cases hold.symm.trans hnone
      obtain rfl := Core.eq_empty_of_registryOf?_apply happens.possible hnew hr
      rfl

theorem seated?_of_registers (step : d.perform a = some d') (registers : Registers d a h)
    {r : Registry Handler} (hr : d.registry? h.seat.hub = some r) :
    d'.seated? h.seat = some h.handler := by
  rw [seated?, registry?_perform hr step, callAt_of_registers registers]
  exact (Call.get?_change_of_pair? rfl _).mpr rfl

theorem seated?_of_clears (step : d.perform a = some d') (clears : a.Clears seat) :
    d'.seated? seat = none := by
  cases hr : d.registry? seat.hub with
  | none => exact seated?_of_absent step hr
  | some r =>
      rw [seated?, registry?_perform hr step, callAt_of_clears clears]
      simp [Call.change, Registry.get?_delete]

theorem seated?_of_not_concerns (step : d.perform a = some d') (hnot : ¬ d.Concerns a seat) :
    d'.seated? seat = d.seated? seat := by
  cases hr : d.registry? seat.hub with
  | none => rw [seated?_of_absent step hr, seated?, hr, Option.bind_none]
  | some r =>
      rw [seated?, seated?, registry?_perform hr step, hr, Option.bind_some, Option.bind_some]
      cases hcall : Trace.callAt seat.hub (d, a) with
      | none => rfl
      | some call =>
          exact Call.get?_change_of_pair?_ne fun hpair => hnot (concerns_of_callAt hcall hpair)

/-! Answers. -/

theorem toOption_changeRegistry (d : Deployment) (e : Endpoint) (op : Operation)
    (change : Registry Handler → Registry Handler × Bool) (notice : Bool → Notice) :
    (d.changeRegistry e op change notice).2.toOption =
      (d.registry? e.hub).map fun r => (change r).2 := by
  rw [changeRegistry, registry?]
  cases d.hubs[e.hub]? with
  | none => rfl
  | some hub => cases hub <;> rfl

theorem toOption_openSession (d : Deployment) (e : Endpoint) (id room : String) :
    (d.openSession e id room).2.toOption =
      (d.registry? e.hub).map fun _ => ⟨id, room, e, d.feeds.length⟩ := by
  have hanswer := toOption_changeRegistry { d with feeds := d.feeds ++ [Feed.fresh] } e .subscribe
    (·.set room id (.feed d.feeds.length)) (.handlerSet room id)
  change _ = (d.registry? e.hub).map _ at hanswer
  rw [openSession, subscribe]
  split
  · next heq =>
      rw [heq] at hanswer
      rw [Option.map_eq_none_iff.mp hanswer.symm]
      rfl
  · next heq =>
      rw [heq] at hanswer
      obtain ⟨r, hr, -⟩ := Option.map_eq_some_iff.mp hanswer.symm
      rw [hr]
      rfl

theorem toOption_subscribeViewer (d : Deployment) (e : Endpoint) (id : String) {room : String}
    (f : Handler) (hroom : room ≠ "") : (d.subscribeViewer e id room f).2.toOption =
      (d.registry? e.hub).map fun _ => ⟨id, room, e⟩ := by
  have hanswer := toOption_changeRegistry d e .subscribe (·.set room id f) (.handlerSet room id)
  rw [subscribeViewer, if_neg hroom, subscribe]
  split
  · next heq =>
      rw [heq] at hanswer
      rw [Option.map_eq_none_iff.mp hanswer.symm]
      rfl
  · next heq =>
      rw [heq] at hanswer
      obtain ⟨r, hr, -⟩ := Option.map_eq_some_iff.mp hanswer.symm
      rw [hr]
      rfl

theorem unsubscribeViewer_answer {v : Viewer} {r : Registry Handler}
    (hr : d.registry? v.endpoint.hub = some r) : (d.unsubscribeViewer v).2 = .ok () := by
  have hanswer := changeRegistry_answer hr .unsubscribe (·.delete v.room v.id)
    (.handlerDeleted v.room v.id)
  rw [unsubscribeViewer, unsubscribe]
  split
  · next heq => cases heq ▸ hanswer
  · rfl

/-- Who asks for a handle gets it just when the hub has a registry. -/
theorem gained_eq_some_iff : Trace.gained (d, a) = some h ↔
    Registers d a h ∧ ∃ r, d.registry? h.seat.hub = some r := by
  constructor
  · intro hgained
    cases a with
    | openSession e id room =>
        rw [Trace.gained, toOption_openSession, Option.map_map, Option.map_eq_some_iff] at hgained
        obtain ⟨r, hr, rfl⟩ := hgained
        exact ⟨.session e id room, r, hr⟩
    | subscribeViewer e id room f =>
        by_cases hroom : room = ""
        · rw [Trace.gained, subscribeViewer, if_pos hroom] at hgained
          cases hgained
        · rw [Trace.gained, toOption_subscribeViewer d e id f hroom, Option.map_map,
            Option.map_eq_some_iff] at hgained
          obtain ⟨r, hr, rfl⟩ := hgained
          exact ⟨.viewer e id f hroom, r, hr⟩
    | subscribe e room id f =>
        rw [Trace.gained, subscribe, toOption_changeRegistry, Option.map_map,
          Option.map_eq_some_iff] at hgained
        obtain ⟨r, hr, rfl⟩ := hgained
        exact ⟨.direct e room id f, r, hr⟩
    | _ => cases hgained
  · rintro ⟨registers, r, hr⟩
    cases registers with
    | session e id room =>
        rw [Trace.gained, toOption_openSession]
        exact congrArg (Option.map _) (congrArg (Option.map _) hr)
    | viewer e id f hroom =>
        rw [Trace.gained, toOption_subscribeViewer d e id f hroom]
        exact congrArg (Option.map _) (congrArg (Option.map _) hr)
    | direct e room id f =>
        rw [Trace.gained, subscribe, toOption_changeRegistry]
        exact congrArg (Option.map _) (congrArg (Option.map _) hr)

/-! The ids of new handles. -/

section
variable {tr : Trace}

theorem Registers.generates? (registers : Registers d a h) (hnot : h.isDirect = false) :
    a.generates? = some h.id := by
  cases registers with
  | session e id room => rfl
  | viewer e id f hroom => exact if_neg hroom
  | direct e room id f => cases hnot

theorem Registers.chooses? (registers : Registers d a h) (hdirect : h.isDirect = true) :
    a.chooses? = some h.id := by
  cases registers with
  | direct e room id f => rfl
  | session e id room | viewer e id f hroom => cases hdirect

theorem Registers.new (registers : Registers d a h) (proper : Proper tr a) :
    h.id ∉ tr.generated ∧ (h.isDirect = false → h.id ∉ tr.chosen) := by
  cases registers with
  | session e id room => exact ⟨proper.1, fun _ => proper.2⟩
  | viewer e id f hroom => exact ⟨(proper hroom).1, fun _ => (proper hroom).2⟩
  | direct e room id f => exact ⟨proper, nofun⟩

end

end Deployment

/-! What is held. -/

/-- The handles that are held are what is registered, and ids tell them apart. -/
structure Kept (tr : Trace) (d : Deployment) : Prop where
  seated : ∀ seat f, d.seated? seat = some f ↔ ∃ h ∈ tr.held, h.seat = seat ∧ h.handler = f
  apart : tr.held.Pairwise Handle.Apart
  generated : ∀ h ∈ tr.held, h.isDirect = false → h.id ∈ tr.generated
  chosen : ∀ h ∈ tr.held, h.isDirect = true → h.id ∈ tr.chosen
  gone : ∀ id ∈ tr.givenUp, id ∈ tr.generated ∧ ∀ h ∈ tr.held, h.id ≠ id

namespace Kept

open Deployment

variable {tr : Trace} {d d' : Deployment} {a : Action} {h h' : Handle}

theorem start : Kept [] .empty where
  seated seat f := ⟨nofun, fun ⟨h, hmem, _⟩ => by cases hmem⟩
  apart := .nil
  generated := List.forall_mem_nil _
  chosen := List.forall_mem_nil _
  gone := List.forall_mem_nil _

section
variable (kept : Kept tr d)
include kept

/-- A generated id belongs to one handle. -/
theorem eq_of_id (hmem : h ∈ tr.held) (hmem' : h' ∈ tr.held) (hnot : h.isDirect = false)
    (hid : h.id = h'.id) : h = h' := by
  by_contra hne
  have apart := kept.apart.forall hmem hmem' hne
  cases hnot.symm.trans (apart.ids hid).1

theorem isDirect_of_not_generated (hmem : h ∈ tr.held) (hnot : h.id ∉ tr.generated) :
    h.isDirect = true := by
  cases hdirect : h.isDirect with
  | true => rfl
  | false => exact (hnot (kept.generated h hmem hdirect)).elim

theorem eq_direct {seat : Seat} (hmem : h ∈ tr.held) (hseat : h.seat = seat)
    (hnot : seat.subscriber ∉ tr.generated) : ∃ f, h = .direct seat f := by
  subst hseat
  have hdirect := kept.isDirect_of_not_generated hmem hnot
  cases h with
  | direct seat f => exact ⟨f, rfl⟩
  | session | viewer => cases hdirect

theorem id_ne_of_unused {id : String} (unused : tr.Unused id) (hmem : h ∈ tr.held) :
    h.id ≠ id := by
  rintro rfl
  exact unused.2 (kept.chosen h hmem (kept.isDirect_of_not_generated hmem unused.1))

variable (proper : Proper tr a)
include proper

theorem releases_of_clears (hmem : h ∈ tr.held) (clears : a.Clears h.seat) :
    a.releases h = true := by
  generalize hseat : h.seat = seat at clears
  cases clears with
  | session s =>
      obtain rfl := kept.eq_of_id (Trace.mem_sessions.mp proper) hmem rfl
        (congrArg Seat.subscriber hseat.symm)
      exact decide_eq_true rfl
  | viewer v =>
      obtain ⟨f, hv⟩ := Trace.mem_viewers.mp proper
      obtain rfl := kept.eq_of_id hv hmem rfl (congrArg Seat.subscriber hseat.symm)
      exact decide_eq_true rfl
  | direct e room id =>
      obtain ⟨f, rfl⟩ := kept.eq_direct hmem hseat proper
      exact decide_eq_true rfl

/-- A seat that is asked for is free, unless it has been registered directly. -/
theorem releases_of_registers (hmem : h ∈ tr.held) (registers : Registers d a h')
    (hseat : h.seat = h'.seat) : a.releases h = true := by
  have hid : h.id = h'.id := congrArg Seat.subscriber hseat
  cases registers with
  | session e id room => exact (kept.id_ne_of_unused proper hmem hid).elim
  | viewer e id f hroom => exact (kept.id_ne_of_unused (proper hroom) hmem hid).elim
  | direct e room id f =>
      obtain ⟨g, rfl⟩ := kept.eq_direct hmem hseat proper
      exact decide_eq_true rfl

/-- A handle is released just when a call is made for its seat. -/
theorem releases_iff (hmem : h ∈ tr.held) : a.releases h = true ↔ d.Concerns a h.seat := by
  refine ⟨concerns_of_releases, ?_⟩
  rintro (clears | ⟨new, registers, hseat⟩)
  · exact kept.releases_of_clears proper hmem clears
  · exact kept.releases_of_registers proper hmem registers hseat.symm

theorem seated_step (performed : d.perform a = some d') (seat : Seat) (f : Handler) :
    d'.seated? seat = some f ↔ ∃ h ∈ Trace.held (tr ++ [(d, a)]), h.seat = seat ∧
      h.handler = f := by
  simp only [Trace.mem_held_concat]
  by_cases hconcerns : d.Concerns a seat
  · have released : ∀ h ∈ tr.held, a.releases h = false → h.seat ≠ seat := by
      rintro h hmem hkept rfl
      cases hkept.symm.trans ((kept.releases_iff proper hmem).mpr hconcerns)
    constructor
    · intro hseated
      rcases hconcerns with clears | ⟨h, registers, rfl⟩
      · cases (seated?_of_clears performed clears).symm.trans hseated
      · cases hr : d.registry? h.seat.hub with
        | none => cases (seated?_of_absent performed hr).symm.trans hseated
        | some r =>
            rw [seated?_of_registers performed registers hr] at hseated
            exact ⟨h, .inr (gained_eq_some_iff.mpr ⟨registers, r, hr⟩), rfl,
              Option.some.inj hseated⟩
    · rintro ⟨h, ⟨hmem, hkept⟩ | hgained, hseat, rfl⟩
      · exact (released h hmem hkept hseat).elim
      · obtain ⟨registers, r, hr⟩ := gained_eq_some_iff.mp hgained
        exact hseat ▸ seated?_of_registers performed registers hr
  · rw [seated?_of_not_concerns performed hconcerns, kept.seated]
    constructor
    · rintro ⟨h, hmem, rfl, hhandler⟩
      refine ⟨h, .inl ⟨hmem, ?_⟩, rfl, hhandler⟩
      exact Bool.eq_false_iff.mpr fun hreleases =>
        hconcerns ((kept.releases_iff proper hmem).mp hreleases)
    · rintro ⟨h, ⟨hmem, -⟩ | hgained, rfl, hhandler⟩
      · exact ⟨h, hmem, rfl, hhandler⟩
      · exact (hconcerns (.inr ⟨h, (gained_eq_some_iff.mp hgained).1, rfl⟩)).elim

/-- A new handle is apart from those that are held on. -/
theorem apart_of_gained (hmem : h ∈ tr.held) (hkept : a.releases h = false)
    (hgained : Trace.gained (d, a) = some h') : h.Apart h' := by
  obtain ⟨registers, -⟩ := gained_eq_some_iff.mp hgained
  obtain ⟨hnew, hunchosen⟩ := registers.new proper
  refine ⟨fun hseat => ?_, fun hid => ?_⟩
  · have hconcerns : d.Concerns a h.seat := .inr ⟨h', registers, hseat.symm⟩
    cases hkept.symm.trans ((kept.releases_iff proper hmem).mpr hconcerns)
  · have hdirect := kept.isDirect_of_not_generated hmem (hid ▸ hnew)
    refine ⟨hdirect, ?_⟩
    cases hdirect' : h'.isDirect with
    | true => rfl
    | false => exact (hunchosen hdirect' (hid ▸ kept.chosen h hmem hdirect)).elim

theorem apart_step : (Trace.held (tr ++ [(d, a)])).Pairwise Handle.Apart := by
  rw [Trace.held_concat, List.pairwise_append]
  refine ⟨kept.apart.filter _, ?_, ?_⟩
  · cases Trace.gained (d, a) with
    | none => exact .nil
    | some h => exact List.pairwise_singleton _ h
  · intro h hmem h' hgained
    obtain ⟨hmem, hkept⟩ := List.mem_filter.mp hmem
    exact kept.apart_of_gained proper hmem (by simpa using hkept)
      (Option.mem_toList.mp hgained)

/-- What has been given up is not held any more. -/
theorem not_held_of_givesUp {id : String} (hgives : a.givesUp? = some id) :
    id ∈ tr.generated ∧ ∀ h ∈ Trace.held (tr ++ [(d, a)]), h.id ≠ id := by
  have alone : ∀ {own : Handle}, own ∈ tr.held → own.isDirect = false → a.releases own = true →
      Trace.gained (d, a) = none → own.id ∈ tr.generated ∧
        ∀ h ∈ Trace.held (tr ++ [(d, a)]), h.id ≠ own.id := by
    intro own hown hnot hreleases hnone
    refine ⟨kept.generated own hown hnot, fun h hmem hid => ?_⟩
    rcases Trace.mem_held_concat.mp hmem with ⟨hmem, hkept⟩ | hgained
    · obtain rfl := kept.eq_of_id hown hmem hnot hid.symm
      cases hreleases.symm.trans hkept
    · cases hnone.symm.trans hgained
  cases a with
  | closeSession s =>
      cases hgives
      exact alone (Trace.mem_sessions.mp proper) rfl (decide_eq_true rfl) rfl
  | unsubscribeViewer v =>
      cases hgives
      obtain ⟨f, hv⟩ := Trace.mem_viewers.mp proper
      exact alone hv rfl (decide_eq_true rfl) rfl
  | _ => cases hgives

theorem gone_step {id : String} (hid : id ∈ Trace.givenUp (tr ++ [(d, a)])) :
    id ∈ Trace.generated (tr ++ [(d, a)]) ∧
      ∀ h ∈ Trace.held (tr ++ [(d, a)]), h.id ≠ id := by
  rcases Trace.mem_givenUp_concat.mp hid with hid | hgives
  · obtain ⟨hgenerated, hnone⟩ := kept.gone id hid
    refine ⟨Trace.mem_generated_concat.mpr (.inl hgenerated), fun h hmem => ?_⟩
    rcases Trace.mem_held_concat.mp hmem with ⟨hmem, -⟩ | hgained
    · exact hnone h hmem
    · rintro rfl
      exact ((gained_eq_some_iff.mp hgained).1.new proper).1 hgenerated
  · obtain ⟨hgenerated, hnone⟩ := kept.not_held_of_givesUp proper hgives
    exact ⟨Trace.mem_generated_concat.mpr (.inl hgenerated), hnone⟩

theorem step (performed : d.perform a = some d') : Kept (tr ++ [(d, a)]) d' where
  seated := kept.seated_step proper performed
  apart := kept.apart_step proper
  generated h hmem hnot := by
    rcases Trace.mem_held_concat.mp hmem with ⟨hmem, -⟩ | hgained
    · exact Trace.mem_generated_concat.mpr (.inl (kept.generated h hmem hnot))
    · exact Trace.mem_generated_concat.mpr
        (.inr ((gained_eq_some_iff.mp hgained).1.generates? hnot))
  chosen h hmem hdirect := by
    rcases Trace.mem_held_concat.mp hmem with ⟨hmem, -⟩ | hgained
    · exact Trace.mem_chosen_concat.mpr (.inl (kept.chosen h hmem hdirect))
    · exact Trace.mem_chosen_concat.mpr
        (.inr ((gained_eq_some_iff.mp hgained).1.chooses? hdirect))
  gone _ := kept.gone_step proper

end

end Kept

theorem Managed.kept {tr : Trace} {d : Deployment} (managed : Managed tr d) : Kept tr d := by
  induction managed with
  | start => exact .start
  | step before proper performed ih => exact ih.step proper performed

end DiceRooms
