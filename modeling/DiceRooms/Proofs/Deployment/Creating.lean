import DiceRooms.Proofs.Deployment.Front

/-!
How a roll is created, from the request to the rest that follows. The service throws the dice
and tells the roll to its notifier; loops and handlers do the rest, in any order. It takes only
so many steps, and when no step is left every feed has been sent the row and the id of the roll
as often as the feed's handler stands among those of its room.
-/
namespace DiceRooms

namespace Deployment

/-- A step that comes of the request for the roll of the given number. -/
inductive ComesOf (n : Nat) (throw : Roll → Except DiceError Roll) : Action → Prop
  | throwDice : ComesOf n throw (.throwDice n throw)
  | tellRoll : ComesOf n throw (.tellRoll n)
  | endCreation : ComesOf n throw (.endCreation n)
  | settles {a : Action} (h : a.settles = true) : ComesOf n throw a

/-- No step is left that comes of the request. -/
def Quiet (d : Deployment) (n : Nat) (throw : Roll → Except DiceError Roll) : Prop :=
  ∀ a, ComesOf n throw a → d.perform a = none

/-- What whoever has asked for the roll is answered. -/
def result? (d : Deployment) (n : Nat) : Option (Except DiceError Roll) :=
  match d.creations[n]? with
  | some ⟨_, roll, .ended (.ok ())⟩ => some (.ok roll)
  | some ⟨_, _, .ended (.error e)⟩ => some (.error e)
  | _ => none

/-- Whatever is told gets around. -/
structure Hospitable (d : Deployment) : Prop where
  reached : ∃ h, Reached h d.core
  attended : Attended d.core

/-- Besides, nothing is under way. -/
structure Calm (d : Deployment) : Prop extends Hospitable d where
  still : Still d.core

/-- Nobody has come or gone between the two. -/
structure Stays (d d' : Deployment) : Prop where
  feeds : d'.feeds.length = d.feeds.length
  hubs : d'.hubs.length = d.hubs.length
  registries : ∀ m, d'.core.registryOf? m = d.core.registryOf? m

variable {d d' : Deployment} {n : Nat} {throw : Roll → Except DiceError Roll} {a : Action}

theorem inside_event (ha : a.settles = true) : (d.event a).inside = true := by
  have causes := d.causes_event a
  generalize d.event a = e at causes ⊢
  cases causes with
  | idle | start _ _ | finish _ _ _ _ | conclude _ _ | turn _ => rfl
  | byHand byHand => cases byHand <;> cases ha
  | _ => cases ha

/-- Nobody does anything of himself in a calm deployment. -/
theorem Calm.settled (calm : Calm d) : d.Settled := by
  intro a ha
  obtain ⟨h, reached⟩ := calm.reached
  cases hstep : d.perform a with
  | none => rfl
  | some d' =>
      exact (calm.still.not_possible calm.attended reached (settles_event ha hstep)
        (happens_perform hstep).possible).elim

theorem Hospitable.congr (hospitable : Hospitable d) (hcore : d'.core = d.core) :
    Hospitable d' := by
  obtain ⟨reached, attended⟩ := hospitable
  rw [← hcore] at reached attended
  exact ⟨reached, attended⟩

theorem Calm.congr (calm : Calm d) (hcore : d'.core = d.core) : Calm d' :=
  ⟨calm.toHospitable.congr hcore, hcore ▸ calm.still⟩

namespace Stays

theorem of_core (hcore : d'.core = d.core) (hfeeds : d'.feeds = d.feeds) : Stays d d' where
  feeds := by rw [hfeeds]
  hubs := congrArg (·.hubs.length) hcore
  registries m := by rw [hcore]

theorem trans {d'' : Deployment} (first : Stays d d') (second : Stays d' d'') : Stays d d'' where
  feeds := second.feeds.trans first.feeds
  hubs := second.hubs.trans first.hubs
  registries m := (second.registries m).trans (first.registries m)

end Stays

/-- Handlers and loops bring nobody and turn nobody out. -/
theorem Hospitable.inside (hospitable : Hospitable d) {e : Event} (happens : Happens d e d')
    (he : e.inside = true) (hfeeds : d'.feeds.length = d.feeds.length) :
    Hospitable d' ∧ Stays d d' := by
  obtain ⟨⟨h, reached⟩, attended⟩ := hospitable
  have hordinary := Event.ordinary_of_inside he
  refine ⟨⟨?_, ?_⟩, hfeeds, ?_, fun m => ?_⟩
  · rw [happens.core_eq]
    exact ⟨_, reached.step happens.possible⟩
  · rw [happens.core_eq]
    exact attended.apply reached happens.possible hordinary
  · rw [show d'.hubs = _ from congrArg Core.hubs happens.core_eq]
    exact e.length_hubs hordinary d.hubs
  · rw [happens.core_eq, registryOf?_apply he]

/-! The steps of the service. -/

section
variable {c : Creation} (hc : d.creations[n]? = some c)
include hc

theorem throwDice_of_drafted (hstage : c.stage = .drafted) :
    d.throwDice n throw = some (match throw c.roll with
      | .error e => d.setCreation n { c with stage := .ended (.error e) }
      | .ok roll => (d.setCreation n { c with roll, stage := .thrown }).tell
          [.diceRolled roll.id roll.total]) := by
  simp only [throwDice, hc, Option.bind_eq_bind, Option.bind_some, hstage]
  cases throw c.roll <;> rfl

theorem tellRoll_of_thrown {s : Service} (hs : d.services[c.service]? = some s)
    (hstage : c.stage = .thrown) : d.tellRoll n = some ((d.notify s.notifier c.roll).1.setCreation n
      { c with stage := .ofNotified (d.notify s.notifier c.roll).2 }) := by
  simp [tellRoll, hc, hs, hstage]

theorem tellRoll_of_not_thrown (hstage : c.stage ≠ .thrown) : d.tellRoll n = none := by
  simp [tellRoll, hc]

theorem endCreation_of_telling {k : Nat} (hstage : c.stage = .telling k)
    (hconcluded : d.isConcluded k = true) :
    d.endCreation n = some (d.setCreation n { c with stage := .ended (.ok ()) }) := by
  simp [endCreation, hc, hstage, hconcluded]

/-- The service takes the step that the stage of the roll asks for. -/
theorem ComesOf.stage_cases (comesOf : ComesOf n throw a) (step : d.perform a = some d') :
    a.settles = true ∨ (a = .throwDice n throw ∧ c.stage = .drafted) ∨
      (a = .tellRoll n ∧ c.stage = .thrown) ∨
      (∃ k, a = .endCreation n ∧ c.stage = .telling k) := by
  cases comesOf with
  | settles h => exact .inl h
  | throwDice =>
      simp only [perform, Deployment.throwDice, hc, Option.bind_eq_bind, Option.bind_some] at step
      split at step
      · next hstage => exact .inr (.inl ⟨rfl, hstage⟩)
      · cases step
  | tellRoll =>
      simp only [perform, Deployment.tellRoll, hc, Option.bind_eq_bind, Option.bind_some,
        Option.bind_eq_some_iff] at step
      obtain ⟨s, -, step⟩ := step
      split at step
      · next hstage => exact .inr (.inr (.inl ⟨rfl, hstage⟩))
      · cases step
  | endCreation =>
      simp only [perform, Deployment.endCreation, hc, Option.bind_eq_bind, Option.bind_some] at step
      split at step
      · next k hstage => exact .inr (.inr (.inr ⟨k, rfl, hstage⟩))
      · cases step

end

/-! A roll that has been told. -/

/-- The roll of the given number has been told in a deployment that was calm before. -/
structure Spreads (before : Deployment) (n : Nat) (r : Roll) (d : Deployment) : Prop where
  hospitable : Hospitable d
  stays : Stays before d
  creation : ∃ c, d.creations[n]? = some c ∧ c.roll = r ∧ (c.stage = .ended (.ok ()) ∨
    ∃ k p, c.stage = .telling k ∧ d.core.dispatches[k]? = some p)

/-- What the feed has been sent at the moment of its handler and what it is yet to be sent make
what the hubs had for it. -/
def Hears (before : Deployment) (m : Moment) (r : Roll) (d : Deployment) (k : Nat) : Prop :=
  ∃ rs : List Roll, d.feeds[k]?.map (·.stream m) =
      before.feeds[k]?.map (fun f => m.sendAll rs (f.stream m)) ∧
    ∀ r', rs.count r' + d.core.awaits m (.feed k) r' =
      if r = r' then before.core.places (.feed k) r.room else 0

theorem endCreation_eq_some {c : Creation} (hc : d.creations[n]? = some c)
    (step : d.endCreation n = some d') :
    d' = d.setCreation n { c with stage := .ended (.ok ()) } := by
  simp only [endCreation, hc, Option.bind_eq_bind, Option.bind_some] at step
  split at step
  · split at step
    · exact (Option.some.inj step).symm
    · cases step
  · cases step

theorem getElem?_setCreation {c : Creation} (hc : d.creations[n]? = some c) (c' : Creation) :
    (d.setCreation n c').creations[n]? = some c' :=
  List.getElem?_set_self (List.getElem?_eq_some_iff.mp hc).1

section
variable {before : Deployment} {r r' : Roll}

theorem Spreads.perform (spreads : Spreads before n r d) (comesOf : ComesOf n throw a)
    (step : d.perform a = some d') : Spreads before n r d' := by
  obtain ⟨c, hc, hroll, hstage⟩ := spreads.creation
  rcases comesOf.stage_cases hc step with ha | ⟨rfl, h⟩ | ⟨rfl, h⟩ | ⟨k, rfl, htelling⟩
  · have happens := happens_perform step
    obtain ⟨hfront, hfeeds⟩ := front_of_settles ha step
    obtain ⟨hospitable, stays⟩ := spreads.hospitable.inside happens (inside_event ha) hfeeds
    refine ⟨hospitable, spreads.stays.trans stays, ?_⟩
    rw [show d'.creations = _ from congrArg Front.creations hfront]
    refine ⟨c, hc, hroll, hstage.imp_right ?_⟩
    rintro ⟨k, p, htelling, hp⟩
    rw [happens.core_eq]
    exact ⟨k, _, htelling, Core.getElem?_dispatches_apply_of_some hp (d.event a)⟩
  · simp [h] at hstage
  · simp [h] at hstage
  · obtain rfl := endCreation_eq_some hc step
    exact ⟨spreads.hospitable.congr rfl, spreads.stays.trans (.of_core rfl rfl), _,
      getElem?_setCreation hc _, hroll, .inl rfl⟩

theorem Hears.perform {m : Moment} {k : Nat} (hears : Hears before m r' d k)
    (spreads : Spreads before n r d) (comesOf : ComesOf n throw a)
    (step : d.perform a = some d') : Hears before m r' d' k := by
  obtain ⟨c, hc, hroll, hstage⟩ := spreads.creation
  obtain ⟨rs, hstream, hbalance⟩ := hears
  rcases comesOf.stage_cases hc step with ha | ⟨rfl, h⟩ | ⟨rfl, h⟩ | ⟨_, rfl, htelling⟩
  · obtain ⟨h, reached⟩ := spreads.hospitable.reached
    have happens := happens_perform step
    have hsent : d'.feeds[k]?.map (·.stream m) = (before.feeds[k]?).map fun f =>
        (m.sendAll rs (f.stream m)).sent k ((d.event a).reaches? m d.core) := by
      rw [stream_of_settles ha step, ← Function.comp_def (Stream.sent k _), ← Option.map_map,
        hstream, Option.map_map]
      rfl
    have hawaits : ∀ r', d'.core.awaits m (.feed k) r' +
        (d.event a).tells m d.core (.feed k) r' = d.core.awaits m (.feed k) r' := by
      intro r'
      rw [happens.core_eq]
      exact reached.awaits_settles happens.possible (settles_event ha step)
    cases hreaches : (d.event a).reaches? m d.core with
    | none =>
        rw [hreaches] at hsent
        refine ⟨rs, hsent, fun r' => ?_⟩
        rw [← hbalance, ← hawaits, Event.tells, hreaches]
        rfl
    | some v =>
        rw [hreaches] at hsent
        have htells : ∀ r', (d.event a).tells m d.core (.feed k) r' =
            if v.handler = .feed k ∧ v.roll = r' then 1 else 0 := by
          intro r'
          rw [Event.tells, hreaches]
          rfl
        by_cases hown : v.handler = .feed k
        · refine ⟨rs ++ [v.roll], ?_, fun r' => ?_⟩
          · rw [hsent]
            simp only [Stream.sent, hown, if_true, Moment.sendAll_concat]
          · rw [← hbalance, ← hawaits, htells, List.count_append, List.count_singleton]
            simp only [hown, true_and, beq_iff_eq]
            omega
        · refine ⟨rs, ?_, fun r' => ?_⟩
          · rw [hsent]
            simp only [Stream.sent, hown, if_false]
          · rw [← hbalance, ← hawaits, htells, if_neg fun h => hown h.1]
            rfl
  · simp [h] at hstage
  · simp [h] at hstage
  · obtain rfl := endCreation_eq_some hc step
    exact ⟨rs, hstream, hbalance⟩

end

/-! The roll is told. -/

theorem notify_of_attended (attended : Attended d.core) {e : Endpoint}
    (hthere : e.hub < d.hubs.length) (r : Roll) :
    (∃ hub, d.notifyEvent e r = .announce e.hub hub r ∧ (d.notify e r).2 = .done (.ok ())) ∨
      ∃ registry, d.notifyEvent e r = .tell e registry r ∧
        (d.notify e r).2 = .dispatched d.core.dispatches.length := by
  cases attended with
  | memory registry hubs =>
      have hubs : d.hubs = [.memory registry] := hubs
      rw [hubs, List.length_singleton, Nat.lt_one_iff] at hthere
      have hhub : d.hubs[e.hub]? = some (.memory registry) := by rw [hubs, hthere]; rfl
      refine .inr ⟨registry, by simp [notifyEvent, hhub], ?_⟩
      rw [notify, hhub]
      exact congrArg Notified.dispatched Array.length_toList.symm
  | brokers topic attend =>
      obtain ⟨hub, hn, attends⟩ := attend e.hub hthere
      have hhub : d.hubs[e.hub]? = some (.broker hub) := Core.brokerHub?_eq_some_iff.mp hn
      refine .inl ⟨hub, by simp [notifyEvent, hhub, attends.route, Route.fails], ?_⟩
      rw [notify, hhub]
      simp only [publish, attends.route]
      rfl

theorem inside_notifyEvent (attended : Attended d.core) {e : Endpoint}
    (hthere : e.hub < d.hubs.length) (r : Roll) : (d.notifyEvent e r).inside = true := by
  rcases notify_of_attended attended hthere r with ⟨hub, hevent, -⟩ | ⟨registry, hevent, -⟩
  · rw [hevent]
    rfl
  · rw [hevent]
    rfl

/-- A roll has been told to the notifier of its service. -/
structure Told (d : Deployment) (n : Nat) (c : Creation) (s : Service) (d' : Deployment) :
    Prop where
  happens : Happens d (d.notifyEvent s.notifier c.roll) d'
  feeds : d'.feeds = d.feeds
  creation : d'.creations[n]? =
    some { c with stage := .ofNotified (d.notify s.notifier c.roll).2 }

section
variable {c : Creation} {s : Service}

namespace Told

theorem spreads (told : Told d n c s d') (calm : Calm d)
    (hthere : s.notifier.hub < d.hubs.length) : Spreads d n c.roll d' := by
  have he := inside_notifyEvent calm.attended hthere c.roll
  obtain ⟨hospitable, stays⟩ :=
    calm.toHospitable.inside told.happens he (congrArg List.length told.feeds)
  refine ⟨hospitable, stays, _, told.creation, rfl, ?_⟩
  rcases notify_of_attended calm.attended hthere c.roll with ⟨hub, -, hanswer⟩ |
    ⟨registry, hevent, hanswer⟩
  · exact .inl (by rw [hanswer]; rfl)
  · refine .inr ⟨_, .begin (.caller s.notifier) registry c.roll, by rw [hanswer]; rfl, ?_⟩
    rw [told.happens.core_eq, hevent]
    exact List.getElem?_concat_length

/-- All that the hubs have for the room await the roll, and nobody awaits another. Hubs on a
broker tell it with its time settled. -/
theorem hears (told : Told d n c s d') (calm : Calm d) (hthere : s.notifier.hub < d.hubs.length)
    (hplain : Wire.PlainYear c.roll.createdAt) : ∃ r : Roll, r.settled = c.roll.settled ∧
      ∀ (m : Moment) (k : Nat), Hears d m r d' k := by
  obtain ⟨h, reached⟩ := calm.reached
  have hpossible := told.happens.possible
  have begins : ∀ {r : Roll}, (∀ (m : Moment) (f : Handler) (r' : Roll), d'.core.awaits m f r' =
      d.core.awaits m f r' + if r = r' then d.core.places f r'.room else 0) →
      ∀ (m : Moment) (k : Nat), Hears d m r d' k := by
    intro r hawaits m k
    refine ⟨[], ?_, fun r' => ?_⟩
    · rw [told.feeds]
      rfl
    · rw [List.count_nil, hawaits, calm.still.awaits reached, Nat.zero_add, Nat.zero_add]
      exact if_ctx_congr Iff.rfl (fun heq => by rw [heq]) fun _ => rfl
  rcases notify_of_attended calm.attended hthere c.roll with ⟨hub, hevent, -⟩ |
    ⟨registry, hevent, -⟩
  · rw [hevent] at hpossible
    refine ⟨c.roll.settled, c.roll.settled_settled, begins fun m f r' => ?_⟩
    rw [told.happens.core_eq, hevent,
      awaits_announce reached hpossible calm.attended calm.still.silent hplain]
  · rw [hevent] at hpossible
    refine ⟨c.roll, rfl, begins fun m f r' => ?_⟩
    rw [told.happens.core_eq, hevent, awaits_tell calm.attended hpossible]

end Told

variable (hc : d.creations[n]? = some c)
  (hs : d.services[c.service]? = some s) (hstage : c.stage = .thrown)
include hc hs hstage

theorem told_of_tellRoll (step : d.tellRoll n = some d') : Told d n c s d' := by
  have hevent : d.tellRollEvent n = d.notifyEvent s.notifier c.roll := by
    simp [tellRollEvent, hc, hs]
  have happens := happens_tellRoll step
  rw [tellRoll_of_thrown hc hs hstage] at step
  have hd' := Option.some.inj step
  have hfront := front_notify d s.notifier c.roll
  refine ⟨hevent ▸ happens, ?_, ?_⟩
  · rw [← hd']
    exact congrArg Front.feeds hfront
  · rw [← hd']
    exact getElem?_setCreation ((congrArg (·.creations[n]?) hfront).trans hc) _

/-- Without a hub nothing is told. -/
theorem Calm.tellRoll_nowhere (calm : Calm d) (hnot : ¬ s.notifier.hub < d.hubs.length)
    (step : d.tellRoll n = some d') : Calm d' ∧ d'.core = d.core ∧ d'.feeds = d.feeds ∧
      d'.creations[n]? = some { c with stage := .ended (.error (.event noSuchHub)) } := by
  have hhub : d.hubs[s.notifier.hub]? = none := List.getElem?_eq_none (Nat.not_lt.mp hnot)
  have hnotify : d.notify s.notifier c.roll = (d, .done (.error noSuchHub)) := by
    rw [notify, hhub]
  rw [tellRoll_of_thrown hc hs hstage, hnotify] at step
  obtain rfl := Option.some.inj step
  exact ⟨calm.congr rfl, rfl, rfl, getElem?_setCreation hc _⟩

end

/-! Runs of the steps that come of a request. -/

/-- No more than so many steps of the kind can be taken. -/
def Bounded (A : Action → Prop) (d : Deployment) (most : Nat) : Prop :=
  ∀ {as d'}, Run d as d' → (∀ a ∈ as, A a) → as.length ≤ most

section
variable {A : Action → Prop} {a₀ : Action}

theorem exists_bound_of_only (only : ∀ {a d₁}, A a → d.perform a = some d₁ → a = a₀)
    (next : ∀ {d₁}, d.perform a₀ = some d₁ → ∃ most, Bounded A d₁ most) :
    ∃ most, Bounded A d most := by
  cases hstep : d.perform a₀ with
  | none =>
      refine ⟨0, fun run hA => ?_⟩
      cases run with
      | nil => exact Nat.le_refl 0
      | cons step rest =>
          obtain rfl := only (hA _ List.mem_cons_self) step
          cases hstep.symm.trans step
  | some d₁ =>
      obtain ⟨most, bounded⟩ := next hstep
      refine ⟨most + 1, fun run hA => ?_⟩
      cases run with
      | nil => exact Nat.zero_le _
      | cons step rest =>
          obtain ⟨ha, has⟩ := List.forall_mem_cons.mp hA
          obtain rfl := only ha step
          cases hstep.symm.trans step
          exact Nat.succ_le_succ (bounded rest has)

/-- Where there are bounds, whoever goes on comes to where no step is left. -/
theorem exists_quiet_of_bounded {most : Nat} (bounded : Bounded A d most) :
    ∃ as d', Run d as d' ∧ (∀ a ∈ as, A a) ∧ ∀ a, A a → d'.perform a = none := by
  induction most generalizing d with
  | zero =>
      refine ⟨[], d, .nil d, nofun, fun a ha => ?_⟩
      cases hstep : d.perform a with
      | none => rfl
      | some d₁ =>
          have hle := bounded (.single hstep) (List.forall_mem_singleton.mpr ha)
          cases hle
  | succ most ih =>
      by_cases hquiet : ∀ a, A a → d.perform a = none
      · exact ⟨[], d, .nil d, nofun, hquiet⟩
      · simp only [not_forall] at hquiet
        obtain ⟨a, ha, hstep⟩ := hquiet
        obtain ⟨d₁, step⟩ := Option.ne_none_iff_exists'.mp hstep
        obtain ⟨as, d', run, has, quiet⟩ := ih (d := d₁) fun run hA =>
          Nat.le_of_succ_le_succ
            (bounded (.cons step run) (List.forall_mem_cons.mpr ⟨ha, hA⟩))
        exact ⟨a :: as, d', .cons step run, List.forall_mem_cons.mpr ⟨ha, has⟩, quiet⟩

/-- A run that ends where no step is left begins with the only step that there is. -/
theorem Run.first {as : List Action} {d₁ : Deployment} (run : Run d as d')
    (hA : ∀ a ∈ as, A a) (only : ∀ {a d₁}, A a → d.perform a = some d₁ → a = a₀) (ha₀ : A a₀)
    (step : d.perform a₀ = some d₁) (quiet : ∀ a, A a → d'.perform a = none) :
    ∃ rest, Run d₁ rest d' ∧ ∀ a ∈ rest, A a := by
  cases run with
  | nil => cases (quiet a₀ ha₀).symm.trans step
  | cons step' rest =>
      obtain ⟨ha, has⟩ := List.forall_mem_cons.mp hA
      obtain rfl := only ha step'
      cases step.symm.trans step'
      exact ⟨_, rest, has⟩

end

/-- The service has the only steps that can be taken. -/
theorem Calm.only {c : Creation} (calm : Calm d) (hc : d.creations[n]? = some c)
    (comesOf : ComesOf n throw a) (step : d.perform a = some d') :
    (a = .throwDice n throw ∧ c.stage = .drafted) ∨ (a = .tellRoll n ∧ c.stage = .thrown) ∨
      ∃ k, a = .endCreation n ∧ c.stage = .telling k := by
  refine (comesOf.stage_cases hc step).resolve_left fun ha => ?_
  cases step.symm.trans (calm.settled a ha)

section
variable {before : Deployment} {r r' : Roll} {as : List Action}

theorem Spreads.run (spreads : Spreads before n r d) (run : Run d as d')
    (comesOf : ∀ a ∈ as, ComesOf n throw a) : Spreads before n r d' := by
  induction run with
  | nil => exact spreads
  | cons step _ ih =>
      obtain ⟨ha, has⟩ := List.forall_mem_cons.mp comesOf
      exact ih (spreads.perform ha step) has

theorem Hears.run {m : Moment} {k : Nat} (hears : Hears before m r' d k)
    (spreads : Spreads before n r d) (run : Run d as d') (comesOf : ∀ a ∈ as, ComesOf n throw a) :
    Hears before m r' d' k := by
  induction run with
  | nil => exact hears
  | cons step _ ih =>
      obtain ⟨ha, has⟩ := List.forall_mem_cons.mp comesOf
      exact ih (hears.perform spreads ha step) (spreads.perform ha step) has

theorem Spreads.calm (spreads : Spreads before n r d) (quiet : Quiet d n throw) :
    Calm d ∧ d.result? n = some (.ok r) := by
  obtain ⟨hospitable, -, c, hc, rfl, hstage⟩ := spreads
  have settled : d.Settled := fun a ha => quiet a (.settles ha)
  obtain ⟨h, reached⟩ := hospitable.reached
  refine ⟨⟨hospitable, still_of_settled reached hospitable.attended settled⟩, ?_⟩
  obtain ⟨service, roll, stage⟩ := c
  rcases hstage with rfl | ⟨k, p, rfl, hp⟩
  · rw [result?, hc]
  · have hconcluded : d.isConcluded k = true := by
      rw [isConcluded, getElem?_core.mp hp]
      exact concluded_of_settled settled (getElem?_core.mp hp)
    cases (endCreation_of_telling hc rfl hconcluded).symm.trans (quiet _ .endCreation)

/-- In the end the feed has been sent all that the hubs had for it. -/
theorem Hears.all {m : Moment} {k : Nat} (hears : Hears before m r d k) (calm : Calm d) :
    d.feeds[k]?.map (·.stream m) = before.feeds[k]?.map fun f =>
      m.sendAll (List.replicate (before.core.places (.feed k) r.room) r) (f.stream m) := by
  obtain ⟨h, reached⟩ := calm.reached
  obtain ⟨rs, hstream, hbalance⟩ := hears
  have hcount : ∀ r', rs.count r' =
      if r = r' then before.core.places (.feed k) r.room else 0 := by
    intro r'
    rw [← hbalance, calm.still.awaits reached, Nat.add_zero]
  have hall : ∀ r' ∈ rs, r' = r := by
    intro r' hr'
    have hpos := List.count_pos_iff.mpr hr'
    rw [hcount] at hpos
    split at hpos
    · next heq => exact heq.symm
    · cases hpos
  have hrs : rs = List.replicate (before.core.places (.feed k) r.room) r := by
    refine List.eq_replicate_iff.mpr ⟨?_, hall⟩
    rw [← List.count_eq_length.mpr fun r' hr' => (hall r' hr').symm, hcount, if_pos rfl]
  rw [hstream, hrs]

end

/-! From the request to the answer. -/

/-- A request that a service gets is refused, or it becomes a draft. -/
theorem requestRoll_of_service {service : Nat} {s : Service} (hs : d.services[service]? = some s)
    (ids : UInt64 → FreshIds) (now : Instant) (q : Request) :
    ∃ d' answer, d.requestRoll service ids now q = some (d', answer) ∧ d'.core = d.core ∧
      d'.feeds = d.feeds ∧ (∃ serial, d'.services[service]? = some { s with serial }) ∧
      match (q.accept s.serial ids now).2 with
      | .error e => answer = .error e
      | .ok draft => ∃ n, answer = .ok n ∧ d'.creations[n]? = some ⟨service, draft, .drafted⟩ := by
  have hlt := (List.getElem?_eq_some_iff.mp hs).1
  simp only [requestRoll, hs, Option.bind_eq_bind, Option.bind_some]
  rcases q.accept s.serial ids now with ⟨serial, accepted⟩
  cases accepted with
  | error e => exact ⟨_, _, rfl, rfl, rfl, ⟨serial, List.getElem?_set_self hlt⟩, rfl⟩
  | ok draft =>
      exact ⟨_, _, rfl, rfl, rfl, ⟨serial, List.getElem?_set_self hlt⟩, _, rfl,
        List.getElem?_concat_length⟩

theorem service_of_requestRoll {service : Nat} {ids : UInt64 → FreshIds} {now : Instant}
    {q : Request} {r : Deployment × Except InvalidRequest Nat}
    (request : d.requestRoll service ids now q = some r) : ∃ s, d.services[service]? = some s := by
  rw [requestRoll, Option.bind_eq_bind, Option.bind_eq_some_iff] at request
  obtain ⟨s, hs, -⟩ := request
  exact ⟨s, hs⟩

/-- What the creation of a roll leaves behind. -/
structure Created (before : Deployment) (result : Except DiceError Roll) (after : Deployment) :
    Prop where
  calm : Calm after
  stays : Stays before after
  failed : ∀ {e}, result = .error e → after.feeds = before.feeds
  /-- The roll is told, or the same with its time settled. -/
  heard : ∀ {r}, result = .ok r → Wire.PlainYear r.createdAt →
    ∃ r' : Roll, r'.settled = r.settled ∧ ∀ (m : Moment) (k : Nat),
      after.feeds[k]?.map (·.stream m) = before.feeds[k]?.map fun f =>
        m.sendAll (List.replicate (before.core.places (.feed k) r.room) r') (f.stream m)

/-- The roll has been told, and whoever has asked for it waits for the answer. -/
def unanswered (d : Deployment) (n : Nat) : Nat :=
  match d.creations[n]? with
  | some ⟨_, _, .telling _⟩ => 1
  | _ => 0

theorem Spreads.bounded {before : Deployment} {r : Roll} (spreads : Spreads before n r d) :
    Bounded (ComesOf n throw) d (d.core.left + d.unanswered n) := by
  intro as d' run comesOf
  induction run with
  | nil => exact Nat.zero_le _
  | @cons d d₁ d' a as step rest ih =>
      obtain ⟨ha, has⟩ := List.forall_mem_cons.mp comesOf
      have hrest := ih (spreads.perform ha step) has
      obtain ⟨h, reached⟩ := spreads.hospitable.reached
      obtain ⟨c, hc, -, hstage⟩ := spreads.creation
      have hless : d₁.core.left + d₁.unanswered n < d.core.left + d.unanswered n := by
        rcases ha.stage_cases hc step with ha | ⟨rfl, h⟩ | ⟨rfl, h⟩ | ⟨k, rfl, htelling⟩
        · have hcreations : d₁.creations = d.creations :=
            congrArg Front.creations (front_of_settles ha step).1
          rw [unanswered, hcreations]
          exact Nat.add_lt_add_right
            (left_lt_of_perform reached ha step) _
        · simp [h] at hstage
        · simp [h] at hstage
        · obtain rfl := endCreation_eq_some hc step
          obtain ⟨service, roll, stage⟩ := c
          cases htelling
          rw [unanswered, getElem?_setCreation hc, unanswered, hc]
          exact Nat.lt_succ_self _
      rw [List.length_cons]
      omega

/-- A calm deployment stays as it is once the roll has failed. -/
theorem Calm.ended {service : Nat} {roll : Roll} {result : Except DiceError Unit}
    (calm : Calm d) (hc : d.creations[n]? = some ⟨service, roll, .ended result⟩) {as : List Action}
    (run : Run d as d') (comesOf : ∀ a ∈ as, ComesOf n throw a) : as = [] ∧ d' = d := by
  cases run with
  | nil => exact ⟨rfl, rfl⟩
  | cons step _ =>
      have ha := comesOf _ List.mem_cons_self
      rcases calm.only hc ha step with ⟨-, h⟩ | ⟨-, h⟩ | ⟨k, -, h⟩ <;> cases h

section
variable {service : Nat} {draft : Roll} {s : Service} (calm : Calm d)
  (hc : d.creations[n]? = some ⟨service, draft, .drafted⟩)
  (hs : d.services[service]? = some s)
include calm hc

theorem Calm.only_throwDice {d₁ : Deployment} (comesOf : ComesOf n throw a)
    (step : d.perform a = some d₁) : a = .throwDice n throw := by
  rcases calm.only hc comesOf step with ⟨rfl, -⟩ | ⟨-, h⟩ | ⟨k, -, h⟩
  · rfl
  · cases h
  · cases h

omit hc in
theorem Calm.only_tellRoll {d₁ : Deployment} {r : Roll}
    (hc : d.creations[n]? = some ⟨service, r, .thrown⟩) (comesOf : ComesOf n throw a)
    (step : d.perform a = some d₁) : a = .tellRoll n := by
  rcases calm.only hc comesOf step with ⟨-, h⟩ | ⟨rfl, -⟩ | ⟨k, -, h⟩
  · cases h
  · rfl
  · cases h

/-- The dice have been thrown, and nothing else has changed. -/
theorem Calm.throwDice (throw : Roll → Except DiceError Roll) :
    ∃ d₁, d.perform (.throwDice n throw) = some d₁ ∧ Calm d₁ ∧ d₁.core = d.core ∧
    d₁.feeds = d.feeds ∧ d₁.services = d.services ∧
    d₁.creations[n]? = some (match throw draft with
      | .error e => ⟨service, draft, .ended (.error e)⟩
      | .ok r => ⟨service, r, .thrown⟩) := by
  refine ⟨_, throwDice_of_drafted hc rfl, ?_⟩
  cases hthrow : throw draft with
  | error e =>
      exact ⟨calm.congr rfl, rfl, rfl, rfl, getElem?_setCreation hc _⟩
  | ok r =>
      exact ⟨calm.congr rfl, rfl, rfl, rfl, getElem?_setCreation hc _⟩

include hs

/-- Whoever asks for a roll in a calm deployment is answered, and it is calm again. -/
theorem Calm.creation {as : List Action} (run : Run d as d')
    (comesOf : ∀ a ∈ as, ComesOf n throw a) (quiet : Quiet d' n throw) :
    ∃ result, d'.result? n = some result ∧ Created d result d' ∧
      (s.notifier.hub < d.hubs.length → result = throw draft) := by
  obtain ⟨d₁, step, calm₁, hcore, hfeeds, hservices, hc₁⟩ := calm.throwDice hc throw
  have stays := Stays.of_core hcore hfeeds
  obtain ⟨rest, run₁, comesOf₁⟩ :=
    run.first comesOf (calm.only_throwDice hc) .throwDice step quiet
  cases hthrow : throw draft with
  | error e =>
      rw [hthrow] at hc₁
      obtain ⟨rfl, rfl⟩ := calm₁.ended hc₁ run₁ comesOf₁
      exact ⟨.error e, by rw [result?, hc₁], ⟨calm₁, stays, fun _ => hfeeds, nofun⟩, fun _ => rfl⟩
  | ok r =>
      rw [hthrow] at hc₁
      rw [← hservices] at hs
      have step₁ := tellRoll_of_thrown hc₁ hs rfl
      obtain ⟨rest₂, run₂, comesOf₂⟩ :=
        run₁.first comesOf₁ (calm₁.only_tellRoll hc₁) .tellRoll step₁ quiet
      by_cases hthere : s.notifier.hub < d₁.hubs.length
      · have told := told_of_tellRoll hc₁ hs rfl step₁
        have spreads := told.spreads calm₁ hthere
        have spreads' := spreads.run run₂ comesOf₂
        obtain ⟨calm', hresult⟩ := spreads'.calm quiet
        refine ⟨.ok r, hresult, ⟨calm', stays.trans spreads'.stays, nofun, ?_⟩, fun _ => rfl⟩
        rintro _ ⟨⟩ hplain
        obtain ⟨r', hsettled, hears⟩ := told.hears calm₁ hthere hplain
        have hroom : r'.settled.room = r.settled.room := congrArg Roll.room hsettled
        rw [Roll.room_settled, Roll.room_settled] at hroom
        refine ⟨r', hsettled, fun m k => ?_⟩
        have hall := ((hears m k).run spreads run₂ comesOf₂).all calm'
        rwa [hfeeds, hcore, hroom] at hall
      · obtain ⟨calm₂, hcore₂, hfeeds₂, hc₂⟩ := calm₁.tellRoll_nowhere hc₁ hs rfl hthere step₁
        obtain ⟨rfl, rfl⟩ := calm₂.ended hc₂ run₂ comesOf₂
        have stays₂ := stays.trans (.of_core hcore₂ hfeeds₂)
        refine ⟨.error (.event noSuchHub), by rw [result?, hc₂],
          ⟨calm₂, stays₂, fun _ => hfeeds₂.trans hfeeds, nofun⟩, fun h => ?_⟩
        rw [stays.hubs] at hthere
        exact (hthere h).elim

/-- Nobody is kept busy for ever. -/
theorem Calm.bounded : ∃ most, Bounded (ComesOf n throw) d most := by
  refine exists_bound_of_only (calm.only_throwDice hc) fun {d₁} step => ?_
  obtain ⟨_, step', calm₁, hcore, hfeeds, hservices, hc₁⟩ := calm.throwDice hc throw
  cases step.symm.trans step'
  cases hthrow : throw draft with
  | error e =>
      rw [hthrow] at hc₁
      refine ⟨0, fun run comesOf => ?_⟩
      rw [(calm₁.ended hc₁ run comesOf).1, List.length_nil]
  | ok r =>
      rw [hthrow] at hc₁
      rw [← hservices] at hs
      refine exists_bound_of_only (calm₁.only_tellRoll hc₁) fun {d₂} step₁ => ?_
      by_cases hthere : s.notifier.hub < d₁.hubs.length
      · exact ⟨_, ((told_of_tellRoll hc₁ hs rfl step₁).spreads calm₁ hthere).bounded⟩
      · obtain ⟨calm₂, -, -, hc₂⟩ := calm₁.tellRoll_nowhere hc₁ hs rfl hthere step₁
        refine ⟨0, fun run comesOf => ?_⟩
        rw [(calm₂.ended hc₂ run comesOf).1, List.length_nil]

end

/-- In whatever order the steps that come of the request are taken, they come to an end. The
request has been answered then, and if the service can reach a hub, the answer is what has become
of the dice. -/
structure Fulfils (d : Deployment) (s : Service) (draft : Roll) (n : Nat)
    (throw : Roll → Except DiceError Roll) : Prop where
  bounded : ∃ most, Bounded (ComesOf n throw) d most
  answers : ∀ {as d'}, Run d as d' → (∀ a ∈ as, ComesOf n throw a) → Quiet d' n throw →
    ∃ result, d'.result? n = some result ∧ (s.notifier.hub < d.hubs.length → result = throw draft)

end Deployment

end DiceRooms
