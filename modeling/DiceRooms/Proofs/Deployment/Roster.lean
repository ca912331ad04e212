import DiceRooms.Proofs.Deployment.Stopping

/-!
Who is registered at the broker. Hubs share it with those who listen by hand; each of them
has registrations of its own, and all that it takes for the table to be right is that nobody
touches by hand what belongs to a loop, and that the loops reach the broker when they leave.
-/
namespace DiceRooms

/-! Those who listen by hand. -/

/-- A registration made without a hub. -/
structure Listener where
  topic : String
  subscription : Nat
  /-- Nobody has closed its channel. -/
  isOpen : Bool

/-- What a move at the broker makes of a registration: it lasts until it is unsubscribed or
something is published on its topic after its channel has been closed. -/
def Listener.after (l : Listener) : Broker.Move → Option Listener
  | .close id => some (if id = l.subscription then { l with isOpen := false } else l)
  | .leave topic id => if topic = l.topic ∧ id = l.subscription then none else some l
  | .publish m => if m.topic = l.topic ∧ l.isOpen = false then none else some l
  | .stay | .subscribe .. | .receive .. => some l

/-- The registration that is made by hand with the event. -/
def Event.listener? (c : Core) : Event → Option Listener
  | broker (.subscribe topic _) => some ⟨topic, c.broker.channels.length, true⟩
  | _ => none

/-- The registrations made by hand that have lasted. -/
def History.listeners (h : History) : List Listener :=
  h.foldl (fun ls s => ls.filterMap (·.after s.2.move) ++ (s.2.listener? s.1).toList) []

theorem History.listeners_concat (h : History) (c : Core) (e : Event) :
    History.listeners (h ++ [(c, e)]) =
      h.listeners.filterMap (·.after e.move) ++ (e.listener? c).toList := by
  rw [listeners, List.foldl_append]
  rfl

/-- The registration is there, and its channel is as it is said to be. -/
def Listener.Listens (b : Broker) (l : Listener) : Prop :=
  l.subscription ∈ b.subscriptions l.topic ∧ b.isOpen l.subscription = l.isOpen

namespace Listener

variable {b : Broker} {l l' : Listener} {move : Broker.Move}

theorem same_of_after (h : l.after move = some l') :
    l'.topic = l.topic ∧ l'.subscription = l.subscription := by
  cases move with
  | close id =>
      cases h
      split <;> exact ⟨rfl, rfl⟩
  | leave topic id | publish m =>
      simp only [after] at h
      split at h
      · cases h
      · cases h
        exact ⟨rfl, rfl⟩
  | stay | subscribe | receive =>
      cases h
      exact ⟨rfl, rfl⟩

theorem sublist_after (ls : List Listener) (move : Broker.Move) :
    ((ls.filterMap (·.after move)).map subscription).Sublist (ls.map subscription) := by
  induction ls with
  | nil => exact .slnil
  | cons l ls ih =>
      rw [List.filterMap_cons]
      cases hafter : l.after move with
      | none => exact ih.cons _
      | some l' =>
          rw [List.map_cons, List.map_cons, (same_of_after hafter).2]
          exact ih.cons_cons _

/-- It ends just when the broker takes it off the table. -/
theorem after_eq_none_iff (listens : l.Listens b) :
    l.after move = none ↔ b.Expels l.topic l.subscription move := by
  cases move with
  | leave topic id => simp [after, Broker.Expels]
  | publish m => simp [after, Broker.Expels, listens.2]
  | stay | subscribe | receive | close => simp [after, Broker.Expels]

theorem Listens.after (listens : l.Listens b) (htidy : b.Tidy) (h : l.after move = some l') :
    l'.Listens (b.apply move) := by
  have hstays : ¬ b.Expels l.topic l.subscription move := by
    rw [← after_eq_none_iff listens, h]
    nofun
  have hlt := htidy.made l.topic l.subscription listens.1
  obtain ⟨htopic, hsubscription⟩ := same_of_after h
  refine ⟨?_, ?_⟩
  · rw [htopic, hsubscription]
    exact Broker.mem_subscriptions_of_not_expels listens.1 hstays
  · rw [hsubscription]
    by_cases hmove : move = .close l.subscription
    · subst hmove
      rw [Listener.after, if_pos rfl] at h
      cases h
      exact b.isOpen_close l.subscription
    · have hsame : l'.isOpen = l.isOpen := by
        cases move with
        | close id =>
            rw [Listener.after, if_neg fun hid => hmove (congrArg Broker.Move.close hid)] at h
            cases h
            rfl
        | leave topic id | publish m =>
            simp only [Listener.after] at h
            split at h
            · cases h
            · cases h
              rfl
        | stay | subscribe | receive =>
            cases h
            rfl
      rw [Broker.isOpen_apply htidy hlt hmove, listens.2, hsame]

end Listener

/-! What the members of the table can rely on. -/

/-- What is done by hand is done to no hub, and a loop that leaves gets to the broker. -/
structure Orderly (s : Core × Event) : Prop where
  handsOff : ∀ {move}, s.2 = .broker move → ∀ {n hub}, s.1.brokerHub? n = some hub →
    move.target? ≠ some hub.subscription
  arrives : ∀ {n hub arrives}, s.2 = .turn n hub (.leave arrives) → arrives = true

section
variable {h : History} {c : Core} {e : Event} {n : Nat} {hub : BrokerHub}

/-- A loop is where its turn has brought it, or has not turned. -/
theorem phase_of_turn_or_not (reached : Reached h c) (possible : e.Possible c)
    (hn : c.brokerHub? n = some hub) :
    (∃ t, e = .turn n hub t ∧ t.Possible c hub ∧ (e.onHub n hub).phase = t.phase) ∨
      (∀ t, e ≠ .turn n hub t) ∧ ((e.onHub n hub).phase = hub.phase ∨
        hub.phase.holds = true ∧ (e.onHub n hub).phase = .running) := by
  rw [Event.phase_onHub]
  cases hchange : e.phase? n with
  | none =>
      refine .inr ⟨?_, .inl rfl⟩
      rintro t rfl
      simp [Event.phase?] at hchange
  | some phase =>
      rcases Event.phase?_eq_some hchange with ⟨k, p, rfl, howner, rfl⟩ | ⟨hub', t, rfl, rfl⟩
      · refine .inr ⟨fun t h => (by cases h), .inr ⟨?_, rfl⟩⟩
        rw [reached.busy.dispatching_of_conclude possible howner hn]
        rfl
      · obtain ⟨rfl, hturn⟩ := Event.of_turn possible hn
        exact .inl ⟨t, rfl, hturn, rfl⟩

/-- A new registration is a hub's or is made by hand. -/
theorem of_subscribe {topic : String} {capacity : Nat} (h : e.move = .subscribe topic capacity) :
    (∃ hub, e = .build capacity hub ∧ hub.topic = topic) ∨
      e = .broker (.subscribe topic capacity) := by
  cases e with
  | build capacity' hub =>
      cases h
      exact .inl ⟨hub, rfl, rfl⟩
  | broker move => exact .inr (congrArg Event.broker h)
  | turn k hub t =>
      cases t with
      | leave arrives => cases arrives <;> cases h
      | _ => cases h
  | _ => cases h

theorem listener?_eq_some {l : Listener} (h : e.listener? c = some l) :
    (∃ capacity, e = .broker (.subscribe l.topic capacity)) ∧
      l.subscription = c.broker.channels.length ∧ l.Listens (c.apply e).broker := by
  cases e with
  | broker move =>
      cases move with
      | subscribe topic capacity =>
          cases h
          exact ⟨⟨capacity, rfl⟩, rfl, c.broker.registered_subscribe topic capacity⟩
      | _ => cases h
  | _ => cases h

end

/-- The table of the broker, entry by entry. -/
structure Roster (ls : List Listener) (c : Core) : Prop where
  fed : ∀ {n hub}, c.brokerHub? n = some hub → hub.phase.holds = true → Fed c hub
  stopped : ∀ {n hub}, c.brokerHub? n = some hub → hub.phase = .stopped →
    hub.subscription ∉ c.broker.subscriptions hub.topic
  listens : ∀ {l}, l ∈ ls → l.Listens c.broker
  others : ∀ {l}, l ∈ ls → ∀ {n hub}, c.brokerHub? n = some hub →
    hub.subscription ≠ l.subscription
  distinct : (ls.map Listener.subscription).Nodup
  known : ∀ {topic id}, id ∈ c.broker.subscriptions topic →
    (∃ n hub, c.brokerHub? n = some hub ∧ hub.subscription = id) ∨
      ∃ l ∈ ls, l.topic = topic ∧ l.subscription = id

namespace Roster

variable {ls : List Listener} {h : History} {c : Core} {e : Event}

theorem start : Roster [] .empty where
  fed := nofun
  stopped := nofun
  listens := nofun
  others := nofun
  distinct := .nil
  known hid := by simp [Core.empty, Broker.empty, Broker.subscriptions, Table.at?] at hid

theorem fed_step (roster : Roster ls c) (reached : Reached h c) (orderly : Orderly (c, e))
    (possible : e.Possible c) {n : Nat} {hub : BrokerHub}
    (hn : (c.apply e).brokerHub? n = some hub) (hholds : hub.phase.holds = true) :
    Fed (c.apply e) hub := by
  rcases Core.of_brokerHub?_apply possible hn with ⟨-, capacity, rfl⟩ | ⟨old, hold, rfl⟩
  · exact fed_of_build possible
  · rcases phase_of_turn_or_not reached possible hold with
      ⟨t, rfl, hturn, hphase⟩ | ⟨hnot, hphase⟩
    · rw [hphase] at hholds
      have hbefore : old.phase.holds = true := by
        cases t with
        | cancelled => rw [hturn.1]; rfl
        | channelClosed => rw [hturn.1]; rfl
        | undecodable | dispatch => rw [hturn.1.1]; rfl
        | close | leave => cases hholds
      refine fed_apply reached (orderly.handsOff · hold) possible hold
        (roster.fed hold hbefore) fun t' ht' => ?_
      cases ht'
      exact hholds
    · have hbefore : old.phase.holds = true := by
        rcases hphase with hsame | ⟨hbefore, -⟩
        · rwa [hsame] at hholds
        · exact hbefore
      exact fed_apply reached (orderly.handsOff · hold) possible hold
        (roster.fed hold hbefore) fun t ht => (hnot t ht).elim

theorem stopped_step (roster : Roster ls c) (reached : Reached h c) (orderly : Orderly (c, e))
    (possible : e.Possible c) {n : Nat} {hub : BrokerHub}
    (hn : (c.apply e).brokerHub? n = some hub) (hstopped : hub.phase = .stopped) :
    hub.subscription ∉ (c.apply e).broker.subscriptions hub.topic := by
  rcases Core.of_brokerHub?_apply possible hn with ⟨-, capacity, rfl⟩ | ⟨old, hold, rfl⟩
  · rw [possible.2.1] at hstopped
    cases hstopped
  · rw [Event.topic_onHub, Event.subscription_onHub]
    rcases phase_of_turn_or_not reached possible hold with
      ⟨t, rfl, hturn, hphase⟩ | ⟨hnot, hphase⟩
    · rw [hphase] at hstopped
      cases t with
      | leave arrives =>
          obtain rfl := orderly.arrives rfl
          have hgoes : c.broker.Expels old.topic old.subscription
              (.leave old.topic old.subscription) := ⟨rfl, rfl⟩
          exact Broker.not_mem_subscriptions_of_expels hgoes
      | cancelled | channelClosed | undecodable | dispatch | close => cases hstopped
    · have hbefore : old.phase = .stopped := by
        rcases hphase with hsame | ⟨-, hruns⟩
        · exact hsame.symm.trans hstopped
        · rw [hruns] at hstopped
          cases hstopped
      intro hid
      rcases Broker.mem_subscriptions_apply hid with hid | ⟨capacity, -, hnew⟩
      · exact roster.stopped hold hbefore hid
      · exact Nat.ne_of_lt (reached.subscription_lt hold) hnew

theorem listens_step (roster : Roster ls c) (htidy : c.broker.Tidy) {l' : Listener}
    (hl' : l' ∈ ls.filterMap (·.after e.move) ++ (e.listener? c).toList) :
    l'.Listens (c.apply e).broker := by
  rcases List.mem_append.mp hl' with hl' | hl'
  · obtain ⟨l, hl, hafter⟩ := List.mem_filterMap.mp hl'
    exact (roster.listens hl).after htidy hafter
  · exact (listener?_eq_some (Option.mem_toList.mp hl')).2.2

theorem others_step (roster : Roster ls c) (reached : Reached h c) (possible : e.Possible c)
    {l' : Listener} (hl' : l' ∈ ls.filterMap (·.after e.move) ++ (e.listener? c).toList) {n : Nat}
    {hub : BrokerHub} (hn : (c.apply e).brokerHub? n = some hub) :
    hub.subscription ≠ l'.subscription := by
  rcases List.mem_append.mp hl' with hl' | hl'
  · obtain ⟨l, hl, hafter⟩ := List.mem_filterMap.mp hl'
    rw [(Listener.same_of_after hafter).2]
    rcases Core.of_brokerHub?_apply possible hn with ⟨-, capacity, rfl⟩ | ⟨old, hold, rfl⟩
    · have hlt := reached.account.tidy.made l.topic l.subscription (roster.listens hl).1
      rw [possible.2.2.1]
      exact (Nat.ne_of_lt hlt).symm
    · rw [Event.subscription_onHub]
      exact roster.others hl hold
  · obtain ⟨⟨capacity, rfl⟩, hnew, -⟩ := listener?_eq_some (Option.mem_toList.mp hl')
    rw [hnew]
    exact Nat.ne_of_lt (reached.subscription_lt hn)

theorem distinct_step (roster : Roster ls c) (htidy : c.broker.Tidy) :
    ((ls.filterMap (·.after e.move) ++ (e.listener? c).toList).map
      Listener.subscription).Nodup := by
  have hlasting := roster.distinct.sublist (Listener.sublist_after ls e.move)
  rw [List.map_append]
  cases hnew : e.listener? c with
  | none =>
      rw [Option.toList_none, List.map_nil, List.append_nil]
      exact hlasting
  | some l =>
      refine List.nodup_append.mpr ⟨hlasting, List.pairwise_singleton _ _, ?_⟩
      intro id hid id' hid'
      obtain rfl := List.mem_singleton.mp hid'
      rw [(listener?_eq_some hnew).2.1]
      obtain ⟨l', hl', rfl⟩ := List.mem_map.mp ((Listener.sublist_after ls e.move).subset hid)
      exact Nat.ne_of_lt (htidy.made l'.topic l'.subscription (roster.listens hl').1)

theorem known_step (roster : Roster ls c) (possible : e.Possible c) {topic : String} {id : Nat}
    (hid : id ∈ (c.apply e).broker.subscriptions topic) :
    (∃ n hub, (c.apply e).brokerHub? n = some hub ∧ hub.subscription = id) ∨
      ∃ l ∈ ls.filterMap (·.after e.move) ++ (e.listener? c).toList,
        l.topic = topic ∧ l.subscription = id := by
  rcases Broker.mem_subscriptions_apply hid with hbefore | ⟨capacity, hmove, rfl⟩
  · rcases roster.known hbefore with ⟨n, hub, hn, rfl⟩ | ⟨l, hl, rfl, rfl⟩
    · exact .inl ⟨n, _, Core.brokerHub?_apply_of_some possible hn, e.subscription_onHub n hub⟩
    · cases hafter : l.after e.move with
      | none =>
          have hexpels := (Listener.after_eq_none_iff (roster.listens hl)).mp hafter
          exact (Broker.not_mem_subscriptions_of_expels hexpels hid).elim
      | some l' =>
          refine .inr ⟨l', ?_, Listener.same_of_after hafter⟩
          exact List.mem_append_left _ (List.mem_filterMap.mpr ⟨l, hl, hafter⟩)
  · rcases of_subscribe hmove with ⟨hub, rfl, -⟩ | rfl
    · refine .inl ⟨c.hubs.length, hub, ?_, possible.2.2.1⟩
      rw [Core.brokerHub?_apply possible, if_pos rfl]
      rfl
    · exact .inr ⟨_, List.mem_append_right _ List.mem_cons_self, rfl, rfl⟩

theorem step (roster : Roster ls c) (reached : Reached h c) (orderly : Orderly (c, e))
    (possible : e.Possible c) :
    Roster (ls.filterMap (·.after e.move) ++ (e.listener? c).toList) (c.apply e) where
  fed := roster.fed_step reached orderly possible
  stopped := roster.stopped_step reached orderly possible
  listens := roster.listens_step reached.account.tidy
  others hl' _ _ := roster.others_step reached possible hl'
  distinct := roster.distinct_step reached.account.tidy
  known := roster.known_step possible

end Roster

theorem Reached.roster {h : History} {c : Core} (reached : Reached h c)
    (orderly : ∀ s ∈ h, Orderly s) : Roster h.listeners c := by
  induction reached with
  | start => exact .start
  | step before possible ih =>
      obtain ⟨hbefore, hlast⟩ := List.forall_mem_append.mp orderly
      rw [History.listeners_concat]
      exact (ih hbefore).step before (hlast _ List.mem_cons_self) possible

end DiceRooms
