import DiceRooms.Broker.Broker

/-!
Publishing as a whole. Worked off to its end, a publication offers the message once to
every subscription of its topic: an open channel with room takes it, a full one loses it,
and a closed one is pruned. Nothing else of the broker changes.
-/
namespace DiceRooms

namespace Channel

/-- What becomes of a channel that a message is offered to. -/
def offer (c : Channel) (m : Message) : Channel :=
  if c.isOpen = true ∧ c.buffer.length < c.capacity then { c with buffer := c.buffer ++ [m] }
  else c

theorem capacity_offer (c : Channel) (m : Message) : (c.offer m).capacity = c.capacity := by
  rw [offer]
  split <;> rfl

theorem isOpen_offer (c : Channel) (m : Message) : (c.offer m).isOpen = c.isOpen := by
  rw [offer]
  split <;> rfl

theorem length_buffer_offer_le (c : Channel) (m : Message)
    (h : c.buffer.length ≤ c.capacity) : (c.offer m).buffer.length ≤ c.capacity := by
  rw [offer]
  split
  · next hroom =>
      rw [List.length_append, List.length_singleton]
      exact hroom.2
  · exact h

theorem send_eq_ok_offer {c c' : Channel} {m : Message} (h : c.send m = .ok c') :
    c' = c.offer m ∧ c.isOpen = true := by
  obtain ⟨hopen, hroom, rfl⟩ := (send_eq_ok_iff c c' m).mp h
  exact ⟨(if_pos ⟨hopen, hroom⟩).symm, hopen⟩

theorem offer_of_error {c : Channel} {m : Message} {f : SendFault} (h : c.send m = .error f) :
    c.offer m = c := by
  rw [offer]
  cases f with
  | full =>
      obtain ⟨-, hfull⟩ := (send_eq_full_iff c m).mp h
      rw [if_neg (by omega)]
  | closed =>
      have hclosed := (send_eq_closed_iff c m).mp h
      rw [if_neg (by simp [hclosed])]

end Channel

namespace Broker

def isOpen (b : Broker) (id : Nat) : Bool :=
  (b.channels[id]?.map (·.isOpen)).getD false

theorem subscriptions_remove (b : Broker) (topic topic' : String) (id : Nat) :
    (b.remove topic id).1.subscriptions topic' =
      if topic = topic' then (b.subscriptions topic).filter (· ≠ id)
      else b.subscriptions topic' := by
  rw [remove]
  split
  · next hnone =>
      split
      · next heq => subst heq; simp [subscriptions, hnone]
      · rfl
  · next ids hsome =>
      by_cases hrest : ids.filter (· ≠ id) = []
      · simp only [subscriptions, if_pos hrest, Table.at?_remove]
        split
        · next heq => subst heq; simp only [hsome, Option.getD_some, Option.getD_none, hrest]
        · rfl
      · simp only [subscriptions, if_neg hrest, Table.at?_put]
        split
        · next heq => subst heq; simp only [hsome, Option.getD_some]
        · rfl

@[simp] theorem channels_remove (b : Broker) (topic : String) (id : Nat) :
    (b.remove topic id).1.channels = b.channels := by
  rw [remove]
  split <;> rfl

/-- Offers a message to one subscription: the steps of a publication that concern it. -/
def offerTo (b : Broker) (m : Message) (id : Nat) : Broker :=
  match b.send m id with
  | .ok b => b
  | .error .full => b
  | .error .closed => (b.remove m.topic id).1

theorem channels_offerTo (b : Broker) (m : Message) (id k : Nat) :
    (b.offerTo m id).channels[k]? =
      if k = id then b.channels[k]?.map (·.offer m) else b.channels[k]? := by
  rw [offerTo, send]
  cases hc : b.channels[id]? with
  | none =>
      simp only [channels_remove]
      split
      · next heq => rw [heq, hc]; rfl
      · rfl
  | some c =>
      cases hsend : c.send m with
      | ok c' =>
          obtain ⟨rfl, -⟩ := Channel.send_eq_ok_offer hsend
          obtain ⟨hlt, -⟩ := List.getElem?_eq_some_iff.mp hc
          simp only [hsend, Except.map, setChannel, List.getElem?_set, hlt, if_true]
          split
          · next heq => rw [if_pos heq.symm, ← heq, hc]; rfl
          · next hne => rw [if_neg (Ne.symm hne)]
      | error f =>
          have hsame := Channel.offer_of_error hsend
          have : b.channels[id]?.map (·.offer m) = b.channels[id]? := by
            rw [hc, Option.map_some, hsame]
          cases f <;> simp only [hsend, Except.map, channels_remove] <;> split
          · next heq => rw [heq, this]
          · rfl
          · next heq => rw [heq, this]
          · rfl

/-- What happens in a channel does not close it. -/
theorem isOpen_of_channels {b b' : Broker} {k : Nat} {P : Prop} [Decidable P]
    {f : Channel → Channel} (hf : ∀ c, (f c).isOpen = c.isOpen)
    (h : b'.channels[k]? = if P then b.channels[k]?.map f else b.channels[k]?) :
    b'.isOpen k = b.isOpen k := by
  rw [isOpen, isOpen, h]
  split
  · cases b.channels[k]? with
    | none => rfl
    | some c => exact hf c
  · rfl

theorem isOpen_offerTo (b : Broker) (m : Message) (id k : Nat) :
    (b.offerTo m id).isOpen k = b.isOpen k :=
  isOpen_of_channels (Channel.isOpen_offer · m) (channels_offerTo b m id k)

/-- Nothing is pruned for a subscription whose channel is open. -/
theorem filter_of_isOpen {b : Broker} {id : Nat} (hopen : b.isOpen id = true) (topic : String) :
    (b.subscriptions topic).filter (fun k => k ≠ id ∨ b.isOpen k = true) =
      b.subscriptions topic := by
  rw [List.filter_eq_self]
  intro k _
  by_cases hk : k = id <;> simp [hk, hopen]

theorem subscriptions_remove_closed {b : Broker} {id : Nat} (hclosed : b.isOpen id = false)
    (topic topic' : String) : (b.remove topic id).1.subscriptions topic' =
      if topic = topic' then
        (b.subscriptions topic').filter fun k => k ≠ id ∨ b.isOpen k = true
      else b.subscriptions topic' := by
  rw [subscriptions_remove]
  split
  · next htopic =>
      subst htopic
      apply List.filter_congr
      intro k _
      by_cases hk : k = id <;> simp [hk, hclosed]
  · rfl

theorem subscriptions_offerTo (b : Broker) (m : Message) (id : Nat) (topic : String) :
    (b.offerTo m id).subscriptions topic =
      if m.topic = topic then
        (b.subscriptions topic).filter fun k => k ≠ id ∨ b.isOpen k = true
      else b.subscriptions topic := by
  simp only [offerTo, send]
  cases hc : b.channels[id]? with
  | none => exact subscriptions_remove_closed (by simp [isOpen, hc]) m.topic topic
  | some c =>
      have hisOpen : b.isOpen id = c.isOpen := by simp [isOpen, hc]
      cases hsend : c.send m with
      | ok c' =>
          obtain ⟨-, hopen⟩ := Channel.send_eq_ok_offer hsend
          rw [filter_of_isOpen (hisOpen.trans hopen), ite_self]
          simp only [hsend]
          rfl
      | error f =>
          cases f with
          | full =>
              obtain ⟨hopen, -⟩ := (Channel.send_eq_full_iff c m).mp hsend
              rw [filter_of_isOpen (hisOpen.trans hopen), ite_self]
              simp only [hsend]
              rfl
          | closed =>
              have hclosed := (Channel.send_eq_closed_iff c m).mp hsend
              simp only [hsend]
              exact subscriptions_remove_closed (hisOpen.trans hclosed) m.topic topic

/-- Offers a message to one subscription after the other. -/
def deliver (b : Broker) (m : Message) (ids : List Nat) : Broker :=
  ids.foldl (fun b id => b.offerTo m id) b

/-- No subscription is offered the message twice, since none stands twice in the list. -/
theorem channels_deliver (b : Broker) (m : Message) {ids : List Nat} (hids : ids.Nodup)
    (k : Nat) : (b.deliver m ids).channels[k]? =
      if k ∈ ids then b.channels[k]?.map (·.offer m) else b.channels[k]? := by
  induction ids generalizing b with
  | nil => rfl
  | cons id ids ih =>
      obtain ⟨hid, hids⟩ := List.nodup_cons.mp hids
      have hrec := ih (b.offerTo m id) hids
      rw [channels_offerTo] at hrec
      refine hrec.trans ?_
      by_cases hk : k = id
      · subst hk
        rw [if_neg hid, if_pos rfl, if_pos List.mem_cons_self]
      · simp [hk]

theorem subscriptions_deliver (b : Broker) (m : Message) (ids : List Nat) (topic : String) :
    (b.deliver m ids).subscriptions topic =
      if m.topic = topic then
        (b.subscriptions topic).filter fun k => k ∉ ids ∨ b.isOpen k = true
      else b.subscriptions topic := by
  induction ids generalizing b with
  | nil =>
      have hall : (b.subscriptions topic).filter (fun k => k ∉ [] ∨ b.isOpen k = true) =
          b.subscriptions topic := List.filter_eq_self.mpr fun k _ => by simp
      rw [hall, ite_self]
      rfl
  | cons id ids ih =>
      refine (ih (b.offerTo m id)).trans ?_
      simp only [subscriptions_offerTo, isOpen_offerTo]
      split
      · rw [List.filter_filter]
        apply List.filter_congr
        intro k _
        by_cases hk : k = id <;> cases b.isOpen k <;> simp [hk]
      · rfl

/-- With two steps for each receiver a publication is worked off. -/
theorem workOff_eq_deliver (m : Message) (ids : List Nat) (b : Broker) {fuel : Nat}
    (hfuel : 2 * ids.length ≤ fuel) :
    (workOff fuel b ⟨m, ids, none⟩).1 = b.deliver m ids := by
  induction ids generalizing b fuel with
  | nil => cases fuel <;> rfl
  | cons id ids ih =>
      rw [List.length_cons] at hfuel
      obtain ⟨fuel, rfl⟩ : ∃ n, fuel = n + 2 := ⟨fuel - 2, by omega⟩
      have hpruned : 2 * ids.length ≤ fuel := by omega
      have hrest : 2 * ids.length ≤ fuel + 1 := by omega
      have hstep : ∀ b', b.offerTo m id = b' → (b'.deliver m ids) = b.deliver m (id :: ids) :=
        fun b' h => by rw [← h]; rfl
      simp only [workOff, stepPublication]
      cases hsend : b.send m id with
      | ok b' =>
          have : b.offerTo m id = b' := by simp only [offerTo, hsend]
          exact (ih b' hrest).trans (hstep b' this)
      | error f =>
          cases f with
          | full =>
              have : b.offerTo m id = b := by simp only [offerTo, hsend]
              exact (ih b hrest).trans (hstep b this)
          | closed =>
              have : b.offerTo m id = (b.remove m.topic id).1 := by simp only [offerTo, hsend]
              exact (ih _ hpruned).trans (hstep _ this)

theorem publish_eq_deliver (b : Broker) (m : Message) :
    (b.publish m).1 = b.deliver m (b.subscriptions m.topic) :=
  workOff_eq_deliver m _ b (Nat.le_refl _)

theorem channels_publish (b : Broker) (m : Message) (h : (b.subscriptions m.topic).Nodup)
    (k : Nat) : (b.publish m).1.channels[k]? =
      if k ∈ b.subscriptions m.topic then b.channels[k]?.map (·.offer m)
      else b.channels[k]? := by
  rw [publish_eq_deliver, channels_deliver b m h]

theorem isOpen_publish (b : Broker) (m : Message) (h : (b.subscriptions m.topic).Nodup)
    (k : Nat) : (b.publish m).1.isOpen k = b.isOpen k :=
  isOpen_of_channels (Channel.isOpen_offer · m) (channels_publish b m h k)

theorem subscriptions_publish (b : Broker) (m : Message) (topic : String) :
    (b.publish m).1.subscriptions topic =
      if m.topic = topic then (b.subscriptions topic).filter (b.isOpen ·)
      else b.subscriptions topic := by
  rw [publish_eq_deliver, subscriptions_deliver]
  split
  · next htopic =>
      subst htopic
      apply List.filter_congr
      intro k hk
      simp [hk]
  · rfl

end Broker

end DiceRooms
