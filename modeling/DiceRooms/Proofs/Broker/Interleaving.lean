import DiceRooms.Proofs.Broker.Flow

/-!
Publications worked off in single steps, with whatever happens to the broker in between. A
step may rest on an old look at the registrations. It is safe all the same, since a channel
that is closed stays closed, and the number of a registration that is gone is not given out
again.
-/
namespace DiceRooms

theorem Table.mem_put {κ υ : Type} [DecidableEq κ] {t : Table κ υ} {k : κ} {v : υ} {e : κ × υ}
    (h : e ∈ t.put k v) : e = (k, v) ∨ e ∈ t := by
  induction t with
  | nil => exact .inl (List.mem_singleton.mp h)
  | cons e' t ih =>
      obtain ⟨k', v'⟩ := e'
      simp only [put] at h
      split at h
      · next heq =>
          subst heq
          rcases List.mem_cons.mp h with rfl | h
          · exact .inl rfl
          · exact .inr (List.mem_cons_of_mem _ h)
      · rcases List.mem_cons.mp h with rfl | h
        · exact .inr List.mem_cons_self
        · exact (ih h).imp_right (List.mem_cons_of_mem _)

theorem Table.put_of_at? {κ υ : Type} [DecidableEq κ] {t : Table κ υ} {k : κ} {v : υ}
    (h : t.at? k = some v) : t.put k v = t := by
  induction t with
  | nil => cases h
  | cons e t ih =>
      obtain ⟨k', v'⟩ := e
      simp only [at?] at h
      simp only [put]
      split
      · next heq =>
          rw [if_pos heq] at h
          cases h
          rfl
      · next hne =>
          rw [if_neg hne] at h
          rw [ih h]

theorem Table.mem_of_at? {κ υ : Type} [DecidableEq κ] {t : Table κ υ} {k : κ} {v : υ}
    (h : t.at? k = some v) : (k, v) ∈ t := by
  rw [← put_of_at? h]
  clear h
  induction t with
  | nil => exact List.mem_singleton.mpr rfl
  | cons e t ih =>
      simp only [put]
      split
      · next heq => subst heq; exact List.mem_cons_self
      · exact List.mem_cons_of_mem _ ih

namespace Broker

variable {b b' : Broker}

/-! No topic is kept without registrations. -/

def Filled (b : Broker) : Prop := ∀ e ∈ b.topics, e.2 ≠ []

theorem filled_empty : Filled empty := nofun

theorem Filled.congr (filled : b.Filled) (h : b'.topics = b.topics) : b'.Filled := by
  rw [Filled, h]
  exact filled

theorem Filled.remove (filled : b.Filled) (topic : String) (id : Nat) :
    (b.remove topic id).1.Filled := by
  rw [Broker.remove]
  split
  · exact filled
  · intro e he
    dsimp only at he
    split at he
    · exact filled e (List.mem_filter.mp he).1
    · next hrest =>
        rcases Table.mem_put he with rfl | he
        · exact hrest
        · exact filled e he

theorem Filled.subscribe (filled : b.Filled) (topic : String) (capacity : Nat) :
    (b.apply (.subscribe topic capacity)).Filled := by
  intro e he
  rcases Table.mem_put he with rfl | he
  · exact List.append_ne_nil_of_right_ne_nil _ (List.cons_ne_nil _ _)
  · exact filled e he

theorem Filled.offerTo (filled : b.Filled) (m : Message) (id : Nat) :
    (b.offerTo m id).Filled := by
  rw [Broker.offerTo, send]
  cases b.channels[id]? with
  | none => exact filled.remove m.topic id
  | some c =>
      cases hsend : c.send m with
      | ok c' => simp only [hsend]; exact filled.congr rfl
      | error f =>
          cases f with
          | full => simp only [hsend]; exact filled
          | closed => simp only [hsend]; exact filled.remove m.topic id

theorem Filled.deliver (filled : b.Filled) (m : Message) (ids : List Nat) :
    (b.deliver m ids).Filled := by
  induction ids generalizing b with
  | nil => exact filled
  | cons id ids ih => exact ih (filled.offerTo m id)

theorem Filled.apply (filled : b.Filled) (move : Move) : (b.apply move).Filled := by
  cases move with
  | stay => exact filled
  | subscribe topic capacity => exact filled.subscribe topic capacity
  | publish m =>
      rw [Broker.apply, publish_eq_deliver]
      exact filled.deliver m _
  | receive topic id => exact filled.congr (topics_receive b topic id)
  | close id => exact filled.congr (topics_closeChannel b id)
  | leave topic id =>
      rw [Broker.apply, unsubscribe_fst]
      exact filled.remove topic id

/-! Unsubscribing. -/

/-- Whoever is not registered cannot leave, and trying does nothing. -/
theorem unsubscribe_of_not_mem (filled : b.Filled) {topic : String} {id : Nat}
    (h : id ∉ b.subscriptions topic) :
    b.unsubscribe topic id = (b, [], .error (.unsubscribe
      ("subscription " ++ toString id ++ " on " ++ topic ++ " is not active"))) := by
  have hremove : b.remove topic id = (b, false) := by
    rw [remove]
    split
    · rfl
    · next ids hids =>
        rw [subscriptions, hids, Option.getD_some] at h
        have hsame : ids.filter (· ≠ id) = ids :=
          List.filter_eq_self.mpr fun k hk => decide_eq_true fun heq => h (heq ▸ hk)
        have hcontains : ids.contains id = false := by simpa using h
        simp only [hsame, hcontains, if_neg (filled _ (Table.mem_of_at? hids)),
          Table.put_of_at? hids]
  simp only [unsubscribe, hremove]
  rfl

theorem unsubscribe_of_mem {topic : String} {id : Nat} (h : id ∈ b.subscriptions topic) :
    (b.unsubscribe topic id).2.2 = .ok () := by
  have hremoved : (b.remove topic id).2 = true := by
    rw [remove]
    cases hids : b.topics.at? topic with
    | none => simp [subscriptions, hids] at h
    | some ids =>
        rw [subscriptions, hids, Option.getD_some] at h
        exact List.contains_iff_mem.mpr h
  simp only [unsubscribe, hremoved]
  rfl

/-! What stays, whatever happens. -/

/-- The second broker has come of the first. -/
structure Follows (b b' : Broker) : Prop where
  count : b.channels.length ≤ b'.channels.length
  /-- What is closed stays closed. -/
  closed : ∀ {id}, id < b.channels.length → b.isOpen id = false → b'.isOpen id = false
  /-- Who is gone does not come back. -/
  gone : ∀ {topic id}, id < b.channels.length → id ∉ b.subscriptions topic →
    id ∉ b'.subscriptions topic

namespace Follows

theorem refl (b : Broker) : Follows b b := ⟨Nat.le_refl _, fun _ h => h, fun _ h => h⟩

theorem trans {b'' : Broker} (first : Follows b b') (second : Follows b' b'') :
    Follows b b'' where
  count := Nat.le_trans first.count second.count
  closed hlt h := second.closed (Nat.lt_of_lt_of_le hlt first.count) (first.closed hlt h)
  gone hlt h := second.gone (Nat.lt_of_lt_of_le hlt first.count) (first.gone hlt h)

/-- Where registrations may only go, and channels only close. -/
theorem of_same (hlength : b'.channels.length = b.channels.length)
    (hopen : ∀ id, b'.isOpen id = true → b.isOpen id = true)
    (hsubs : ∀ topic, b'.subscriptions topic ⊆ b.subscriptions topic) : Follows b b' where
  count := Nat.le_of_eq hlength.symm
  closed {id} _ h := Bool.eq_false_iff.mpr fun h' => Bool.eq_false_iff.mp h (hopen id h')
  gone {topic _} _ h h' := h (hsubs topic h')

end Follows

/-- A channel that is open after a move was open before, unless it is new. -/
theorem isOpen_of_apply (htidy : b.Tidy) {move : Move} {id : Nat} (hlt : id < b.channels.length)
    (h : (b.apply move).isOpen id = true) : b.isOpen id = true := by
  have hmove : move ≠ .close id := by
    rintro rfl
    rw [isOpen_close] at h
    cases h
  exact (isOpen_apply htidy hlt hmove).symm.trans h

theorem follows_apply (htidy : b.Tidy) (move : Move) : Follows b (b.apply move) where
  count := by
    rw [length_channels_apply htidy]
    exact Nat.le_add_right _ _
  closed hlt h := Bool.eq_false_iff.mpr fun h' =>
    Bool.eq_false_iff.mp h (isOpen_of_apply htidy hlt h')
  gone hlt h h' := by
    rcases mem_subscriptions_apply h' with hbefore | ⟨_, -, rfl⟩
    · exact h hbefore
    · exact Nat.lt_irrefl _ hlt

/-- A move takes a registration with an open channel only from one who leaves. -/
theorem eq_leave_of_apply {move : Move} {topic : String} {id : Nat}
    (h : id ∈ b.subscriptions topic) (hopen : b.isOpen id = true)
    (hgone : id ∉ (b.apply move).subscriptions topic) : move = .leave topic id := by
  have hexpels : b.Expels topic id move :=
    Classical.byContradiction fun hstays => hgone (mem_subscriptions_of_not_expels h hstays)
  cases move with
  | leave topic' k =>
      obtain ⟨rfl, rfl⟩ := hexpels
      rfl
  | publish m =>
      rw [hexpels.2] at hopen
      cases hopen
  | stay | subscribe | receive | close => exact hexpels.elim

/-! The single steps of a publication. -/

/-- A message that is sent stands last in the channel, and nothing else changes. -/
theorem channels_send {m : Message} {id : Nat} (h : b.send m id = .ok b') (k : Nat) :
    b'.channels[k]? = if id = k then
      b.channels[k]?.map fun c => { c with buffer := c.buffer ++ [m] } else b.channels[k]? := by
  rw [send] at h
  cases hc : b.channels[id]? with
  | none => rw [hc] at h; cases h
  | some c =>
      simp only [hc] at h
      cases hsend : c.send m with
      | error f => rw [hsend] at h; cases h
      | ok c' =>
          rw [hsend] at h
          cases h
          obtain ⟨-, -, rfl⟩ := (Channel.send_eq_ok_iff c c' m).mp hsend
          obtain ⟨hlt, -⟩ := List.getElem?_eq_some_iff.mp hc
          simp only [setChannel, List.getElem?_set, hlt, if_true]
          split
          · next heq => subst heq; rw [hc]; rfl
          · rfl

theorem topics_send {m : Message} {id : Nat} (h : b.send m id = .ok b') :
    b'.topics = b.topics := by
  rw [send] at h
  cases hc : b.channels[id]? with
  | none => rw [hc] at h; cases h
  | some c =>
      simp only [hc] at h
      cases hsend : c.send m with
      | error f => rw [hsend] at h; cases h
      | ok c' => rw [hsend] at h; cases h; rfl

theorem isOpen_of_send_closed {m : Message} {id : Nat} (h : b.send m id = .error .closed) :
    b.isOpen id = false := by
  rw [send] at h
  rw [isOpen]
  cases hc : b.channels[id]? with
  | none => rfl
  | some c =>
      simp only [hc] at h
      cases hsend : c.send m with
      | ok c' => rw [hsend] at h; cases h
      | error f =>
          rw [hsend] at h
          cases h
          exact (Channel.send_eq_closed_iff c m).mp hsend

/-- What a step of a publication can be. -/
inductive Publishes (b : Broker) (p : Publication) : Broker → Publication → Prop
  | pruned {id : Nat} (pruning : p.pruning = some id) :
      Publishes b p (b.remove p.message.topic id).1 { p with pruning := none }
  | sent {b' : Broker} {id : Nat} {ids : List Nat} (pruning : p.pruning = none)
      (receivers : p.receivers = id :: ids) (send : b.send p.message id = .ok b') :
      Publishes b p b' { p with receivers := ids }
  | lost {id : Nat} {ids : List Nat} (pruning : p.pruning = none)
      (receivers : p.receivers = id :: ids) (send : b.send p.message id = .error .full) :
      Publishes b p b { p with receivers := ids }
  | closed {id : Nat} {ids : List Nat} (pruning : p.pruning = none)
      (receivers : p.receivers = id :: ids) (send : b.send p.message id = .error .closed) :
      Publishes b p b { p with receivers := ids, pruning := some id }

theorem publishes_of_step {p p' : Publication} {ns : List Notice}
    (h : b.stepPublication p = some (b', p', ns)) : Publishes b p b' p' := by
  obtain ⟨m, receivers, pruning⟩ := p
  cases pruning with
  | some id => cases h; exact .pruned rfl
  | none =>
      cases receivers with
      | nil => cases h
      | cons id ids =>
          simp only [stepPublication] at h
          cases hsend : b.send m id with
          | ok b' => rw [hsend] at h; cases h; exact .sent rfl rfl hsend
          | error f =>
              rw [hsend] at h
              cases f with
              | full => cases h; exact .lost rfl rfl hsend
              | closed => cases h; exact .closed rfl rfl hsend

/-- The subscription that the next step of a publication sends a copy to. -/
def copyTo (b : Broker) (p : Publication) : Option Nat :=
  match p.pruning, p.receivers with
  | none, id :: _ => if (b.send p.message id).isOk then some id else none
  | _, _ => none

namespace Publishes

variable {p p' : Publication}

theorem message_eq (publishes : Publishes b p b' p') : p'.message = p.message := by
  cases publishes <;> rfl

theorem copyTo_toList (publishes : Publishes b p b' p') :
    ((b.copyTo p).toList ++ p'.receivers).Sublist p.receivers := by
  cases publishes with
  | pruned h => simp [copyTo, h]
  | sent h receivers send => simp [copyTo, h, receivers, send, Except.isOk, Except.toBool]
  | lost h receivers send | closed h receivers send =>
      simp [copyTo, h, receivers, send, Except.isOk, Except.toBool]

/-- One copy goes to one channel at most; the others are left alone. -/
theorem channels (publishes : Publishes b p b' p') (k : Nat) :
    b'.channels[k]? = if b.copyTo p = some k then
      b.channels[k]?.map fun c => { c with buffer := c.buffer ++ [p.message] }
      else b.channels[k]? := by
  cases publishes with
  | pruned h => simp [copyTo, h]
  | sent h receivers send =>
      rw [channels_send send]
      simp [copyTo, h, receivers, send, Except.isOk, Except.toBool]
  | lost h receivers send | closed h receivers send =>
      simp [copyTo, h, receivers, send, Except.isOk, Except.toBool]

theorem isOpen (publishes : Publishes b p b' p') (k : Nat) : b'.isOpen k = b.isOpen k :=
  isOpen_of_channels (f := fun c => { c with buffer := c.buffer ++ [p.message] }) (fun _ => rfl)
    (publishes.channels k)

theorem length_channels (publishes : Publishes b p b' p') :
    b'.channels.length = b.channels.length := by
  have same : ∀ k, b'.channels.length ≤ k ↔ b.channels.length ≤ k := by
    intro k
    rw [← List.getElem?_eq_none_iff, ← List.getElem?_eq_none_iff, publishes.channels]
    split <;> simp
  exact Nat.le_antisymm ((same _).mpr (Nat.le_refl _)) ((same _).mp (Nat.le_refl _))

/-- Only what is being pruned goes. -/
theorem subscriptions (publishes : Publishes b p b' p') (topic : String) :
    b'.subscriptions topic = (b.subscriptions topic).filter fun id =>
      ¬ (topic = p.message.topic ∧ p.pruning = some id) := by
  have hall : p.pruning = none → (b.subscriptions topic).filter (fun id =>
      ¬ (topic = p.message.topic ∧ p.pruning = some id)) = b.subscriptions topic :=
    fun h => List.filter_eq_self.mpr fun id _ => by simp [h]
  cases publishes with
  | pruned h =>
      rw [subscriptions_remove]
      split
      · next heq =>
          subst heq
          exact List.filter_congr fun k _ => by simp [h, eq_comm]
      · next hne =>
          exact (List.filter_eq_self.mpr fun k _ => by simp [Ne.symm hne]).symm
  | sent h receivers send => rw [hall h, subscriptions_congr (topics_send send)]
  | lost h _ _ | closed h _ _ => rw [hall h]

theorem filled (publishes : Publishes b p b' p') (filled : b.Filled) : b'.Filled := by
  cases publishes with
  | pruned h => exact filled.remove _ _
  | sent h receivers send => exact filled.congr (topics_send send)
  | lost _ _ _ | closed _ _ _ => exact filled

theorem tidy (publishes : Publishes b p b' p') (htidy : b.Tidy) : b'.Tidy :=
  htidy.of_sublist (fun topic => publishes.subscriptions topic ▸ List.filter_sublist)
    publishes.length_channels

theorem follows (publishes : Publishes b p b' p') : Follows b b' :=
  .of_same publishes.length_channels (fun k h => publishes.isOpen k ▸ h)
    fun topic => publishes.subscriptions topic ▸ List.filter_sublist.subset

end Publishes

/-- A publication on its way to the receivers that were registered when it began, with the
subscriptions that it has sent copies to. What it is about to prune is closed for good. -/
structure OnItsWay (b : Broker) (receivers sent : List Nat) (p : Publication) : Prop where
  order : ∃ order, order.Perm receivers ∧ (sent ++ p.receivers).Sublist order
  made : ∀ id ∈ p.receivers, id < b.channels.length
  closed : ∀ {id}, p.pruning = some id → id < b.channels.length ∧ b.isOpen id = false

namespace OnItsWay

variable {receivers sent : List Nat} {p p' : Publication}

theorem begin (htidy : b.Tidy) (m : Message) {order : List Nat}
    (h : order.Perm (b.subscriptions m.topic)) :
    OnItsWay b (b.subscriptions m.topic) [] ⟨m, order, none⟩ where
  order := ⟨order, h, .refl _⟩
  made id hid := htidy.made m.topic id (h.subset hid)
  closed := nofun

theorem follow (way : OnItsWay b receivers sent p) (follows : Follows b b') :
    OnItsWay b' receivers sent p where
  order := way.order
  made id hid := Nat.lt_of_lt_of_le (way.made id hid) follows.count
  closed h := by
    obtain ⟨hlt, hclosed⟩ := way.closed h
    exact ⟨Nat.lt_of_lt_of_le hlt follows.count, follows.closed hlt hclosed⟩

theorem proceed (way : OnItsWay b receivers sent p) (publishes : Publishes b p b' p') :
    OnItsWay b' receivers (sent ++ (b.copyTo p).toList) p' where
  order := by
    obtain ⟨order, hperm, hsub⟩ := way.order
    refine ⟨order, hperm, .trans ?_ hsub⟩
    rw [List.append_assoc]
    exact publishes.copyTo_toList.append_left sent
  made id hid := by
    have hsub := (List.sublist_append_right _ _).trans publishes.copyTo_toList
    exact publishes.length_channels.symm ▸ way.made id (hsub.subset hid)
  closed {id} h := by
    rw [publishes.length_channels, publishes.isOpen]
    cases publishes with
    | pruned _ => cases h
    | sent hnone _ _ | lost hnone _ _ => cases hnone.symm.trans h
    | closed _ hreceivers send =>
        cases h
        exact ⟨way.made _ (hreceivers ▸ List.mem_cons_self), isOpen_of_send_closed send⟩

/-- At most one copy to each of those who were registered. -/
theorem sent_spec (way : OnItsWay b receivers sent p) (hreceivers : receivers.Nodup) :
    sent.Nodup ∧ sent ⊆ receivers := by
  obtain ⟨order, hperm, hsub⟩ := way.order
  have hsent := (List.sublist_append_left sent p.receivers).trans hsub
  exact ⟨(hperm.nodup_iff.mpr hreceivers).sublist hsent, fun _ h => hperm.subset (hsent.subset h)⟩

end OnItsWay

end Broker

end DiceRooms
