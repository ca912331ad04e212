import DiceRooms.Proofs.Broker.Publish

/-!
All that can happen to a broker, one atomic move at a time, and what each move makes of
the channels and of the registrations. A history is a list of moves, each with the broker
that it met.
-/
namespace DiceRooms

namespace Broker

inductive Move
  | stay
  /-- Subscribes a new channel of the given capacity. -/
  | subscribe (topic : String) (capacity : Nat)
  | publish (m : Message)
  /-- Asks a subscription's channel for its next message. -/
  | receive (topic : String) (subscription : Nat)
  | close (subscription : Nat)
  | leave (topic : String) (subscription : Nat)

def apply (b : Broker) : Move → Broker
  | .stay => b
  | .subscribe topic capacity => (b.subscribe topic (.ofCapacity capacity)).1
  | .publish m => (b.publish m).1
  | .receive topic id => (b.receive topic id).1
  | .close id => b.closeChannel id
  | .leave topic id => (b.unsubscribe topic id).1

/-- The moves in order, each with the broker before it. -/
abbrev History := List (Broker × Move)

/-- The message that an attempt to receive has brought. -/
def Received.message? : Received → Option Message
  | .message m => some m
  | _ => none

theorem subscriptions_congr {b b' : Broker} (h : b'.topics = b.topics) (topic : String) :
    b'.subscriptions topic = b.subscriptions topic := by
  unfold subscriptions
  rw [h]

/-! Subscribing. -/

theorem channels_subscribe (b : Broker) (topic : String) (capacity : Nat) :
    (b.apply (.subscribe topic capacity)).channels =
      b.channels ++ [Channel.ofCapacity capacity] := rfl

theorem subscriptions_subscribe (b : Broker) (topic topic' : String) (capacity : Nat) :
    (b.apply (.subscribe topic capacity)).subscriptions topic' =
      if topic = topic' then b.subscriptions topic ++ [b.channels.length]
      else b.subscriptions topic' := by
  show ((b.topics.put topic (b.subscriptions topic ++ [b.channels.length])).at? topic').getD []
    = _
  rw [Table.at?_put]
  split <;> rfl

/-- The new subscription is on its topic, and its channel is open. -/
theorem registered_subscribe (b : Broker) (topic : String) (capacity : Nat) :
    b.channels.length ∈ (b.apply (.subscribe topic capacity)).subscriptions topic ∧
      (b.apply (.subscribe topic capacity)).isOpen b.channels.length = true := by
  constructor
  · rw [subscriptions_subscribe, if_pos rfl]
    exact List.mem_append_right _ List.mem_cons_self
  · rw [isOpen, channels_subscribe]
    simp [Channel.ofCapacity]

/-! Receiving. -/

theorem topics_receive (b : Broker) (topic : String) (id : Nat) :
    (b.receive topic id).1.topics = b.topics := by
  rw [receive]
  split
  · rfl
  · split <;> rfl

theorem channels_receive (b : Broker) (topic : String) (id k : Nat) :
    (b.receive topic id).1.channels[k]? =
      if k = id then b.channels[k]?.map fun c => { c with buffer := c.buffer.tail }
      else b.channels[k]? := by
  rw [receive]
  cases hc : b.channels[id]? with
  | none =>
      by_cases hk : k = id
      · rw [if_pos hk, hk, hc]; rfl
      · exact (if_neg hk).symm
  | some c =>
      obtain ⟨hlt, -⟩ := List.getElem?_eq_some_iff.mp hc
      obtain ⟨capacity, buffer, isOpen⟩ := c
      cases buffer with
      | nil =>
          simp only [Channel.take?]
          split
          · next heq => rw [heq, hc]; rfl
          · rfl
      | cons m rest =>
          simp only [Channel.take?, setChannel, List.getElem?_set, hlt, if_true]
          split
          · next heq => rw [if_pos heq.symm, ← heq, hc]; rfl
          · next hne => rw [if_neg (Ne.symm hne)]

theorem isOpen_receive (b : Broker) (topic : String) (id k : Nat) :
    (b.receive topic id).1.isOpen k = b.isOpen k :=
  isOpen_of_channels (f := fun c => { c with buffer := c.buffer.tail }) (fun _ => rfl)
    (channels_receive b topic id k)

theorem message?_receive (b : Broker) (topic : String) (id : Nat) :
    (b.receive topic id).2.message? = b.channels[id]?.bind (·.buffer.head?) := by
  rw [receive]
  cases b.channels[id]? with
  | none => rfl
  | some c =>
      obtain ⟨capacity, buffer, isOpen⟩ := c
      cases buffer with
      | nil =>
          simp only [Channel.take?, Option.bind_some, List.head?_nil]
          split <;> rfl
      | cons m rest => rfl

/-! Closing a channel. -/

theorem topics_closeChannel (b : Broker) (id : Nat) :
    (b.closeChannel id).topics = b.topics := by
  rw [closeChannel]
  split <;> rfl

theorem channels_closeChannel (b : Broker) (id k : Nat) :
    (b.closeChannel id).channels[k]? =
      if k = id then b.channels[k]?.map Channel.close else b.channels[k]? := by
  rw [closeChannel]
  cases hc : b.channels[id]? with
  | none =>
      by_cases hk : k = id
      · rw [if_pos hk, hk, hc]; rfl
      · exact (if_neg hk).symm
  | some c =>
      obtain ⟨hlt, -⟩ := List.getElem?_eq_some_iff.mp hc
      simp only [setChannel, List.getElem?_set, hlt, if_true]
      split
      · next heq => rw [if_pos heq.symm, ← heq, hc]; rfl
      · next hne => rw [if_neg (Ne.symm hne)]

/-! Leaving a topic. -/

theorem unsubscribe_fst (b : Broker) (topic : String) (id : Nat) :
    (b.unsubscribe topic id).1 = (b.remove topic id).1 := by
  simp only [unsubscribe]
  split <;> rfl

theorem channels_unsubscribe (b : Broker) (topic : String) (id : Nat) :
    (b.unsubscribe topic id).1.channels = b.channels := by
  rw [unsubscribe_fst, channels_remove]

theorem subscriptions_unsubscribe (b : Broker) (topic topic' : String) (id : Nat) :
    (b.unsubscribe topic id).1.subscriptions topic' =
      if topic = topic' then (b.subscriptions topic).filter (· ≠ id)
      else b.subscriptions topic' := by
  rw [unsubscribe_fst, subscriptions_remove]

/-! Publishing, for the brokers that moves lead to. -/

/-- Every registration is of a subscription that has been made, and stands once. -/
structure Tidy (b : Broker) : Prop where
  nodup : ∀ topic, (b.subscriptions topic).Nodup
  made : ∀ topic, ∀ id ∈ b.subscriptions topic, id < b.channels.length

theorem tidy_empty : Tidy empty where
  nodup topic := by simp [subscriptions, empty, Table.at?]
  made topic id h := by simp [subscriptions, empty, Table.at?] at h

theorem length_channels_publish (b : Broker) (m : Message)
    (h : (b.subscriptions m.topic).Nodup) :
    (b.publish m).1.channels.length = b.channels.length := by
  have same : ∀ k, (b.publish m).1.channels.length ≤ k ↔ b.channels.length ≤ k := by
    intro k
    rw [← List.getElem?_eq_none_iff, ← List.getElem?_eq_none_iff, channels_publish b m h k]
    split <;> simp
  exact Nat.le_antisymm ((same _).mpr (Nat.le_refl _)) ((same _).mp (Nat.le_refl _))

theorem length_channels_receive (b : Broker) (topic : String) (id : Nat) :
    (b.receive topic id).1.channels.length = b.channels.length := by
  rw [receive]
  split
  · rfl
  · split
    · exact List.length_set
    · rfl

theorem length_channels_closeChannel (b : Broker) (id : Nat) :
    (b.closeChannel id).channels.length = b.channels.length := by
  rw [closeChannel]
  split
  · rfl
  · exact List.length_set

/-- Registrations may go as long as the channels stay. -/
theorem Tidy.of_sublist {b b' : Broker} (h : b.Tidy)
    (hsub : ∀ topic, (b'.subscriptions topic).Sublist (b.subscriptions topic))
    (hlen : b'.channels.length = b.channels.length) : b'.Tidy where
  nodup topic := (h.nodup topic).sublist (hsub topic)
  made topic id hid := hlen ▸ h.made topic id ((hsub topic).subset hid)

theorem Tidy.subscribe {b : Broker} (h : b.Tidy) (topic : String) (capacity : Nat) :
    (b.apply (.subscribe topic capacity)).Tidy := by
  constructor
  · intro topic'
    rw [subscriptions_subscribe]
    split
    · refine List.nodup_append.mpr ⟨h.nodup topic, by simp, ?_⟩
      intro id hid k hk
      have := h.made topic id hid
      rw [List.mem_singleton] at hk
      omega
    · exact h.nodup topic'
  · intro topic' id hid
    rw [subscriptions_subscribe] at hid
    rw [channels_subscribe, List.length_append, List.length_singleton]
    split at hid
    · rcases List.mem_append.mp hid with hid | hid
      · exact Nat.lt_succ_of_lt (h.made topic id hid)
      · rw [List.mem_singleton] at hid
        omega
    · exact Nat.lt_succ_of_lt (h.made topic' id hid)

theorem Tidy.apply {b : Broker} (h : b.Tidy) (move : Move) : (b.apply move).Tidy := by
  cases move with
  | stay => exact h
  | subscribe topic capacity => exact h.subscribe topic capacity
  | publish m =>
      refine h.of_sublist ?_ (length_channels_publish b m (h.nodup _))
      intro topic
      rw [Broker.apply, subscriptions_publish]
      split
      · exact List.filter_sublist
      · exact .refl _
  | receive topic id =>
      refine h.of_sublist ?_ (length_channels_receive b topic id)
      intro topic'
      have heq := subscriptions_congr (topics_receive b topic id) topic'
      exact heq ▸ .refl _
  | close id =>
      refine h.of_sublist ?_ (length_channels_closeChannel b id)
      intro topic'
      have heq := subscriptions_congr (topics_closeChannel b id) topic'
      exact heq ▸ .refl _
  | leave topic id =>
      refine h.of_sublist ?_ (congrArg List.length (channels_unsubscribe b topic id))
      intro topic'
      rw [Broker.apply, subscriptions_unsubscribe]
      split
      · next heq => subst heq; exact List.filter_sublist
      · exact .refl _

/-! What becomes of a subscription. -/

/-- The move takes the registration off the topic, if it is there: whoever has it leaves, or a
publication finds its channel closed. -/
def Expels (b : Broker) (topic : String) (id : Nat) : Move → Prop
  | .leave topic' id' => topic' = topic ∧ id' = id
  | .publish m => m.topic = topic ∧ b.isOpen id = false
  | _ => False

theorem mem_subscriptions_of_not_expels {b : Broker} {move : Move} {topic : String} {id : Nat}
    (h : id ∈ b.subscriptions topic) (hstays : ¬ b.Expels topic id move) :
    id ∈ (b.apply move).subscriptions topic := by
  cases move with
  | stay => exact h
  | subscribe topic' capacity =>
      rw [subscriptions_subscribe]
      split
      · next heq => subst heq; exact List.mem_append_left _ h
      · exact h
  | publish m =>
      rw [Broker.apply, subscriptions_publish]
      split
      · next heq =>
          subst heq
          cases hopen : b.isOpen id with
          | true => exact List.mem_filter.mpr ⟨h, hopen⟩
          | false => exact (hstays ⟨rfl, hopen⟩).elim
      · exact h
  | receive topic' k =>
      rw [Broker.apply, subscriptions_congr (topics_receive b topic' k)]
      exact h
  | close k =>
      rw [Broker.apply, subscriptions_congr (topics_closeChannel b k)]
      exact h
  | leave topic' k =>
      rw [Broker.apply, subscriptions_unsubscribe]
      split
      · next heq =>
          subst heq
          have hk : id ≠ k := fun hk => hstays ⟨rfl, hk.symm⟩
          exact List.mem_filter.mpr ⟨h, decide_eq_true hk⟩
      · exact h

theorem not_mem_subscriptions_of_expels {b : Broker} {move : Move} {topic : String} {id : Nat}
    (hgoes : b.Expels topic id move) : id ∉ (b.apply move).subscriptions topic := by
  cases move with
  | publish m =>
      obtain ⟨rfl, hclosed⟩ := hgoes
      rw [Broker.apply, subscriptions_publish, if_pos rfl]
      simp [hclosed]
  | leave topic' k =>
      obtain ⟨rfl, rfl⟩ := hgoes
      rw [Broker.apply, subscriptions_unsubscribe, if_pos rfl]
      simp
  | stay | subscribe | receive | close => exact hgoes.elim

/-- The channel of a subscription that has been made is open as long as nobody closes it. -/
theorem isOpen_apply {b : Broker} (htidy : b.Tidy) {id : Nat} (hlt : id < b.channels.length)
    {move : Move} (hmove : move ≠ .close id) : (b.apply move).isOpen id = b.isOpen id := by
  have same : ∀ {b' : Broker}, b'.channels[id]? = b.channels[id]? → b'.isOpen id = b.isOpen id :=
    fun hchannel => by rw [isOpen, isOpen, hchannel]
  cases move with
  | stay => rfl
  | subscribe topic capacity =>
      exact same (by rw [channels_subscribe, List.getElem?_append_left hlt])
  | publish m => exact isOpen_publish b m (htidy.nodup m.topic) id
  | receive topic k => exact isOpen_receive b topic k id
  | close k =>
      have hk : id ≠ k := fun h => hmove (congrArg Move.close h.symm)
      exact same (by rw [Broker.apply, channels_closeChannel, if_neg hk])
  | leave topic k => exact same (by rw [Broker.apply, channels_unsubscribe])

theorem isOpen_close (b : Broker) (id : Nat) : (b.apply (.close id)).isOpen id = false := by
  rw [Broker.apply, isOpen, channels_closeChannel, if_pos rfl]
  cases b.channels[id]? <;> rfl

/-! A subscription that is let alone. -/

/-- The subscription whose channel or registration the move is about. -/
def Move.target? : Move → Option Nat
  | .receive _ id | .close id | .leave _ id => some id
  | .stay | .subscribe .. | .publish _ => none

/-- What is not about a subscription, and publishes nothing on its topic, leaves its channel
and its registration. -/
theorem spared {b : Broker} (htidy : b.Tidy) {topic : String} {id : Nat}
    (hlt : id < b.channels.length)
    (hown : ∀ topic', id ∈ b.subscriptions topic' → topic' = topic) {move : Move}
    (htarget : move.target? ≠ some id) (hpublish : ∀ m, move = .publish m → m.topic ≠ topic) :
    (b.apply move).channels[id]? = b.channels[id]? ∧
      (id ∈ (b.apply move).subscriptions topic ↔ id ∈ b.subscriptions topic) := by
  cases move with
  | stay => exact ⟨rfl, Iff.rfl⟩
  | subscribe topic' capacity =>
      refine ⟨by rw [channels_subscribe, List.getElem?_append_left hlt], ?_⟩
      rw [subscriptions_subscribe]
      split
      · next heq =>
          subst heq
          have hne : id ≠ b.channels.length := Nat.ne_of_lt hlt
          simp [hne]
      · rfl
  | publish m =>
      have htopic := hpublish m rfl
      have hnot : id ∉ b.subscriptions m.topic := fun h => htopic (hown m.topic h)
      refine ⟨?_, ?_⟩
      · rw [Broker.apply, channels_publish b m (htidy.nodup m.topic), if_neg hnot]
      · rw [Broker.apply, subscriptions_publish, if_neg htopic]
  | receive topic' k =>
      have hk : id ≠ k := fun h => htarget (congrArg some h.symm)
      refine ⟨by rw [Broker.apply, channels_receive, if_neg hk], ?_⟩
      rw [Broker.apply, subscriptions_congr (topics_receive b topic' k)]
  | close k =>
      have hk : id ≠ k := fun h => htarget (congrArg some h.symm)
      refine ⟨by rw [Broker.apply, channels_closeChannel, if_neg hk], ?_⟩
      rw [Broker.apply, subscriptions_congr (topics_closeChannel b k)]
  | leave topic' k =>
      have hk : id ≠ k := fun h => htarget (congrArg some h.symm)
      refine ⟨by rw [Broker.apply, channels_unsubscribe], ?_⟩
      rw [Broker.apply, subscriptions_unsubscribe]
      split
      · next heq =>
          subst heq
          simp [hk]
      · rfl

end Broker

end DiceRooms
