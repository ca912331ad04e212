import DiceRooms.Proofs.Broker.Move

/-!
The flow of messages through a broker, told by its history. What a subscription is due
are the messages published on its topic while it was registered with an open channel,
but for those published when the channel was full. After any moves, what has been taken
from the channel and what is still in it make up exactly the messages due, in order.
-/
namespace DiceRooms.Broker

def buffered (b : Broker) (id : Nat) : Nat :=
  (b.channels[id]?.map (·.buffer.length)).getD 0

def subscribedAt : Broker × Move → Option (String × Nat)
  | (_, .subscribe topic capacity) => some (topic, capacity)
  | _ => none

/-- Topics and capacities of the subscriptions made, in the order of their numbers. -/
def subscribed (h : History) : List (String × Nat) := h.filterMap subscribedAt

def takenAt (id : Nat) : Broker × Move → Option Message
  | (b, .receive topic k) => if k = id then (b.receive topic k).2.message? else none
  | _ => none

/-- The messages taken from the channel of a subscription. -/
def taken (id : Nat) (h : History) : List Message := h.filterMap (takenAt id)

def dueAt (topic : String) (capacity id : Nat) : Broker × Move → Option Message
  | (b, .publish m) =>
      if m.topic = topic ∧ b.isRegistered topic id = true ∧ b.isOpen id = true ∧
        b.buffered id < capacity then some m else none
  | _ => none

/-- The messages that a subscription on the topic has to be given. -/
def due (topic : String) (capacity id : Nat) (h : History) : List Message :=
  h.filterMap (dueAt topic capacity id)

/-- The move takes a subscription that has been made off its topic, or closes its channel. -/
def Quits (topic : String) (id : Nat) (s : Broker × Move) : Prop :=
  id < s.1.channels.length ∧ (s.2 = .leave topic id ∨ s.2 = .close id)

theorem not_quits {b : Broker} {move : Move} {topic : String} {id : Nat}
    (hleave : move ≠ .leave topic id) (hclose : move ≠ .close id) :
    ¬ Quits topic id (b, move) := by
  rintro ⟨-, h | h⟩
  · exact hleave h
  · exact hclose h

theorem filterMap_concat {α β : Type} (f : α → Option β) (l : List α) (a : α) :
    (l ++ [a]).filterMap f = l.filterMap f ++ (f a).toList := by
  rw [List.filterMap_append]
  cases ha : f a <;> simp [ha]

theorem taken_concat (id : Nat) (h : History) (s : Broker × Move) :
    taken id (h ++ [s]) = taken id h ++ (takenAt id s).toList :=
  filterMap_concat (takenAt id) h s

theorem due_concat (topic : String) (capacity id : Nat) (h : History) (s : Broker × Move) :
    due topic capacity id (h ++ [s]) =
      due topic capacity id h ++ (dueAt topic capacity id s).toList :=
  filterMap_concat (dueAt topic capacity id) h s

theorem subscribed_concat (h : History) (s : Broker × Move) :
    subscribed (h ++ [s]) = subscribed h ++ (subscribedAt s).toList :=
  filterMap_concat subscribedAt h s

theorem isRegistered_iff (b : Broker) (topic : String) (id : Nat) :
    b.isRegistered topic id = true ↔ id ∈ b.subscriptions topic := by
  simp [isRegistered]

theorem isOpen_eq {b : Broker} {id : Nat} {c : Channel} (h : b.channels[id]? = some c) :
    b.isOpen id = c.isOpen := by
  simp [isOpen, h]

/-- A channel does not end under a subscription that is registered. -/
theorem receive_ne_closed {b : Broker} {topic : String} {id : Nat}
    (hregistered : id ∈ b.subscriptions topic) (hopen : b.isOpen id = true) :
    (b.receive topic id).2 ≠ .closed := by
  have hregistered := (b.isRegistered_iff topic id).mpr hregistered
  rw [isOpen] at hopen
  rw [receive]
  cases hc : b.channels[id]? with
  | none => rw [hc] at hopen; cases hopen
  | some channel =>
      rw [hc, Option.map_some, Option.getD_some] at hopen
      dsimp only
      split
      · simp
      · simp [hopen, hregistered]

theorem buffered_eq {b : Broker} {id : Nat} {c : Channel} (h : b.channels[id]? = some c) :
    b.buffered id = c.buffer.length := by
  simp [buffered, h]

/-- What one move makes of one channel: what is taken from its head and what is put in at
its end balance, and it goes on being fed unless the move quits it. -/
structure Balances (b : Broker) (move : Move) (topic : String) (id : Nat) (c c' : Channel) :
    Prop where
  found : (b.apply move).channels[id]? = some c'
  capacity : c'.capacity = c.capacity
  flow : (takenAt id (b, move)).toList ++ c'.buffer =
    c.buffer ++ (dueAt topic c.capacity id (b, move)).toList
  bounded : c.buffer.length ≤ c.capacity → c'.buffer.length ≤ c.capacity
  fed : (id ∈ (b.apply move).subscriptions topic ∧ c'.isOpen = true) ↔
    (id ∈ b.subscriptions topic ∧ c.isOpen = true) ∧ ¬ Quits topic id (b, move)

section
variable {b : Broker} {topic : String} {id : Nat} {c : Channel}

/-- A move that leaves a channel and its registration alone. -/
theorem balances_of_same {move : Move} (hc : (b.apply move).channels[id]? = some c)
    (htaken : takenAt id (b, move) = none)
    (hdue : dueAt topic c.capacity id (b, move) = none)
    (hquits : ¬ Quits topic id (b, move))
    (hsubs : id ∈ (b.apply move).subscriptions topic ↔ id ∈ b.subscriptions topic) :
    Balances b move topic id c c where
  found := hc
  capacity := rfl
  flow := by simp [htaken, hdue]
  bounded h := h
  fed := by simp [hsubs, hquits]

theorem balances_subscribe (hlt : id < b.channels.length) (hc : b.channels[id]? = some c)
    (topic' : String) (capacity : Nat) :
    Balances b (.subscribe topic' capacity) topic id c c := by
  apply balances_of_same
  · rw [channels_subscribe, List.getElem?_append_left hlt]
    exact hc
  · rfl
  · rfl
  · exact not_quits (by simp) (by simp)
  · rw [subscriptions_subscribe]
    split
    · next heq =>
        subst heq
        have hne : id ≠ b.channels.length := Nat.ne_of_lt hlt
        simp [hne]
    · rfl

/-- A channel that is offered a message of its subscription's topic. -/
theorem balances_offer (hc : b.channels[id]? = some c) {m : Message}
    (hid : id ∈ b.subscriptions m.topic)
    (hchannel : (b.apply (.publish m)).channels[id]? = some (c.offer m)) :
    Balances b (.publish m) m.topic id c (c.offer m) where
  found := hchannel
  capacity := c.capacity_offer m
  flow := by
    have hreg : b.isRegistered m.topic id = true := (isRegistered_iff b m.topic id).mpr hid
    simp only [takenAt, Option.toList_none, List.nil_append, dueAt, hreg, isOpen_eq hc,
      buffered_eq hc, true_and, Channel.offer]
    split <;> simp
  bounded := c.length_buffer_offer_le m
  fed := by
    have hquits : ¬ Quits m.topic id (b, .publish m) := not_quits (by simp) (by simp)
    rw [Broker.apply, subscriptions_publish, if_pos rfl, List.mem_filter, isOpen_eq hc,
      Channel.isOpen_offer]
    simp [hquits]

theorem balances_publish (htidy : b.Tidy)
    (hown : ∀ topic', id ∈ b.subscriptions topic' → topic' = topic)
    (hc : b.channels[id]? = some c) (m : Message) :
    ∃ c', Balances b (.publish m) topic id c c' := by
  have hchannel := channels_publish b m (htidy.nodup m.topic) id
  by_cases hid : id ∈ b.subscriptions m.topic
  · obtain rfl := hown m.topic hid
    rw [if_pos hid, hc, Option.map_some] at hchannel
    exact ⟨c.offer m, balances_offer hc hid hchannel⟩
  · rw [if_neg hid, hc] at hchannel
    refine ⟨c, balances_of_same hchannel rfl ?_ (not_quits (by simp) (by simp)) ?_⟩
    · simp only [dueAt]
      rw [if_neg]
      rintro ⟨rfl, hreg, -⟩
      exact hid ((isRegistered_iff b m.topic id).mp hreg)
    · rw [Broker.apply, subscriptions_publish]
      split
      · next htopic =>
          subst htopic
          simp [hid]
      · rfl

theorem balances_receive (hc : b.channels[id]? = some c) (topic' : String) (k : Nat) :
    ∃ c', Balances b (.receive topic' k) topic id c c' := by
  have hchannel := channels_receive b topic' k id
  have hsubs : (b.apply (.receive topic' k)).subscriptions topic = b.subscriptions topic :=
    subscriptions_congr (topics_receive b topic' k) topic
  have hquits : ¬ Quits topic id (b, .receive topic' k) := not_quits (by simp) (by simp)
  by_cases hk : id = k
  · subst hk
    rw [if_pos rfl, hc, Option.map_some] at hchannel
    refine ⟨{ c with buffer := c.buffer.tail }, hchannel, rfl, ?_, ?_, ?_⟩
    · simp only [takenAt, if_true, message?_receive, hc, Option.bind_some, dueAt]
      cases c.buffer <;> simp
    · intro hle
      simp only [List.length_tail]
      omega
    · rw [hsubs]
      simp [hquits]
  · rw [if_neg hk, hc] at hchannel
    refine ⟨c, balances_of_same hchannel ?_ rfl hquits (by rw [hsubs])⟩
    simp only [takenAt]
    exact if_neg (Ne.symm hk)

theorem balances_close (hlt : id < b.channels.length) (hc : b.channels[id]? = some c)
    (k : Nat) : ∃ c', Balances b (.close k) topic id c c' := by
  have hchannel := channels_closeChannel b k id
  have hsubs : (b.apply (.close k)).subscriptions topic = b.subscriptions topic :=
    subscriptions_congr (topics_closeChannel b k) topic
  by_cases hk : id = k
  · subst hk
    rw [if_pos rfl, hc, Option.map_some] at hchannel
    refine ⟨c.close, hchannel, rfl, by simp [takenAt, dueAt, Channel.close], fun h => h, ?_⟩
    have hquits : Quits topic id (b, .close id) := ⟨hlt, .inr rfl⟩
    simp [Channel.close, hquits]
  · rw [if_neg hk, hc] at hchannel
    have hclose : Move.close k ≠ .close id := fun h => hk (Move.close.inj h).symm
    exact ⟨c, balances_of_same hchannel rfl rfl (not_quits (by simp) hclose) (by rw [hsubs])⟩

theorem balances_leave (hlt : id < b.channels.length) (hc : b.channels[id]? = some c)
    (topic' : String) (k : Nat) : Balances b (.leave topic' k) topic id c c where
  found := by
    rw [Broker.apply, channels_unsubscribe]
    exact hc
  capacity := rfl
  flow := by simp [takenAt, dueAt]
  bounded h := h
  fed := by
    rw [Broker.apply, subscriptions_unsubscribe]
    by_cases hquits : topic' = topic ∧ k = id
    · obtain ⟨rfl, rfl⟩ := hquits
      have : Quits topic' k (b, .leave topic' k) := ⟨hlt, .inl rfl⟩
      simp [this]
    · have : ¬ Quits topic id (b, .leave topic' k) :=
        not_quits (fun h => hquits (Move.leave.inj h)) (by simp)
      split
      · next heq =>
          subst heq
          have hne : id ≠ k := fun h => hquits ⟨rfl, h.symm⟩
          simp [this, hne]
      · simp [this]

/-- Every move balances every channel. -/
theorem exists_balances (htidy : b.Tidy)
    (hown : ∀ topic', id ∈ b.subscriptions topic' → topic' = topic)
    (hc : b.channels[id]? = some c) (move : Move) : ∃ c', Balances b move topic id c c' := by
  obtain ⟨hlt, -⟩ := List.getElem?_eq_some_iff.mp hc
  cases move with
  | stay => exact ⟨c, balances_of_same hc rfl rfl (not_quits (by simp) (by simp)) Iff.rfl⟩
  | subscribe topic' capacity => exact ⟨c, balances_subscribe hlt hc topic' capacity⟩
  | publish m => exact balances_publish htidy hown hc m
  | receive topic' k => exact balances_receive hc topic' k
  | close k => exact balances_close hlt hc k
  | leave topic' k => exact ⟨c, balances_leave hlt hc topic' k⟩

end

theorem length_channels_apply {b : Broker} (htidy : b.Tidy) (move : Move) :
    (b.apply move).channels.length =
      b.channels.length + (subscribedAt (b, move)).toList.length := by
  cases move with
  | stay => rfl
  | subscribe topic capacity => simp [channels_subscribe, subscribedAt]
  | publish m => exact length_channels_publish b m (htidy.nodup m.topic)
  | receive topic id => exact length_channels_receive b topic id
  | close id => exact length_channels_closeChannel b id
  | leave topic id => exact congrArg List.length (channels_unsubscribe b topic id)

/-- A registration that a move leaves was there before, unless the move has made it. -/
theorem mem_subscriptions_apply {b : Broker} {move : Move} {topic : String} {id : Nat}
    (h : id ∈ (b.apply move).subscriptions topic) :
    id ∈ b.subscriptions topic ∨
      ∃ capacity, move = .subscribe topic capacity ∧ id = b.channels.length := by
  cases move with
  | stay => exact .inl h
  | subscribe topic' capacity =>
      rw [subscriptions_subscribe] at h
      split at h
      · next heq =>
          subst heq
          rcases List.mem_append.mp h with h | h
          · exact .inl h
          · exact .inr ⟨capacity, rfl, List.mem_singleton.mp h⟩
      · exact .inl h
  | publish m =>
      rw [Broker.apply, subscriptions_publish] at h
      split at h
      · exact .inl (List.mem_filter.mp h).1
      · exact .inl h
  | receive topic' k =>
      rw [Broker.apply, subscriptions_congr (topics_receive b topic' k)] at h
      exact .inl h
  | close k =>
      rw [Broker.apply, subscriptions_congr (topics_closeChannel b k)] at h
      exact .inl h
  | leave topic' k =>
      rw [Broker.apply, subscriptions_unsubscribe] at h
      split at h
      · next heq => subst heq; exact .inl (List.mem_filter.mp h).1
      · exact .inl h

/-- What the history tells of one subscription holds of its channel. -/
structure Flows (h : History) (b : Broker) (id : Nat) (topic : String) (capacity : Nat)
    (c : Channel) : Prop where
  found : b.channels[id]? = some c
  capacity_eq : c.capacity = capacity
  flow : taken id h ++ c.buffer = due topic capacity id h
  bounded : c.buffer.length ≤ capacity
  fed : (id ∈ b.subscriptions topic ∧ c.isOpen = true) ↔ ∀ s ∈ h, ¬ Quits topic id s

/-- The broker is where its history says it is. -/
structure Account (h : History) (b : Broker) : Prop where
  tidy : b.Tidy
  count : (subscribed h).length = b.channels.length
  own : ∀ topic, ∀ id ∈ b.subscriptions topic,
    ∃ capacity, (subscribed h)[id]? = some (topic, capacity)
  /-- Nothing has happened to subscriptions that are still to be made. -/
  fresh : ∀ id, b.channels.length ≤ id → taken id h = [] ∧
    ∀ topic, (∀ capacity, due topic capacity id h = []) ∧ ∀ s ∈ h, ¬ Quits topic id s
  flows : ∀ id topic capacity, (subscribed h)[id]? = some (topic, capacity) →
    ∃ c, Flows h b id topic capacity c

theorem account_empty : Account [] empty where
  tidy := tidy_empty
  count := rfl
  own topic id h := by simp [subscriptions, empty, Table.at?] at h
  fresh id _ := ⟨rfl, fun _ => ⟨fun _ => rfl, nofun⟩⟩
  flows id topic capacity h := by simp [subscribed] at h

section
variable {h : History} {b : Broker}

theorem Account.own_topic (ha : Account h b) {id : Nat} {topic : String} {capacity : Nat}
    (hmade : (subscribed h)[id]? = some (topic, capacity)) (topic' : String)
    (hid : id ∈ b.subscriptions topic') : topic' = topic := by
  obtain ⟨capacity', hmade'⟩ := ha.own topic' id hid
  rw [hmade] at hmade'
  cases hmade'
  rfl

/-- Every channel belongs to a subscription that the history tells of. -/
theorem Account.exists_flows (ha : Account h b) {id : Nat} {c : Channel}
    (hc : b.channels[id]? = some c) :
    ∃ topic, (subscribed h)[id]? = some (topic, c.capacity) ∧
      Flows h b id topic c.capacity c := by
  have hlt : id < (subscribed h).length := by
    rw [ha.count]
    exact (List.getElem?_eq_some_iff.mp hc).1
  obtain ⟨⟨topic, capacity⟩, hmade⟩ : ∃ made, (subscribed h)[id]? = some made :=
    ⟨_, List.getElem?_eq_getElem hlt⟩
  obtain ⟨c', hflows⟩ := ha.flows id topic capacity hmade
  obtain rfl : c = c' := Option.some.inj (hc.symm.trans hflows.found)
  obtain rfl := hflows.capacity_eq
  exact ⟨topic, hmade, hflows⟩

theorem Flows.concat {id : Nat} {topic : String} {capacity : Nat} {c c' : Channel}
    {move : Move} (hf : Flows h b id topic capacity c)
    (hbal : Balances b move topic id c c') :
    Flows (h ++ [(b, move)]) (b.apply move) id topic capacity c' where
  found := hbal.found
  capacity_eq := hbal.capacity.trans hf.capacity_eq
  flow := by
    have hflow := hbal.flow
    rw [hf.capacity_eq] at hflow
    rw [taken_concat, due_concat, List.append_assoc, hflow, ← List.append_assoc, hf.flow]
  bounded := by
    have hbound := hbal.bounded (hf.capacity_eq ▸ hf.bounded)
    rwa [hf.capacity_eq] at hbound
  fed := by
    rw [hbal.fed, hf.fed]
    rw [List.forall_mem_append, List.forall_mem_singleton]

/-- Nothing is taken from a channel that is not there, and nothing is due to it. -/
theorem fresh_move {id : Nat} (hid : b.channels.length ≤ id) (move : Move) :
    takenAt id (b, move) = none ∧
      ∀ topic, (∀ capacity, dueAt topic capacity id (b, move) = none) ∧
        ¬ Quits topic id (b, move) := by
  refine ⟨?_, fun topic => ⟨fun capacity => ?_, fun hq => absurd hq.1 (Nat.not_lt.mpr hid)⟩⟩
  · cases move with
    | receive topic k =>
        simp only [takenAt]
        split
        · next heq =>
            subst heq
            rw [message?_receive, List.getElem?_eq_none hid]
            rfl
        · rfl
    | _ => rfl
  · cases move with
    | publish m =>
        have hopen : b.isOpen id = false := by
          simp [isOpen, List.getElem?_eq_none hid]
        simp [dueAt, hopen]
    | _ => rfl

/-- A new subscription has an empty channel, is due nothing yet and goes on being fed. -/
theorem Account.flows_of_subscribe (ha : Account h b) (topic : String) (capacity : Nat) :
    Flows (h ++ [(b, .subscribe topic capacity)]) (b.apply (.subscribe topic capacity))
      b.channels.length topic capacity (.ofCapacity capacity) where
  found := by simp [channels_subscribe]
  capacity_eq := rfl
  flow := by
    obtain ⟨htaken, hrest⟩ := ha.fresh b.channels.length (Nat.le_refl _)
    rw [taken_concat, due_concat, htaken, (hrest topic).1 capacity]
    rfl
  bounded := Nat.zero_le _
  fed := by
    rw [subscriptions_subscribe, if_pos rfl]
    refine iff_of_true ⟨List.mem_append_right _ List.mem_cons_self, rfl⟩ ?_
    refine List.forall_mem_append.mpr
      ⟨((ha.fresh _ (Nat.le_refl _)).2 topic).2, List.forall_mem_singleton.mpr ?_⟩
    rintro ⟨hlt, -⟩
    exact Nat.lt_irrefl _ hlt

theorem Account.flows_concat (ha : Account h b) (move : Move) {id : Nat} {topic : String}
    {capacity : Nat}
    (hmade : (subscribed (h ++ [(b, move)]))[id]? = some (topic, capacity)) :
    ∃ c, Flows (h ++ [(b, move)]) (b.apply move) id topic capacity c := by
  rw [subscribed_concat] at hmade
  by_cases hlt : id < (subscribed h).length
  · rw [List.getElem?_append_left hlt] at hmade
    obtain ⟨c, hf⟩ := ha.flows id topic capacity hmade
    obtain ⟨c', hbal⟩ := exists_balances ha.tidy (ha.own_topic hmade) hf.found move
    exact ⟨c', hf.concat hbal⟩
  · -- The subscription is made by this very move.
    have hge : (subscribed h).length ≤ id := Nat.not_lt.mp hlt
    rw [List.getElem?_append_right hge] at hmade
    cases move with
    | subscribe topic' capacity' =>
        have hbound : id - (subscribed h).length < 1 := (List.getElem?_eq_some_iff.mp hmade).1
        obtain rfl : id = b.channels.length := by
          have := ha.count
          omega
        have hsame : topic' = topic ∧ capacity' = capacity := by
          simpa [subscribedAt, ha.count] using hmade
        obtain ⟨rfl, rfl⟩ := hsame
        exact ⟨_, ha.flows_of_subscribe topic' capacity'⟩
    | _ => simp [subscribedAt] at hmade

theorem Account.concat (ha : Account h b) (move : Move) :
    Account (h ++ [(b, move)]) (b.apply move) where
  tidy := ha.tidy.apply move
  count := by
    rw [subscribed_concat, List.length_append, ha.count, length_channels_apply ha.tidy]
  own topic id hid := by
    rw [subscribed_concat]
    rcases mem_subscriptions_apply hid with hold | ⟨capacity, rfl, rfl⟩
    · obtain ⟨capacity, hmade⟩ := ha.own topic id hold
      obtain ⟨hlt, -⟩ := List.getElem?_eq_some_iff.mp hmade
      exact ⟨capacity, by rw [List.getElem?_append_left hlt]; exact hmade⟩
    · exact ⟨capacity, by rw [← ha.count]; simp [subscribedAt]⟩
  fresh id hid := by
    have hlen := length_channels_apply ha.tidy move
    have hold : b.channels.length ≤ id := by omega
    obtain ⟨htaken, hrest⟩ := ha.fresh id hold
    obtain ⟨htakenAt, hrestAt⟩ := fresh_move hold move
    refine ⟨by rw [taken_concat, htaken, htakenAt]; rfl, fun topic => ⟨fun capacity => ?_, ?_⟩⟩
    · rw [due_concat, (hrest topic).1 capacity, (hrestAt topic).1 capacity]
      rfl
    · exact List.forall_mem_append.mpr
        ⟨(hrest topic).2, List.forall_mem_singleton.mpr (hrestAt topic).2⟩
  flows id topic capacity hmade := ha.flows_concat move hmade

end

end DiceRooms.Broker
