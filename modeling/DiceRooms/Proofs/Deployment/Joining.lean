import DiceRooms.Proofs.Deployment.Creating
import Mathlib.Data.List.Nodup

/-!
Sessions that come and go. To open or close one changes the registry of one hub and the feeds,
and nothing else, so that a calm deployment stays calm.
-/
namespace DiceRooms

/-! How often a handler stands among those of a room. -/

namespace Registry

variable {registry : Registry Handler} {f : Handler} {room id : String}

theorem places_eq_one (hkeyed : registry.Keyed) (hget : registry.get? room id = some f)
    (honly : ∀ id', registry.get? room id' = some f → id' = id) : registry.places f room = 1 := by
  have hmem := (mem_snapshot_iff hkeyed room id f).mpr hget
  have hnodup : (registry.snapshot room).Nodup := .of_map _ (nodup_snapshot hkeyed room)
  rw [places, ← List.count_eq_one_of_mem hnodup hmem, List.count]
  refine List.countP_congr fun entry hentry => ?_
  obtain ⟨id', f'⟩ := entry
  simp only [decide_eq_true_eq, beq_iff_eq, Prod.mk.injEq]
  refine ⟨?_, And.right⟩
  rintro rfl
  exact ⟨honly id' ((mem_snapshot_iff hkeyed room id' f').mp hentry), rfl⟩

theorem places_eq_zero (hkeyed : registry.Keyed) (hnone : ∀ id, registry.get? room id ≠ some f) :
    registry.places f room = 0 := by
  rw [places, List.countP_eq_zero]
  rintro ⟨id, f'⟩ hentry
  rw [decide_eq_true_eq]
  rintro rfl
  exact hnone id ((mem_snapshot_iff hkeyed room id f').mp hentry)

end Registry

theorem Attended.exists_registry {c : Core} (attended : Attended c) {n : Nat}
    (hn : n < c.hubs.length) : ∃ registry, c.registryOf? n = some registry := by
  cases attended with
  | memory registry hubs =>
      rw [hubs, List.length_singleton, Nat.lt_one_iff] at hn
      exact ⟨registry, by rw [Core.registryOf?, hubs, hn]; rfl⟩
  | brokers topic attend =>
      obtain ⟨hub, hthere, -⟩ := attend n hn
      exact ⟨_, registryOf?_of_brokerHub? hthere⟩

namespace Event

/-- The event changes the registry of the hub of the given number, and nothing else. -/
inductive Changes : Event → Nat → (Registry Handler → Registry Handler) → Prop
  | register (n : Nat) (room subscriber : String) (f : Handler) :
      Changes (.register n room subscriber f) n fun r => (r.set room subscriber f).1
  | unregister (n : Nat) (room subscriber : String) :
      Changes (.unregister n room subscriber) n fun r => (r.delete room subscriber).1

namespace Changes

variable {e : Event} {k : Nat} {change : Registry Handler → Registry Handler} {c : Core}

theorem possible (changes : e.Changes k change) : e.Possible c := by
  cases changes <;> trivial

theorem ordinary (changes : e.Changes k change) : e.ordinary = true := by
  cases changes <;> rfl

theorem apply (changes : e.Changes k change) (c : Core) :
    c.apply e = { c with hubs := c.hubs.modify k (Hub.mapRegistry change) } := by
  cases changes <;> rfl

theorem length_hubs (changes : e.Changes k change) :
    (c.apply e).hubs.length = c.hubs.length := by
  rw [changes.apply]
  exact List.length_modify _ _ _

theorem registryOf?_apply (changes : e.Changes k change) (n : Nat) :
    (c.apply e).registryOf? n = (c.registryOf? n).map fun r => if k = n then change r else r := by
  cases changes <;>
    exact Core.registryOf?_apply_of_modify rfl (Hub.registry_mapRegistry _) fun _ => rfl

theorem still (changes : e.Changes k change) (still : Still c) : Still (c.apply e) where
  concluded := by
    rw [changes.apply]
    exact still.concluded
  silent := by
    intro n hub hn
    rcases Core.of_brokerHub?_apply changes.possible hn with ⟨-, capacity, rfl⟩ | ⟨old, hold, rfl⟩
    · cases changes
    · rw [changes.apply, subscription_onHub]
      exact still.silent hold

end Changes

end Event

/-! What look-ups find after a change. -/

section
variable {c : Core} {k n : Nat} {registry : Registry Handler}

theorem get?_register {room subscriber : String} {f : Handler}
    (hn : (c.apply (.register k room subscriber f)).registryOf? n = some registry) :
    ∃ old, c.registryOf? n = some old ∧ ∀ room' subscriber', registry.get? room' subscriber' =
      if k = n ∧ room = room' ∧ subscriber = subscriber' then some f
      else old.get? room' subscriber' := by
  rw [(Event.Changes.register k room subscriber f).registryOf?_apply] at hn
  obtain ⟨old, hold, rfl⟩ := Option.map_eq_some_iff.mp hn
  refine ⟨old, hold, fun room' subscriber' => ?_⟩
  by_cases hk : k = n <;> simp [hk, Registry.get?_set]

theorem get?_unregister {room subscriber : String}
    (hn : (c.apply (.unregister k room subscriber)).registryOf? n = some registry) :
    ∃ old, c.registryOf? n = some old ∧ ∀ room' subscriber', registry.get? room' subscriber' =
      if k = n ∧ room = room' ∧ subscriber = subscriber' then none
      else old.get? room' subscriber' := by
  rw [(Event.Changes.unregister k room subscriber).registryOf?_apply] at hn
  obtain ⟨old, hold, rfl⟩ := Option.map_eq_some_iff.mp hn
  refine ⟨old, hold, fun room' subscriber' => ?_⟩
  by_cases hk : k = n <;> simp [hk, Registry.get?_delete]

end

namespace Deployment

variable {d d' : Deployment}

theorem Calm.change {e : Event} {k : Nat} {change : Registry Handler → Registry Handler}
    (calm : d.Calm) (changes : e.Changes k change) (happens : Happens d e d') : d'.Calm where
  reached := by
    obtain ⟨h, reached⟩ := calm.reached
    rw [happens.core_eq]
    exact ⟨_, reached.step happens.possible⟩
  attended := by
    obtain ⟨h, reached⟩ := calm.reached
    rw [happens.core_eq]
    exact calm.attended.apply reached happens.possible changes.ordinary
  still := by
    rw [happens.core_eq]
    exact changes.still calm.still

/-! Opening and closing. -/

theorem changeRegistry_answer {e : Endpoint} {registry : Registry Handler}
    (hregistry : d.core.registryOf? e.hub = some registry) (op : Operation)
    (change : Registry Handler → Registry Handler × Bool) (notice : Bool → Notice) :
    (d.changeRegistry e op change notice).2 = .ok (change registry).2 := by
  obtain ⟨hub, hhub, hok⟩ := Core.registryOf?_eq_some_iff.mp hregistry
  have hhub : d.hubs[e.hub]? = some hub := hhub
  simp only [changeRegistry, hhub, hok]

theorem openSession_answer {e : Endpoint} {registry : Registry Handler}
    (hregistry : d.core.registryOf? e.hub = some registry) (id room : String) :
    (d.openSession e id room).2 = .ok ⟨id, room, e, d.feeds.length⟩ := by
  have hanswer := changeRegistry_answer (d := { d with feeds := d.feeds ++ [Feed.fresh] })
    hregistry .subscribe (·.set room id (.feed d.feeds.length)) (.handlerSet room id)
  rw [openSession, subscribe]
  split
  · next heq => rw [heq] at hanswer; cases hanswer
  · rfl

theorem closeSession_answer {s : DiceRooms.Session} {registry : Registry Handler}
    (hregistry : d.core.registryOf? s.endpoint.hub = some registry) :
    (d.closeSession s).2 = .ok () := by
  have hanswer := changeRegistry_answer (d := d.adjustFeed s.feed Feed.drop) hregistry
    .unsubscribe (·.delete s.room s.id) (.handlerDeleted s.room s.id)
  rw [closeSession, unsubscribe]
  split
  · next heq => rw [heq] at hanswer; cases hanswer
  · rfl

/-- A session that has been opened is what has been asked for. -/
theorem of_openSession {e : Endpoint} {id room : String} {s : DiceRooms.Session}
    (hanswer : (d.openSession e id room).2 = .ok s) :
    s = ⟨id, room, e, d.feeds.length⟩ ∧ e.hub < d.hubs.length := by
  rw [openSession, subscribe] at hanswer
  split at hanswer
  · cases hanswer
  · next heq =>
      refine ⟨(Except.ok.inj hanswer).symm, Nat.lt_of_not_le fun hle => ?_⟩
      rw [changeRegistry, List.getElem?_eq_none hle] at heq
      cases heq

theorem feeds_openSession (d : Deployment) (e : Endpoint) (id room : String) :
    (d.openSession e id room).1.feeds = d.feeds ++ [.fresh] := by
  have hfront := front_changeRegistry { d with feeds := d.feeds ++ [Feed.fresh] } e .subscribe
    (·.set room id (.feed d.feeds.length)) (.handlerSet room id)
  rw [openSession, subscribe]
  split
  · next heq => rw [heq] at hfront; exact congrArg Front.feeds hfront
  · next heq => rw [heq] at hfront; exact congrArg Front.feeds hfront

theorem feeds_closeSession (d : Deployment) (s : DiceRooms.Session) :
    (d.closeSession s).1.feeds = d.feeds.modify s.feed Feed.drop := by
  have hfront := front_changeRegistry (d.adjustFeed s.feed Feed.drop) s.endpoint .unsubscribe
    (·.delete s.room s.id) (.handlerDeleted s.room s.id)
  rw [closeSession, unsubscribe]
  split
  · next heq => rw [heq] at hfront; exact congrArg Front.feeds hfront
  · next heq => rw [heq] at hfront; exact congrArg Front.feeds hfront

end Deployment

end DiceRooms
