import DiceRooms.Proofs.Deployment.Handles

/-!
Handles do not get into each other's way. A hub counts for a room the open sessions, the active
viewers and the pairs that are registered directly; who gives up a handle takes away this one
registration; and no dispatch that begins afterwards tells a roll to a handle that is gone.
-/
namespace DiceRooms

/-! Counting. -/

theorem countP_held (k : Nat) (room : String) (hs : List Handle) :
    hs.countP (·.seat.isIn k room) = (hs.filterMap Handle.session?).countP (·.seat.isIn k room) +
      (hs.filterMap Handle.viewer?).countP (·.seat.isIn k room) +
      (hs.filterMap Handle.direct?).countP (·.isIn k room) := by
  induction hs with
  | nil => rfl
  | cons h hs ih =>
      rw [List.countP_cons, ih]
      cases h with
      | session s =>
          rw [List.filterMap_cons_some (f := Handle.session?) rfl, List.countP_cons]
          exact (Nat.add_right_comm _ _ _).trans (congrArg (· + _) (Nat.add_right_comm _ _ _))
      | viewer v f =>
          rw [List.filterMap_cons_some (f := Handle.viewer?) rfl, List.countP_cons, ← Nat.add_assoc]
          exact Nat.add_right_comm _ _ _
      | direct seat f =>
          rw [List.filterMap_cons_some (f := Handle.direct?) rfl, List.countP_cons]
          exact Nat.add_assoc _ _ _

namespace Kept

variable {tr : Trace} {d : Deployment} {k : Nat} {r : Registry Handler}

theorem nodup_ids (kept : Kept tr d) (k : Nat) (room : String) :
    ((tr.held.filter (·.seat.isIn k room)).map Handle.id).Nodup := by
  refine List.pairwise_map.mpr ((kept.apart.filter _).imp_of_mem ?_)
  intro h h' hmem hmem' apart hid
  obtain ⟨hhub, hroom⟩ := of_decide_eq_true (List.mem_filter.mp hmem).2
  obtain ⟨hhub', hroom'⟩ := of_decide_eq_true (List.mem_filter.mp hmem').2
  exact apart.seats (Seat.ext (hhub.trans hhub'.symm) (hroom.trans hroom'.symm) hid)

theorem get?_eq_some_iff (kept : Kept tr d) (hr : d.registry? k = some r) (room id : String)
    (f : Handler) : r.get? room id = some f ↔
      ∃ h ∈ tr.held, h.seat = ⟨k, room, id⟩ ∧ h.handler = f := by
  rw [← kept.seated, Deployment.seated?, hr, Option.bind_some]

theorem mem_ids_iff (kept : Kept tr d) (hkeyed : r.Keyed) (hr : d.registry? k = some r)
    (room id : String) : id ∈ (r.snapshot room).map Prod.fst ↔
      id ∈ (tr.held.filter (·.seat.isIn k room)).map Handle.id := by
  constructor
  · intro hid
    obtain ⟨⟨_, f⟩, hentry, rfl⟩ := List.mem_map.mp hid
    have hget := (Registry.mem_snapshot_iff hkeyed room _ f).mp hentry
    obtain ⟨h, hmem, hseat, -⟩ := (kept.get?_eq_some_iff hr room _ f).mp hget
    refine List.mem_map.mpr ⟨h, List.mem_filter.mpr ⟨hmem, ?_⟩, congrArg Seat.subscriber hseat⟩
    rw [hseat]
    exact decide_eq_true ⟨rfl, rfl⟩
  · intro hid
    obtain ⟨h, hmem, rfl⟩ := List.mem_map.mp hid
    obtain ⟨hmem, hin⟩ := List.mem_filter.mp hmem
    obtain ⟨hhub, hroom⟩ := of_decide_eq_true hin
    have hget := (kept.get?_eq_some_iff hr room h.id h.handler).mpr
      ⟨h, hmem, Seat.ext hhub hroom rfl, rfl⟩
    exact List.mem_map_of_mem ((Registry.mem_snapshot_iff hkeyed room _ _).mpr hget)

theorem subscriberCount_registry (kept : Kept tr d) (hkeyed : r.Keyed)
    (hr : d.registry? k = some r) (room : String) :
    r.subscriberCount room = tr.held.countP (·.seat.isIn k room) := by
  have hperm := (List.perm_ext_iff_of_nodup (Registry.nodup_snapshot hkeyed room)
    (kept.nodup_ids k room)).mpr (kept.mem_ids_iff hkeyed hr room)
  have hlength := hperm.length_eq
  rw [List.length_map, List.length_map] at hlength
  rw [List.countP_eq_length_filter]
  exact hlength

/-- Nobody holds anything of a hub that has no registry. -/
theorem countP_held_of_absent (kept : Kept tr d) (hnone : d.registry? k = none) (room : String) :
    tr.held.countP (·.seat.isIn k room) = 0 := by
  refine List.countP_eq_zero.mpr fun h hmem hin => ?_
  obtain ⟨rfl, -⟩ := of_decide_eq_true hin
  have hseated := (kept.seated h.seat h.handler).mpr ⟨h, hmem, rfl, rfl⟩
  rw [Deployment.seated?, hnone] at hseated
  cases hseated

end Kept

/-! Dispatches that begin later. -/

namespace Deployment

variable {d d' : Deployment} {a : Action} {n : Nat} {p : Dispatch}

/-- A dispatch keeps its audience. That of a new one is in the registry of its hub. -/
theorem audience_of_perform (step : d.perform a = some d') (hp : d'.dispatches[n]? = some p) :
    (∃ old, d.dispatches[n]? = some old ∧ p.audience = old.audience) ∨
      n = d.dispatches.size ∧ ∃ k r, d.registry? k = some r ∧
        p.audience = r.snapshot p.roll.room := by
  have happens := happens_perform step
  rw [← getElem?_core_dispatches, happens.core_eq] at hp
  rcases Core.of_getElem?_dispatches_apply hp with ⟨hlast, hopened⟩ | ⟨old, hold, rfl⟩
  · obtain ⟨r, owner, roll, hr, rfl⟩ := registryOf?_of_opened happens.possible hopened
    exact .inr ⟨hlast, owner.hub, r, hr, congrArg Telling.audience (telling_begin owner r roll)⟩
  · rw [getElem?_core_dispatches] at hold
    exact .inl ⟨old, hold, congrArg Telling.audience (telling_onDispatch n old _)⟩

end Deployment

theorem Trace.mem_givenUp_append {tr : Trace} {id : String} (hid : id ∈ tr.givenUp)
    (rest : Trace) : id ∈ givenUp (tr ++ rest) := by
  rw [givenUp, List.filterMap_append]
  exact List.mem_append_left _ hid

namespace Managed

variable {tr rest : Trace} {d d' : Deployment} {n : Nat} {p : Dispatch} {id : String}

theorem keyed (managed : Managed tr d) {k : Nat} {r : Registry Handler}
    (hr : d.registry? k = some r) : r.Keyed :=
  managed.reached.keyed_of_registryOf? hr

/-- The induction is on what has happened since the handle was given up. -/
theorem not_mem_audience (managed : Managed tr d) (later : Managed (tr ++ rest) d')
    (hid : id ∈ tr.givenUp) (hn : d.dispatches.size ≤ n) (hp : d'.dispatches[n]? = some p)
    (f : Handler) : (id, f) ∉ p.audience := by
  induction rest using List.reverseRecOn generalizing d' p with
  | nil =>
      rw [List.append_nil] at later
      obtain rfl := managed.unique later
      rw [Array.getElem?_eq_none hn] at hp
      cases hp
  | append_singleton rest s ih =>
      rw [← List.append_assoc] at later
      obtain ⟨before, -, performed⟩ := later.of_concat
      rcases Deployment.audience_of_perform performed hp with
        ⟨old, hold, haudience⟩ | ⟨-, k, r, hr, haudience⟩
      · rw [haudience]
        exact ih before hold
      · intro htold
        rw [haudience] at htold
        have hget := (Registry.mem_snapshot_iff (before.keyed hr) _ id f).mp htold
        obtain ⟨h, hmem, hseat, -⟩ := (before.kept.get?_eq_some_iff hr _ id f).mp hget
        have hgone := before.kept.gone id (Trace.mem_givenUp_append hid rest)
        exact hgone.2 h hmem (congrArg Seat.subscriber hseat)

end Managed

/-- The handle loses its seat, and nobody else does. -/
structure Vacates (h : Handle) (d d' : Deployment) : Prop where
  before : d.seated? h.seat = some h.handler
  after : d'.seated? h.seat = none
  others : ∀ seat, seat ≠ h.seat → d'.seated? seat = d.seated? seat

theorem vacates_of_clears {tr : Trace} {d d' : Deployment} {a : Action} {h : Handle}
    (managed : Managed tr d) (hmem : h ∈ tr.held) (performed : d.perform a = some d')
    (clears : a.Clears h.seat) : Vacates h d d' where
  before := (managed.kept.seated h.seat h.handler).mpr ⟨h, hmem, rfl, rfl⟩
  after := Deployment.seated?_of_clears performed clears
  others seat hne := by
    refine Deployment.seated?_of_not_concerns performed ?_
    rintro (clears' | ⟨new, registers, -⟩)
    · exact hne (clears'.unique clears)
    · exact registers.not_clears clears

/-- What holds whenever handles have been managed. -/
structure Independent (tr : Trace) (d : Deployment) : Prop where
  counts : ∀ k room, d.subscriberCount k room = tr.sessions.countP (·.seat.isIn k room) +
    tr.viewers.countP (·.seat.isIn k room) + tr.pairs.countP (·.isIn k room)
  /-- A registry holds the handles of its hub, under their rooms and ids. -/
  represents : ∀ {k r}, d.registry? k = some r → r.Represents fun room id f =>
    ∃ h ∈ tr.held, h.seat = ⟨k, room, id⟩ ∧ h.handler = f
  closes : ∀ {s}, .session s ∈ tr.held →
    (d.closeSession s).2 = .ok () ∧ Vacates (.session s) d (d.closeSession s).1
  unsubscribes : ∀ {v f}, .viewer v f ∈ tr.held →
    (d.unsubscribeViewer v).2 = .ok () ∧ Vacates (.viewer v f) d (d.unsubscribeViewer v).1
  removes : ∀ {seat f}, .direct seat f ∈ tr.held → ∀ e : Endpoint, e.hub = seat.hub →
    (d.unsubscribe e seat.room seat.subscriber).2 = .ok true ∧
      Vacates (.direct seat f) d (d.unsubscribe e seat.room seat.subscriber).1
  /-- What has been given up is told nothing by a dispatch that begins from now on. -/
  silent : ∀ {rest d'}, Managed (tr ++ rest) d' → ∀ id ∈ tr.givenUp, ∀ {n p},
    d.dispatches.size ≤ n → d'.dispatches[n]? = some p → ∀ inv ∈ p.broadcast, inv.subscriber ≠ id
  rejects : ∀ e id f, d.subscribeViewer e id "" f = (d, .error (.invalidRequest .noRoom))

section
variable {tr : Trace} {d : Deployment}

theorem Managed.subscriberCount_eq (managed : Managed tr d) (k : Nat) (room : String) :
    d.subscriberCount k room = tr.held.countP (·.seat.isIn k room) := by
  rw [Deployment.subscriberCount]
  cases hr : d.registry? k with
  | none => exact (managed.kept.countP_held_of_absent hr room).symm
  | some r => exact managed.kept.subscriberCount_registry (managed.keyed hr) hr room

theorem Managed.exists_registry (managed : Managed tr d) {h : Handle} (hmem : h ∈ tr.held) :
    ∃ r, d.registry? h.seat.hub = some r := by
  have hseated := (managed.kept.seated h.seat h.handler).mpr ⟨h, hmem, rfl, rfl⟩
  obtain ⟨r, hr, -⟩ := Option.bind_eq_some_iff.mp hseated
  exact ⟨r, hr⟩

/-- Sessions, viewers and pairs that are registered directly are independent of each other, on
any hub and in whatever order they come and go, as long as generated ids never repeat. -/
theorem handles_independent (managed : Managed tr d) : Independent tr d where
  counts k room := by
    rw [managed.subscriberCount_eq, countP_held]
    rfl
  represents hr := by
    have tidy := managed.reached.registry_induct Registry.tidy_empty Registry.tidy_set
      Registry.tidy_delete hr
    exact tidy.represents (managed.kept.get?_eq_some_iff hr)
  closes hmem := by
    obtain ⟨r, hr⟩ := managed.exists_registry hmem
    exact ⟨Deployment.closeSession_answer hr, vacates_of_clears managed hmem rfl (.session _)⟩
  unsubscribes hmem := by
    obtain ⟨r, hr⟩ := managed.exists_registry hmem
    exact ⟨Deployment.unsubscribeViewer_answer hr, vacates_of_clears managed hmem rfl (.viewer _)⟩
  removes {seat f} hmem e he := by
    obtain ⟨r, hr⟩ := managed.exists_registry hmem
    have hget : r.get? seat.room seat.subscriber = some f :=
      (managed.kept.get?_eq_some_iff hr _ _ f).mpr ⟨_, hmem, rfl, rfl⟩
    have clears : (Action.unsubscribe e seat.room seat.subscriber).Clears seat := by
      have direct := Action.Clears.direct e seat.room seat.subscriber
      rwa [he] at direct
    refine ⟨?_, vacates_of_clears managed hmem rfl clears⟩
    rw [Deployment.unsubscribe, Deployment.changeRegistry_answer (he ▸ hr),
      Registry.delete_removes, hget]
    rfl
  silent later id hid _ p hn hp inv hinv heq := by
    refine managed.not_mem_audience later hid hn hp inv.handler ?_
    rw [← heq]
    exact List.mem_map_of_mem hinv
  rejects e id f := rfl

end

/-- A session is closed on a hub that has stopped, where a pair stays. Of the two viewers on
another hub one unsubscribes, and the roll that is told there afterwards is not for this one. -/
theorem handles_independent_stopped : ∃ tr d hub d', Managed tr d ∧
    d.brokerHub? 0 = some hub ∧ hub.phase = .stopped ∧ tr.givenUp = ["u", "v"] ∧
    d.subscriberCount 0 "r" = 1 ∧ d.subscriberCount 1 "r" = 1 ∧
    d.perform (.notify ⟨1, []⟩ Deployment.oneRoll) = some d' ∧
    ∃ p, d'.dispatches[0]? = some p ∧ p.broadcast.length = 1 ∧
      ∀ inv ∈ p.broadcast, inv.subscriber ≠ "v" := by
  have built := ((Managed.start.step (a := .newToken) trivial rfl).step
    (a := .build ⟨some .direct, some ⟨0, []⟩, "rolls", 1⟩) trivial rfl).step
    (a := .openMemory) trivial rfl
  have opened := (built.step (a := .openSession ⟨0, []⟩ "u" "r")
    (show Trace.Unused _ _ by decide) rfl).step (a := .subscribe ⟨0, []⟩ "r" "s" .idle)
    (show _ ∉ Trace.generated _ by decide) rfl
  have joined := (opened.step (a := .subscribeViewer ⟨1, []⟩ "v" "r" .idle)
    (fun _ => by decide) rfl).step (a := .subscribeViewer ⟨1, []⟩ "w" "r" .idle)
    (fun _ => by decide) rfl
  have stopped := (((joined.step (a := .shutdown 0) trivial rfl).step (a := .turn 0) trivial
    rfl).step (a := .turn 0) trivial rfl).step (a := .turn 0) trivial rfl
  have closed := (stopped.step (a := .closeSession ⟨"u", "r", ⟨0, []⟩, 0⟩)
    (show _ ∈ Trace.sessions _ by decide) rfl).step (a := .unsubscribeViewer ⟨"v", "r", ⟨1, []⟩⟩)
    (show _ ∈ Trace.viewers _ by decide) rfl
  have told := closed.step (a := .notify ⟨1, []⟩ Deployment.oneRoll) trivial rfl
  have independent := handles_independent closed
  refine ⟨_, _, _, _, closed, rfl, rfl, rfl, ?_, ?_, rfl, _, rfl, rfl, ?_⟩
  · rw [independent.counts]
    rfl
  · rw [independent.counts]
    rfl
  · exact independent.silent told "v" (by decide) (n := 0) (Nat.le_refl 0) rfl

end DiceRooms
