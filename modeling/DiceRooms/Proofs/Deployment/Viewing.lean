import DiceRooms.Proofs.Deployment.Joining
import DiceRooms.Proofs.Deployment.Outset
import DiceRooms.Proofs.Feed.Row

/-!
Viewers get the rolls of their rooms. Services and sessions may be anywhere on a memory hub or
on the hubs of one topic. Whoever opens a session gets the line and the id of every roll of the
room that is created until the session is closed, each once and in the order of their creation.
-/
namespace DiceRooms

/-- What there is to see of a step of the users. -/
inductive Deed
  /-- Somebody has asked for a roll, and this was the answer. -/
  | created (answer : Except DiceError Roll)
  | opened (answer : Except HubError Session)
  /-- A session has been closed, and these are the lines and the ids that it has got. -/
  | closed (s : Session) (lines : List Bytes) (ids : List String)

/-- The oldest deed comes first. -/
abbrev Log := List Deed

namespace Deed

def session? : Deed → Option Session
  | opened (.ok s) => some s
  | _ => none

def closed? : Deed → Option Session
  | closed s _ _ => some s
  | _ => none

/-- The roll that has been created, if it is one for the room. -/
def roll? (room : String) : Deed → Option Roll
  | created (.ok r) => if r.room = room then some r else none
  | _ => none

end Deed

namespace Log

/-- The rolls for the room that have been created, in order. -/
def rolls (log : Log) (room : String) : List Roll := log.filterMap (Deed.roll? room)

def sessions (log : Log) : List Session := log.filterMap Deed.session?

/-- The session has not been closed in the log. -/
def Spares (log : Log) (s : Session) : Prop := ∀ x ∈ log, x.closed? ≠ some s

/-- The session has been opened, and has not been closed since. -/
def Opens (log : Log) (s : Session) : Prop :=
  ∃ before during, log = before ++ .opened (.ok s) :: during ∧ Spares during s

end Log

namespace Session

/-- The lines that the session has got. -/
def lines (s : Session) (d : Deployment) : List Bytes :=
  (((d.feeds[s.feed]?).map (·.rows.unread)).getD []).map Row.line

def ids (s : Session) (d : Deployment) : List String :=
  ((d.feeds[s.feed]?).map (·.notifications.unread)).getD []

end Session

open Deployment (ComesOf Quiet Run)

/-- What users have done to a deployment, each step followed by what comes of it until nothing
is left to do. -/
inductive Lives : Log → Deployment → Prop
  | memory : Lives [] .withMemoryHub
  | brokers {topic : String} {d : Deployment} (hubs : OnTopic topic d) : Lives [] d
  | service {log : Log} {d : Deployment} (before : Lives log d) (notifier subscriber : Endpoint) :
      Lives log (d.addService notifier subscriber).1
  | refused {log : Log} {d d' : Deployment} {service : Nat} {ids : UInt64 → FreshIds}
      {now : Instant} {q : Request} {e : InvalidRequest} (before : Lives log d)
      (request : d.requestRoll service ids now q = some (d', .error e)) :
      Lives (log ++ [.created (.error (.invalidRequest e))]) d'
  | created {log : Log} {d d₁ d' : Deployment} {service n : Nat} {ids : UInt64 → FreshIds}
      {now : Instant} {q : Request} {throw : Roll → Except DiceError Roll} {as : List Action}
      {answer : Except DiceError Roll} (before : Lives log d)
      (request : d.requestRoll service ids now q = some (d₁, .ok n)) (run : Run d₁ as d')
      (comesOf : ∀ a ∈ as, ComesOf n throw a) (quiet : Quiet d' n throw)
      (answers : d'.result? n = some answer) : Lives (log ++ [.created answer]) d'
  | opened {log : Log} {d : Deployment} (before : Lives log d) (e : Endpoint) (id room : String) :
      Lives (log ++ [.opened (d.openSession e id room).2]) (d.openSession e id room).1
  | closed {log : Log} {d : Deployment} {s : Session} (before : Lives log d)
      (opens : log.Opens s) :
      Lives (log ++ [.closed s (s.lines d) (s.ids d)]) (d.closeSession s).1

/-! Logs that grow at the end. -/

namespace Log

variable {log : Log} {s : Session} {x : Deed}

theorem spares_concat : Spares (log ++ [x]) s ↔ log.Spares s ∧ x.closed? ≠ some s := by
  simp [Spares, or_imp, forall_and]

theorem opens_concat : Opens (log ++ [x]) s ↔
    x = .opened (.ok s) ∨ log.Opens s ∧ x.closed? ≠ some s := by
  constructor
  · rintro ⟨before, during, heq, hspares⟩
    rcases concat_eq_append_cons.mp heq with ⟨-, rfl, -⟩ | ⟨rest, rfl, rfl⟩
    · exact .inl rfl
    · obtain ⟨hspares, hx⟩ := spares_concat.mp hspares
      exact .inr ⟨⟨before, rest, rfl, hspares⟩, hx⟩
  · rintro (rfl | ⟨⟨before, during, rfl, hspares⟩, hx⟩)
    · exact ⟨log, [], rfl, nofun⟩
    · exact ⟨before, during ++ [x], by simp, spares_concat.mpr ⟨hspares, hx⟩⟩

theorem sessions_concat (log : Log) (x : Deed) :
    sessions (log ++ [x]) = log.sessions ++ x.session?.toList :=
  Broker.filterMap_concat _ log x

theorem rolls_concat (log : Log) (x : Deed) (room : String) :
    rolls (log ++ [x]) room = log.rolls room ++ (x.roll? room).toList :=
  Broker.filterMap_concat _ log x

theorem mem_sessions_of_opens (opens : log.Opens s) : s ∈ log.sessions := by
  obtain ⟨before, during, rfl, -⟩ := opens
  exact List.mem_filterMap.mpr ⟨_, List.mem_append_right _ List.mem_cons_self, rfl⟩

section
variable {answer : Except HubError Session} {lines : List Bytes} {ids : List String}

theorem opens_opened :
    Opens (log ++ [.opened answer]) s ↔ answer = .ok s ∨ log.Opens s := by
  simp [opens_concat, Deed.closed?]

theorem opens_closed {s' : Session} :
    Opens (log ++ [.closed s lines ids]) s' ↔ log.Opens s' ∧ s ≠ s' := by
  simp [opens_concat, Deed.closed?]

theorem opens_created {answer : Except DiceError Roll} :
    Opens (log ++ [.created answer]) s ↔ log.Opens s := by
  simp [opens_concat, Deed.closed?]

theorem mem_sessions_opened :
    s ∈ sessions (log ++ [.opened answer]) ↔ s ∈ log.sessions ∨ answer = .ok s := by
  rw [sessions_concat, List.mem_append]
  cases answer <;> simp [Deed.session?, eq_comm]

/-- A session that has been opened gets the next feed. -/
theorem feed_lt_opened {n : Nat} (made : ∀ {s}, s ∈ log.sessions → s.feed < n)
    (hnew : ∀ {s}, answer = .ok s → s.feed = n)
    (hs : s ∈ sessions (log ++ [.opened answer])) : s.feed < n + 1 := by
  rcases mem_sessions_opened.mp hs with hs | hs
  · exact Nat.lt_succ_of_lt (made hs)
  · rw [hnew hs]
    exact Nat.lt_succ_self n

theorem eq_of_feed_opened {n : Nat} (made : ∀ {s}, s ∈ log.sessions → s.feed < n)
    (hnew : ∀ {s}, answer = .ok s → s.feed = n)
    (apart : ∀ {s s'}, s ∈ log.sessions → s' ∈ log.sessions → s.feed = s'.feed → s = s')
    {s' : Session} (hs : s ∈ sessions (log ++ [.opened answer]))
    (hs' : s' ∈ sessions (log ++ [.opened answer])) (heq : s.feed = s'.feed) : s = s' := by
  rcases mem_sessions_opened.mp hs with hs | hs <;>
    rcases mem_sessions_opened.mp hs' with hs' | hs'
  · exact apart hs hs' heq
  · exact ((made hs).ne (heq.trans (hnew hs'))).elim
  · exact ((made hs').ne (heq.symm.trans (hnew hs))).elim
  · exact Except.ok.inj (hs.symm.trans hs')

theorem sessions_closed : sessions (log ++ [.closed s lines ids]) = log.sessions := by
  rw [sessions_concat]
  exact List.append_nil _

theorem sessions_created {answer : Except DiceError Roll} :
    sessions (log ++ [.created answer]) = log.sessions := by
  rw [sessions_concat]
  exact List.append_nil _

end

end Log

/-! What is true between the steps of the users. -/

namespace Moment

variable {m : Moment} {rs : List Roll}

/-- The stream that the rolls have been sent to, and nothing else. -/
def streamOf (m : Moment) (rs : List Roll) : Stream m.Item := ⟨true, rs.map m.item⟩

theorem sendAll_streamOf (rs' : List Roll) :
    m.sendAll rs' (m.streamOf rs) = m.streamOf (rs ++ rs') := by
  induction rs' generalizing rs with
  | nil => rw [List.append_nil, sendAll, List.foldl_nil]
  | cons r rs' ih =>
      have hsend : (m.streamOf rs).send (m.item r) = m.streamOf (rs ++ [r]) := by
        rw [streamOf, streamOf, List.map_append]
        rfl
      rw [sendAll, List.foldl_cons, hsend, ← sendAll, ih, List.append_assoc, List.singleton_append]

end Moment

namespace Log

/-- The streams of every session that is open have been sent the rolls since it was opened, as
they were told to the hub of the session. -/
def Shows (log : Log) (d : Deployment) : Prop :=
  ∀ ⦃before during : Log⦄ ⦃s : Session⦄, log = before ++ .opened (.ok s) :: during →
    during.Spares s → ∃ rs : List Roll,
      rs.map Roll.settled = (during.rolls s.room).map Roll.settled ∧
        ∀ m : Moment, d.feeds[s.feed]?.map (·.stream m) = some (m.streamOf rs)

/-- Every session that has been closed had got the rolls till then. -/
def Kept (log : Log) : Prop :=
  ∀ ⦃before during after : Log⦄ ⦃s : Session⦄ ⦃lines : List Bytes⦄ ⦃ids : List String⦄,
    log = before ++ .opened (.ok s) :: (during ++ .closed s lines ids :: after) →
    during.Spares s → lines = (during.rolls s.room).map (fun r => (Row.ofRoll r).line) ∧
      ids = (during.rolls s.room).map (·.id)

/-- The hubs have the handlers of the sessions that are open, and no others. -/
def Registers (log : Log) (c : Core) : Prop :=
  ∀ ⦃m : Nat⦄ ⦃registry : Registry Handler⦄, c.registryOf? m = some registry →
    ∀ room id f, registry.get? room id = some f ↔
      ∃ s, log.Opens s ∧ s.endpoint.hub = m ∧ s.room = room ∧ s.id = id ∧ f = .feed s.feed

end Log

structure Served (log : Log) (d : Deployment) : Prop where
  calm : d.Calm
  registers : log.Registers d.core
  placed : ∀ {s}, log.Opens s → s.endpoint.hub < d.hubs.length
  made : ∀ {s}, s ∈ log.sessions → s.feed < d.feeds.length
  apart : ∀ {s s'}, s ∈ log.sessions → s' ∈ log.sessions → s.feed = s'.feed → s = s'
  streams : log.Shows d
  kept : log.Kept

section
variable {log : Log} {d d' : Deployment} {x : Deed}

/-- What settled rolls show, the rolls show. -/
theorem Roll.map_eq_of_settled {α : Type} {f : Roll → α} (hf : ∀ r : Roll, f r.settled = f r)
    {rs rs' : List Roll} (h : rs.map Roll.settled = rs'.map Roll.settled) : rs.map f = rs'.map f := by
  have hmap : ∀ rs : List Roll, (rs.map Roll.settled).map f = rs.map f := by
    intro rs
    rw [List.map_map]
    exact List.map_congr_left fun r _ => hf r
  rw [← hmap, h, hmap]

theorem Log.Shows.lines_eq (streams : log.Shows d) {before during : Log} {s : Session}
    (heq : log = before ++ .opened (.ok s) :: during) (hspares : during.Spares s) :
    s.lines d = (during.rolls s.room).map (fun r => (Row.ofRoll r).line) ∧
      s.ids d = (during.rolls s.room).map (·.id) := by
  obtain ⟨rs, hsettled, hstreams⟩ := streams heq hspares
  have hrows : d.feeds[s.feed]?.map (·.rows) = _ := hstreams .beginning
  have hids : d.feeds[s.feed]?.map (·.notifications) = _ := hstreams .ending
  obtain ⟨f, hf, hrows⟩ := Option.map_eq_some_iff.mp hrows
  rw [hf] at hids
  have hids : f.notifications = _ := Option.some.inj hids
  rw [Session.lines, Session.ids, hf]
  simp only [Option.map_some, Option.getD_some, hrows, hids]
  refine ⟨?_, Roll.map_eq_of_settled (fun _ => rfl) hsettled⟩
  rw [← Roll.map_eq_of_settled Roll.line_settled hsettled]
  exact List.map_map ..

theorem Log.Shows.concat (streams : log.Shows d)
    (hnew : ∀ {s}, x = .opened (.ok s) → d'.feeds[s.feed]? = some .fresh)
    (hold : ∀ {s}, log.Opens s → x.closed? ≠ some s → ∃ rs : List Roll,
      rs.map Roll.settled = (x.roll? s.room).toList.map Roll.settled ∧ ∀ m : Moment,
        d'.feeds[s.feed]?.map (·.stream m) = d.feeds[s.feed]?.map fun f =>
          m.sendAll rs (f.stream m)) :
    Log.Shows (log ++ [x]) d' := by
  intro before during s heq hspares
  rcases concat_eq_append_cons.mp heq with ⟨-, hx, rfl⟩ | ⟨rest, rfl, hlog⟩
  · refine ⟨[], rfl, fun m => ?_⟩
    rw [hnew hx]
    cases m <;> rfl
  · obtain ⟨hspares, hx⟩ := Log.spares_concat.mp hspares
    obtain ⟨rs, hsettled, hstreams⟩ := streams hlog hspares
    obtain ⟨rs', hsettled', hsent⟩ := hold ⟨before, rest, hlog, hspares⟩ hx
    refine ⟨rs ++ rs', ?_, fun m => ?_⟩
    · rw [Log.rolls_concat, List.map_append, List.map_append, hsettled, hsettled']
    · obtain ⟨f, hf, hstream⟩ := Option.map_eq_some_iff.mp (hstreams m)
      rw [hsent, hf, Option.map_some, hstream, Moment.sendAll_streamOf]

theorem Log.Kept.concat (kept : log.Kept) (streams : log.Shows d)
    (hx : ∀ {s lines ids}, x = .closed s lines ids → lines = s.lines d ∧ ids = s.ids d) :
    Log.Kept (log ++ [x]) := by
  intro before during after s lines ids heq hspares
  rw [← List.cons_append, ← List.append_assoc] at heq
  rcases concat_eq_append_cons.mp heq with ⟨hlog, hclosed, -⟩ | ⟨rest, -, hlog⟩
  · obtain ⟨rfl, rfl⟩ := hx hclosed
    exact streams.lines_eq hlog hspares
  · rw [List.append_assoc, List.cons_append] at hlog
    exact kept hlog hspares

end

namespace Log.Registers

variable {log : Log} {c : Core} {s : Session}

/-- The session is there if it has been opened, and if its hub is there it has been opened. -/
theorem opened (registers : log.Registers c) {answer : Except HubError Session}
    (hthere : ∀ {registry}, c.registryOf? s.endpoint.hub = some registry → answer = .ok s)
    (hsame : ∀ {s'}, answer = .ok s' → s' = s)
    (fresh : ∀ {s'}, answer = .ok s → log.Opens s' → s'.id ≠ s.id) :
    Log.Registers (log ++ [.opened answer])
      (c.apply (.register s.endpoint.hub s.room s.id (.feed s.feed))) := by
  intro m registry hm room id f
  obtain ⟨old, hold, hget⟩ := get?_register hm
  simp only [hget, opens_opened]
  split
  · next hown =>
      obtain ⟨rfl, rfl, rfl⟩ := hown
      constructor
      · rintro ⟨⟩
        exact ⟨s, .inl (hthere hold), rfl, rfl, rfl, rfl⟩
      · rintro ⟨s', hs' | opens, -, -, hid, rfl⟩
        · rw [hsame hs']
        · exact (fresh (hthere hold) opens hid).elim
  · next hother =>
      rw [registers hold]
      constructor
      · rintro ⟨s', opens, rest⟩
        exact ⟨s', .inr opens, rest⟩
      · rintro ⟨s', hs' | opens, hhub, hroom, hid, hf⟩
        · obtain rfl := hsame hs'
          exact (hother ⟨hhub, hroom, hid⟩).elim
        · exact ⟨s', opens, hhub, hroom, hid, hf⟩

theorem closed (registers : log.Registers c) {lines : List Bytes} {ids : List String}
    (distinct : ∀ {s'}, log.Opens s' → s'.id = s.id → s = s') :
    Log.Registers (log ++ [.closed s lines ids])
      (c.apply (.unregister s.endpoint.hub s.room s.id)) := by
  intro m registry hm room id f
  obtain ⟨old, hold, hget⟩ := get?_unregister hm
  simp only [hget, opens_closed]
  split
  · next hown =>
      refine ⟨nofun, ?_⟩
      rintro ⟨s', ⟨opens, hne⟩, -, -, hid, -⟩
      exact (hne (distinct opens (hid.trans hown.2.2.symm))).elim
  · next hother =>
      rw [registers hold]
      constructor
      · rintro ⟨s', opens, hhub, hroom, hid, hf⟩
        refine ⟨s', ⟨opens, ?_⟩, hhub, hroom, hid, hf⟩
        rintro rfl
        exact hother ⟨hhub, hroom, hid⟩
      · rintro ⟨s', ⟨opens, -⟩, rest⟩
        exact ⟨s', opens, rest⟩

end Log.Registers

/-! The steps of the users. -/

namespace Served

variable {log : Log} {d d' : Deployment}

theorem of_vacant (vacant : Vacant d.core) : Served [] d where
  calm := vacant.calm
  registers := by
    intro m registry hm room id f
    rw [vacant.empty hm]
    constructor
    · intro h
      cases h
    · rintro ⟨s, ⟨before, during, h, -⟩, -⟩
      simp at h
  placed := by
    rintro s ⟨before, during, h, -⟩
    simp at h
  made := nofun
  apart := nofun
  streams _ _ _ h := by simp at h
  kept _ _ _ _ _ _ h := by simp at h

theorem congr (served : Served log d) (hcore : d'.core = d.core) (hfeeds : d'.feeds = d.feeds) :
    Served log d' := by
  have hhubs : d'.hubs = d.hubs := congrArg Core.hubs hcore
  obtain ⟨calm, registers, placed, made, apart, streams, kept⟩ := served
  refine ⟨calm.congr hcore, by rwa [hcore], ?_, ?_, apart, ?_, kept⟩
  · rwa [hhubs]
  · rwa [hfeeds]
  · rw [Log.Shows, hfeeds]
    exact streams

/-- A feed is where its session is, and nowhere else. -/
theorem get?_eq_feed_iff (served : Served log d) {s : Session} (opens : log.Opens s) {n : Nat}
    {registry : Registry Handler} (hn : d.core.registryOf? n = some registry) (room id : String) :
    registry.get? room id = some (.feed s.feed) ↔
      s.endpoint.hub = n ∧ s.room = room ∧ s.id = id := by
  rw [served.registers hn]
  constructor
  · rintro ⟨s', opens', hhub, hroom, hid, hfeed⟩
    obtain rfl := served.apart (Log.mem_sessions_of_opens opens)
      (Log.mem_sessions_of_opens opens') (Handler.feed.inj hfeed)
    exact ⟨hhub, hroom, hid⟩
  · rintro ⟨hhub, hroom, hid⟩
    exact ⟨s, opens, hhub, hroom, hid, rfl⟩

/-- The feed of a session stands once among the handlers of its room, and nowhere else. -/
theorem places (served : Served log d) {s : Session} (opens : log.Opens s) (room : String) :
    d.core.places (.feed s.feed) room = if s.room = room then 1 else 0 := by
  obtain ⟨h, reached⟩ := served.calm.reached
  have hself := fun {n registry} (hn : d.core.registryOf? n = some registry) id =>
    served.get?_eq_feed_iff opens hn room id
  have hothers : ∀ n, n ≠ s.endpoint.hub →
      (d.core.registryOf? n).elim 0 (·.places (.feed s.feed) room) = 0 := by
    intro n hne
    cases hn : d.core.registryOf? n with
    | none => rfl
    | some registry =>
        refine Registry.places_eq_zero (reached.keyed_of_registryOf? hn) fun id hget => ?_
        exact hne ((hself hn id).mp hget).1.symm
  have hhub : s.endpoint.hub < d.core.hubs.length := served.placed opens
  obtain ⟨registry, hregistry⟩ := served.calm.attended.exists_registry hhub
  have hkeyed := reached.keyed_of_registryOf? hregistry
  have hhere : registry.places (.feed s.feed) room = if s.room = room then 1 else 0 := by
    split
    · next hroom =>
        exact Registry.places_eq_one hkeyed ((hself hregistry s.id).mpr ⟨rfl, hroom, rfl⟩)
          fun id hget => ((hself hregistry id).mp hget).2.2.symm
    · next hroom =>
        exact Registry.places_eq_zero hkeyed fun id hget =>
          hroom ((hself hregistry id).mp hget).2.1
  have hsum := sum_range_add (g := fun _ => 0) hothers hhub
  rw [hregistry] at hsum
  simpa [Core.places, hhere] using hsum

theorem created (served : Served log d) {answer : Except DiceError Roll}
    (created : Deployment.Created d answer d')
    (plain : ∀ r, answer = .ok r → Wire.PlainYear r.createdAt) :
    Served (log ++ [.created answer]) d' where
  calm := created.calm
  registers := by
    intro m registry hm room id f
    rw [created.stays.registries] at hm
    simp only [Log.opens_created]
    exact served.registers hm room id f
  placed opens := by
    rw [created.stays.hubs]
    exact served.placed (Log.opens_created.mp opens)
  made hs := by
    rw [created.stays.feeds]
    exact served.made (Log.sessions_created ▸ hs)
  apart hs hs' := served.apart (Log.sessions_created ▸ hs) (Log.sessions_created ▸ hs')
  streams := by
    refine served.streams.concat nofun fun {s} opens _ => ?_
    cases answer with
    | error e =>
        refine ⟨[], rfl, fun m => ?_⟩
        rw [created.failed rfl]
        rfl
    | ok r =>
        obtain ⟨r', hsettled, heard⟩ := created.heard rfl (plain r rfl)
        rw [Deed.roll?]
        by_cases hroom : r.room = s.room
        · refine ⟨[r'], ?_, fun m => ?_⟩
          · rw [if_pos hroom]
            exact congrArg (fun r => [r]) hsettled
          · rw [heard, served.places opens, if_pos hroom.symm]
            rfl
        · refine ⟨[], ?_, fun m => ?_⟩
          · rw [if_neg hroom]
            rfl
          · rw [heard, served.places opens, if_neg (Ne.symm hroom)]
            rfl
  kept := served.kept.concat served.streams nofun

theorem opened (served : Served log d) (e : Endpoint) (id room : String)
    (fresh : ∀ s, (d.openSession e id room).2 = .ok s → ∀ s' ∈ log.sessions, s'.id ≠ s.id) :
    Served (log ++ [.opened (d.openSession e id room).2]) (d.openSession e id room).1 := by
  have happens := d.happens_openSession e id room
  have changes : (d.event (.openSession e id room)).Changes e.hub _ := .register ..
  have hfeeds := d.feeds_openSession e id room
  have hthere : ∀ {registry}, d.core.registryOf? e.hub = some registry →
      (d.openSession e id room).2 = .ok ⟨id, room, e, d.feeds.length⟩ :=
    fun hregistry => Deployment.openSession_answer hregistry id room
  have hnew : ∀ {s}, (d.openSession e id room).2 = .ok s →
      s = ⟨id, room, e, d.feeds.length⟩ ∧ e.hub < d.hubs.length := Deployment.of_openSession
  generalize (d.openSession e id room).1 = d' at happens hfeeds ⊢
  generalize (d.openSession e id room).2 = answer at fresh hthere hnew ⊢
  have hlength : d'.feeds.length = d.feeds.length + 1 := by
    rw [hfeeds, List.length_append, List.length_singleton]
  have registers : Log.Registers (log ++ [.opened answer]) d'.core := by
    rw [happens.core_eq]
    exact served.registers.opened (s := ⟨id, room, e, d.feeds.length⟩) hthere
      (fun hs => (hnew hs).1) fun hs opens => fresh _ hs _ (Log.mem_sessions_of_opens opens)
  have hfeed : ∀ {s}, answer = .ok s → s.feed = d.feeds.length := fun hs => by rw [(hnew hs).1]
  have made : ∀ {s}, s ∈ Log.sessions (log ++ [.opened answer]) → s.feed < d'.feeds.length := by
    intro s hs
    rw [hlength]
    exact Log.feed_lt_opened served.made hfeed hs
  constructor
  · exact served.calm.change changes happens
  · exact registers
  · intro s opens
    rw [show d'.hubs = _ from congrArg Core.hubs happens.core_eq, changes.length_hubs]
    rcases Log.opens_opened.mp opens with hs | opens
    · rw [(hnew hs).1]
      exact (hnew hs).2
    · exact served.placed opens
  · exact made
  · exact Log.eq_of_feed_opened served.made hfeed served.apart
  · refine served.streams.concat (fun hx => ?_) fun {s} opens _ => ⟨[], rfl, fun m => ?_⟩
    · rw [hfeeds, hfeed (Deed.opened.inj hx)]
      exact List.getElem?_concat_length
    · rw [hfeeds, List.getElem?_append_left (served.made (Log.mem_sessions_of_opens opens))]
      rfl
  · exact served.kept.concat served.streams nofun

theorem closed (served : Served log d) {s : Session} (opens : log.Opens s)
    (distinct : ∀ s' ∈ log.sessions, s'.id = s.id → s = s') :
    Served (log ++ [.closed s (s.lines d) (s.ids d)]) (d.closeSession s).1 := by
  have happens := d.happens_closeSession s
  have changes : (d.event (.closeSession s)).Changes s.endpoint.hub _ := .unregister ..
  have hfeeds := d.feeds_closeSession s
  generalize (d.closeSession s).1 = d' at happens hfeeds ⊢
  have hlength : d'.feeds.length = d.feeds.length := by
    rw [hfeeds, List.length_modify]
  have registers : Log.Registers (log ++ [.closed s (s.lines d) (s.ids d)]) d'.core := by
    rw [happens.core_eq]
    exact served.registers.closed fun opens' => distinct _ (Log.mem_sessions_of_opens opens')
  have made : ∀ {s'}, s' ∈ Log.sessions (log ++ [.closed s (s.lines d) (s.ids d)]) →
      s'.feed < d'.feeds.length := by
    intro s' hs'
    rw [hlength]
    exact served.made (Log.sessions_closed ▸ hs')
  constructor
  · exact served.calm.change changes happens
  · exact registers
  · intro s' opens'
    rw [show d'.hubs = _ from congrArg Core.hubs happens.core_eq, changes.length_hubs]
    exact served.placed (Log.opens_closed.mp opens').1
  · exact made
  · intro s₁ s₂ hs₁ hs₂
    exact served.apart (Log.sessions_closed ▸ hs₁) (Log.sessions_closed ▸ hs₂)
  · refine served.streams.concat nofun fun {s'} opens' hx => ⟨[], rfl, fun m => ?_⟩
    have hfeed : s.feed ≠ s'.feed := by
      intro heq
      have hsame := served.apart (Log.mem_sessions_of_opens opens)
        (Log.mem_sessions_of_opens opens') heq
      exact hx (congrArg some hsame)
    rw [hfeeds, List.getElem?_modify]
    simp only [hfeed, if_false, id_map']
    rfl
  · refine served.kept.concat served.streams ?_
    rintro _ _ _ ⟨⟩
    exact ⟨rfl, rfl⟩

end Served

section
variable {log : Log} {d d' : Deployment}

theorem Deployment.Calm.created_of_same (calm : d.Calm) (hcore : d'.core = d.core)
    (hfeeds : d'.feeds = d.feeds) (e : DiceError) : Created d (.error e) d' where
  calm := calm.congr hcore
  stays := .of_core hcore hfeeds
  failed _ := hfeeds
  heard := nofun

theorem Lives.served (lives : Lives log d) (fresh : (log.sessions.map (·.id)).Nodup)
    (plain : ∀ r, Deed.created (.ok r) ∈ log → Wire.PlainYear r.createdAt) : Served log d := by
  induction lives with
  | memory => exact .of_vacant vacant_withMemoryHub
  | brokers hubs => exact .of_vacant hubs.built.vacant
  | service before notifier subscriber ih => exact (ih fresh plain).congr rfl rfl
  | @refused log d d' service ids now q e before request ih =>
      rw [Log.sessions_created] at fresh
      have served := ih fresh fun r hr => plain r (List.mem_append_left _ hr)
      obtain ⟨s, hs⟩ := Deployment.service_of_requestRoll request
      obtain ⟨_, _, request', hcore, hfeeds, -⟩ :=
        Deployment.requestRoll_of_service hs ids now q
      cases request.symm.trans request'
      exact served.created (served.calm.created_of_same hcore hfeeds _) nofun
  | @created log d d₁ d' service n ids now q throw as answer before request run comesOf quiet
      answers ih =>
      rw [Log.sessions_created] at fresh
      have served := ih fresh fun r hr => plain r (List.mem_append_left _ hr)
      obtain ⟨s, hs⟩ := Deployment.service_of_requestRoll request
      obtain ⟨_, _, request', hcore, hfeeds, ⟨serial, hs₁⟩, haccepted⟩ :=
        Deployment.requestRoll_of_service hs ids now q
      cases request.symm.trans request'
      split at haccepted
      · cases haccepted
      · obtain ⟨n, hn, hc⟩ := haccepted
        cases hn
        have served₁ := served.congr hcore hfeeds
        obtain ⟨result, hresult, created, -⟩ := served₁.calm.creation hc hs₁ run comesOf quiet
        obtain rfl := Option.some.inj (answers.symm.trans hresult)
        refine served₁.created created ?_
        rintro r rfl
        exact plain r (List.mem_append_right _ List.mem_cons_self)
  | @opened log d before e id room ih =>
      have hsessions := Log.sessions_concat log (.opened (d.openSession e id room).2)
      rw [hsessions, List.map_append, List.nodup_append] at fresh
      obtain ⟨hold, -, hapart⟩ := fresh
      refine (ih hold fun r hr => plain r (List.mem_append_left _ hr)).opened e id room ?_
      intro s hs s' hs'
      refine hapart _ (List.mem_map_of_mem hs') _ (List.mem_map_of_mem ?_)
      rw [hs]
      exact List.mem_cons_self
  | @closed log d s before opens ih =>
      rw [Log.sessions_closed] at fresh
      refine (ih fresh fun r hr => plain r (List.mem_append_left _ hr)).closed opens ?_
      intro s' hs' hid
      exact List.inj_on_of_nodup_map fresh (Log.mem_sessions_of_opens opens) hs' hid.symm

/-- Viewers have got what they ought to have got, and whatever is asked for is done. -/
structure Reaches (log : Log) (d : Deployment) : Prop where
  live : ∀ ⦃before during : Log⦄ ⦃s : Session⦄, log = before ++ .opened (.ok s) :: during →
    during.Spares s → s.lines d = (during.rolls s.room).map (fun r => (Row.ofRoll r).line) ∧
      s.ids d = (during.rolls s.room).map (·.id)
  kept : log.Kept
  creates : ∀ {service : Nat} {s : Service}, d.services[service]? = some s →
    ∀ (ids : UInt64 → FreshIds) (now : Instant) (q : Request), ∃ d' answer,
      d.requestRoll service ids now q = some (d', answer) ∧
      match (q.accept s.serial ids now).2 with
      | .error e => answer = .error e
      | .ok draft => ∃ n, answer = .ok n ∧ ∀ throw, d'.Fulfils s draft n throw
  opens : ∀ {e : Endpoint}, e.hub < d.hubs.length → ∀ id room : String,
    (d.openSession e id room).2 = .ok ⟨id, room, e, d.feeds.length⟩
  closes : ∀ {s : Session}, log.Opens s → (d.closeSession s).2 = .ok ()

/-- Whatever users do, every session gets the line and the id of every roll for its room that is
created while it is open, once and in the order of creation, and gets nothing else. Rolls may have
any ids, and any dice, since totals are not bounded here. -/
theorem rolls_reach_viewers (lives : Lives log d) (fresh : (log.sessions.map (·.id)).Nodup)
    (plain : ∀ r, Deed.created (.ok r) ∈ log → Wire.PlainYear r.createdAt) : Reaches log d := by
  have served := lives.served fresh plain
  refine ⟨fun _ _ _ => served.streams.lines_eq, served.kept, ?_, ?_, ?_⟩
  · intro service s hs ids now q
    obtain ⟨d', answer, request, hcore, hfeeds, ⟨serial, hs'⟩, haccepted⟩ :=
      Deployment.requestRoll_of_service hs ids now q
    refine ⟨d', answer, request, ?_⟩
    cases haccept : (q.accept s.serial ids now).2 with
    | error e =>
        rw [haccept] at haccepted
        exact haccepted
    | ok draft =>
        rw [haccept] at haccepted
        obtain ⟨n, hn, hc⟩ := haccepted
        have calm := (served.congr hcore hfeeds).calm
        refine ⟨n, hn, fun throw => ⟨calm.bounded hc hs', fun run comesOf quiet => ?_⟩⟩
        obtain ⟨result, hresult, -, hthere⟩ := calm.creation hc hs' run comesOf quiet
        exact ⟨result, hresult, hthere⟩
  · intro e hhub id room
    obtain ⟨registry, hregistry⟩ := served.calm.attended.exists_registry (c := d.core) hhub
    exact Deployment.openSession_answer hregistry id room
  · intro s opens
    obtain ⟨registry, hregistry⟩ :=
      served.calm.attended.exists_registry (c := d.core) (served.placed opens)
    exact Deployment.closeSession_answer hregistry

def replica : HubConfig := ⟨some .direct, some ⟨0, []⟩, "rolls", 1⟩

/-- Two hubs on one topic, and a service that tells its rolls to the first. -/
def replicas : Deployment :=
  (((Deployment.empty.newToken.1.buildHub replica).1.buildHub replica).1.addService ⟨0, []⟩
    ⟨0, []⟩).1

theorem lives_replicas : Lives [] replicas := by
  have first : OnTopic "rolls" (Deployment.empty.newToken.1.buildHub replica).1 :=
    .build (c := replica) (n := 0) (.token .empty) rfl rfl rfl
  exact .service (.brokers (.build (c := replica) (n := 1) first rfl rfl rfl)) _ _

/-- A session on the second hub gets a roll that the first is notified of. -/
theorem rolls_reach_viewers_across_hubs : ∃ d s r,
    Lives [.opened (.ok s), .created (.ok r)] d ∧ s.endpoint.hub = 1 ∧ s.room = r.room ∧
      Wire.PlainYear r.createdAt ∧ Reaches [.opened (.ok s), .created (.ok r)] d ∧
      s.lines d = [(Row.ofRoll r).line] ∧ s.ids d = [r.id] := by
  let s : Session := ⟨"v", "r", ⟨1, []⟩, 0⟩
  obtain ⟨d, answer, hopen⟩ : ∃ d answer, replicas.openSession ⟨1, []⟩ "v" "r" = (d, answer) :=
    ⟨_, _, rfl⟩
  have opened : Lives [.opened (.ok s)] d := by
    have hanswer := (rolls_reach_viewers lives_replicas .nil nofun).opens
      (e := ⟨1, []⟩) (by decide) "v" "r"
    have lives := Lives.opened lives_replicas ⟨1, []⟩ "v" "r"
    rw [hanswer, hopen] at lives
    exact lives
  have hservice : d.services[0]? = some ⟨0, ⟨0, []⟩, ⟨0, []⟩⟩ := by
    rw [show d = _ from (congrArg Prod.fst hopen).symm]
    rfl
  have hhubs : d.hubs.length = 2 := by
    rw [show d = _ from (congrArg Prod.fst hopen).symm]
    rfl
  have fresh : ((Log.sessions [.opened (.ok s)]).map (·.id)).Nodup := List.nodup_singleton _
  have plain : ∀ r, Deed.created (.ok r) ∈ ([.opened (.ok s)] : Log) →
      Wire.PlainYear r.createdAt := by
    intro r hr
    cases hr with
    | tail _ hr => cases hr
  -- The request is accepted, and what comes of it has an end.
  let q : Request := ⟨"r", "u", [.d6]⟩
  let draft : Roll := q.draft 1 ⟨"a", fun _ => "b"⟩ .epoch
  obtain ⟨d₁, answer, request, haccepted⟩ := (rolls_reach_viewers opened fresh plain).creates
    hservice (fun _ => ⟨"a", fun _ => "b"⟩) .epoch q
  have haccept : (q.accept 0 (fun _ => ⟨"a", fun _ => "b"⟩) .epoch).2 = .ok draft := by rfl
  rw [haccept] at haccepted
  obtain ⟨n, rfl, fulfils⟩ := haccepted
  obtain ⟨most, bounded⟩ := (fulfils .ok).bounded
  obtain ⟨as, d', run, comesOf, quiet⟩ := Deployment.exists_quiet_of_bounded bounded
  obtain ⟨result, hresult, hthere⟩ := (fulfils .ok).answers run comesOf quiet
  have hhubs₁ : d₁.hubs = d.hubs := congrArg Core.hubs (Deployment.core_requestRoll request)
  obtain rfl : result = .ok draft := hthere (by rw [hhubs₁, hhubs]; decide)
  have created : Lives [.opened (.ok s), .created (.ok draft)] d' :=
    .created opened request run comesOf quiet hresult
  have reaches := rolls_reach_viewers created (List.nodup_singleton _) fun r hr => by
    obtain rfl : r = draft := by simpa using hr
    decide
  have hspares : Log.Spares [.created (.ok draft)] s := by simp [Log.Spares, Deed.closed?]
  obtain ⟨hlines, hids⟩ := reaches.live (List.nil_append _).symm hspares
  exact ⟨d', s, draft, created, rfl, rfl, by decide, reaches, hlines, hids⟩

end

end DiceRooms
