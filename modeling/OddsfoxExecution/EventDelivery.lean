import OddsfoxExecution.Api.EventStream
import OddsfoxExecution.EventRetention

/-!
# What a client of the event stream receives

A client that comes back with the number of the last event it received has been
sent every event above its first cursor, in order, or was told to start over.
This rests on three things the store and the handler do not always do: the
events of a transaction are broadcast in the order of their numbers, the
journal still has what follows the cursor when it is read, and its bounds were
read after the channel was joined.
-/

namespace OddsfoxExecution

open NumberedLog

/-! ## What a transaction does to the journal -/

/-- A transaction appends events, which it broadcasts in their order if it is `ordered`, or it
drops the oldest ones. -/
inductive Committed.Journals {α : Type} (ordered : Prop) (r : Committed α) (db : Db) : Prop
  | appends (later : List ExecutionEvent) (happends : db.Appends later r.db)
      (hbroadcast : ∀ e ∈ r.broadcast, e ∈ later) (hordered : ordered → r.broadcast = later)
  | prunes (cutoff : Nat) (hlt : cutoff < db.lastSequence)
      (hevents : r.db.executionEvents = above ExecutionEvent.sequence cutoff db.executionEvents)
      (hnext : r.db.nextSequence = db.nextSequence) (hsilent : r.broadcast = [])

theorem Committed.OnlyAnnounces.journals {α : Type} {ordered : Prop} {r : Committed α} {db : Db}
    (h : r.OnlyAnnounces db) : r.Journals ordered db :=
  .appends r.broadcast h.appends (fun _ he => he) fun _ => rfl

theorem pruneEvents_journals {config : StoreConfig} {ordered : Prop} {db : Db}
    {r : Committed Nat} (hpositive : 0 < config.eventRetention)
    (h : pruneEvents config db = .ok r) : r.Journals ordered db := by
  unfold pruneEvents at h
  dsimp only at h
  split at h
  · cases h
    exact .appends [] (.silent rfl rfl) (fun _ he => he) fun _ => rfl
  · split at h
    · cases h
      exact .appends [] (.silent rfl rfl) (fun _ he => he) fun _ => rfl
    · cases h
      exact .prunes (db.lastSequence - config.eventRetention) (by omega) rfl rfl rfl

theorem StoreCall.run_journals {config : StoreConfig} {now : Time} {db : Db} {call : StoreCall}
    {r : Committed call.Value} (hpositive : 0 < config.eventRetention)
    (h : call.run config now db = .ok r) :
    r.Journals (call.tradesLast db = false) db := by
  by_cases hprune : call = .pruneEvents
  · subst hprune
    exact pruneEvents_journals hpositive h
  · by_cases hsettles : call.SettlesUnknown db
    · cases call with
      | transitionOrder =>
        exact .appends r.broadcast (transitionOrder_appends h) (fun _ he => he) fun _ => rfl
      | _ => exact hsettles.elim
    · obtain ⟨first, fill, hbroadcast, htrail, hfill⟩ := StoreCall.run_trail h hprune hsettles
      refine .appends (fill ++ first) htrail.toAppends (fun e he => ?_) fun hordered => ?_
      · rw [hbroadcast] at he
        exact List.mem_append.mpr (List.mem_append.mp he).symm
      · rw [hbroadcast, hfill hordered, List.append_nil, List.nil_append]

/-! ## The condition -/

/-- The journal has what follows the cursor, if it was committed. -/
def Db.keepsAfter (db : Db) (after : Nat) : Bool :=
  decide (db.nextSequence ≤ after + 1) ||
    db.executionEvents.any fun e => decide (e.sequence ≤ after + 1)

/-- While the client is connected and the bounds are read, no transaction broadcasts a trade after
events with greater numbers; and when the journal is read for a cursor that its bounds have not put
outside the retention, it still has what follows the cursor. -/
def FeedAction.safe (s : Feed) : FeedAction → Bool
  | .call operation _ => !(s.connection.reading && operation.tradesLast s.db)
  | .readJournal =>
    match s.connection with
    | .bounded _ after minimum maximum =>
      eventCursorOutsideRetention after minimum maximum || s.db.keepsAfter after
    | _ => true
  | _ => true

/-! ## The journal of a feed -/

/-- The journal is a last part of all that was committed, and has something while there is
something. -/
structure Journaled (db : Db) (committed : List ExecutionEvent) : Prop where
  numbered : committed.map ExecutionEvent.sequence = List.range' 1 committed.length
  next : db.nextSequence = committed.length + 1
  kept : db.executionEvents <:+ committed
  nonempty : committed ≠ [] → db.executionEvents ≠ []

namespace Journaled

variable {db : Db} {committed : List ExecutionEvent}

theorem increasing (h : Journaled db committed) : Increasing ExecutionEvent.sequence committed :=
  increasing_of_range' h.numbered

theorem sequence_le (h : Journaled db committed) {e : ExecutionEvent} (he : e ∈ committed) :
    e.sequence ≤ committed.length := by
  have hmem := List.mem_map_of_mem (f := ExecutionEvent.sequence) he
  rw [h.numbered, List.mem_range'_1] at hmem
  omega

theorem consecutive (h : Journaled db committed) :
    Consecutive ExecutionEvent.sequence db.executionEvents db.nextSequence := by
  obtain ⟨dropped, hdropped⟩ := h.kept
  have hnumbered := h.numbered
  rw [← hdropped, List.map_append, List.length_append, ← List.range'_append_1] at hnumbered
  obtain ⟨-, hkept⟩ := List.append_inj hnumbered (by simp)
  refine ⟨1 + dropped.length, hkept, ?_⟩
  rw [h.next, ← hdropped, List.length_append]
  omega

theorem maximum (h : Journaled db committed) :
    db.eventSequenceBounds.2.getD 0 = committed.length := by
  rcases eq_or_ne db.executionEvents [] with hnone | hsome
  · have hempty : committed = [] := by
      by_contra hcommitted
      exact h.nonempty hcommitted hnone
    simp [Db.eventSequenceBounds, hnone, hempty]
  · rw [Db.eventSequenceBounds, h.consecutive.max?_eq hsome, h.next]
    rfl

/-- Above a cursor whose next event is kept, the journal has all that was committed. -/
theorem above_kept (h : Journaled db committed) {after : Nat}
    (hkeeps : db.keepsAfter after = true) :
    above ExecutionEvent.sequence after db.executionEvents =
      above ExecutionEvent.sequence after committed := by
  obtain ⟨dropped, hdropped⟩ := h.kept
  have hnone : above ExecutionEvent.sequence after dropped = [] := by
    refine above_eq_nil fun e he => ?_
    have hcommitted : e ∈ committed := hdropped ▸ List.mem_append_left _ he
    rcases Bool.or_eq_true_iff.mp hkeeps with hnew | hkept
    · have hnew := of_decide_eq_true hnew
      have hle := h.sequence_le hcommitted
      rw [h.next] at hnew
      omega
    · obtain ⟨next, hnext, hle⟩ := List.any_eq_true.mp hkept
      have hle := of_decide_eq_true hle
      have hincreasing := h.increasing
      rw [← hdropped] at hincreasing
      have hlt := (increasing_append.mp hincreasing).2.2 e he next hnext
      omega
  rw [← hdropped, above_append, hnone, List.nil_append]

end Journaled

/-- What a transaction commits, and that the journal stays as it should. -/
theorem Feed.transact_journaled {s : Feed} (h : Journaled s.db s.committed) {α : Type}
    {ordered : Prop} {r : Committed α} (hjournals : r.Journals ordered s.db) :
    ∃ later, (s.transact (.ok r)).committed = s.committed ++ later ∧
      Journaled r.db (s.committed ++ later) ∧ (∀ e ∈ r.broadcast, e ∈ later) ∧
      (ordered → r.broadcast = later) ∧ ∀ e ∈ later, s.committed.length < e.sequence := by
  have hold : ∀ e ∈ s.db.executionEvents, ¬ s.db.nextSequence ≤ e.sequence := by
    intro e he
    have hle := h.sequence_le (h.kept.subset he)
    rw [h.next]
    omega
  cases hjournals with
  | appends later happends hbroadcast hordered =>
    have hnew : ∀ e ∈ later, s.db.nextSequence ≤ e.sequence := by
      intro e he
      have hmem := List.mem_map_of_mem (f := ExecutionEvent.sequence) he
      rw [happends.numbered, List.mem_range'_1] at hmem
      exact hmem.1
    have hcommitted : (s.transact (.ok r)).committed = s.committed ++ later := by
      simp only [Feed.transact, happends.events, List.filter_append]
      rw [List.filter_eq_nil_iff.mpr (by simpa using hold),
        List.filter_eq_self.mpr (by simpa using hnew), List.nil_append]
    refine ⟨later, hcommitted, ⟨?_, ?_, ?_, ?_⟩, hbroadcast, hordered, fun e he => ?_⟩
    · rw [List.map_append, h.numbered, happends.numbered, h.next, List.length_append,
        Nat.add_comm s.committed.length 1, List.range'_append_1]
    · rw [List.length_append, happends.next, h.next]
      omega
    · obtain ⟨dropped, hdropped⟩ := h.kept
      refine ⟨dropped, ?_⟩
      rw [← hdropped, List.append_assoc, happends.events]
    · intro hsome hnone
      rw [happends.events] at hnone
      obtain ⟨hkept, rfl⟩ := List.append_eq_nil_iff.mp hnone
      exact h.nonempty (by simpa using hsome) hkept
    · have hle := hnew e he
      rw [h.next] at hle
      omega
  | prunes cutoff hlt hevents hnext hsilent =>
    have hcommitted : (s.transact (.ok r)).committed = s.committed ++ [] := by
      simp only [Feed.transact, hevents]
      rw [List.filter_eq_nil_iff.mpr]
      intro e he
      simpa using hold e (mem_above.mp he).1
    refine ⟨[], hcommitted, ?_, by simp [hsilent], fun _ => hsilent, by simp⟩
    rw [List.append_nil]
    refine ⟨h.numbered, hnext.trans h.next, ?_, fun _ => ?_⟩
    · obtain ⟨first, hnumbered, -⟩ := h.consecutive
      rw [hevents, above, filter_eq_drop hnumbered]
      exact (List.drop_suffix _ _).trans h.kept
    · rw [hevents]
      cases hlast : (s.db.executionEvents.map ExecutionEvent.sequence).max? with
      | none =>
        rw [Db.lastSequence, hlast, Option.getD_none] at hlt
        omega
      | some last =>
        rw [Db.lastSequence, hlast, Option.getD_some] at hlt
        obtain ⟨e, he, rfl⟩ := List.mem_map.mp (List.max?_mem hlast)
        exact List.ne_nil_of_mem (mem_above.mpr ⟨he, hlt⟩)

/-! ## What a connection carries -/

def Connection.frames : Connection → List Frame
  | streaming _ _ frames => frames
  | _ => []

@[simp] theorem frameEvents_nil : frameEvents [] = [] := rfl

@[simp] theorem frameEvents_append (frames frames' : List Frame) :
    frameEvents (frames ++ frames') = frameEvents frames ++ frameEvents frames' :=
  List.filterMap_append ..

@[simp] theorem frameEvents_event (e : ExecutionEvent) (frames : List Frame) :
    frameEvents (.event e :: frames) = e :: frameEvents frames := rfl

@[simp] theorem frameEvents_reset (reason : String) (frames : List Frame) :
    frameEvents (.reset reason :: frames) = frameEvents frames := rfl

@[simp] theorem frameEvents_map_event (events : List ExecutionEvent) :
    frameEvents (events.map Frame.event) = events := by
  induction events with
  | nil => rfl
  | cons e events ih => rw [List.map_cons, frameEvents_event, ih]

/-! ## What a stream opens with -/

/-- A stream opens with a reset alone, or with what the journal has above the cursor, up to the
greatest number the bounds gave. -/
theorem Db.openStream_cases (db : Db) (after : Nat) (minimum maximum : Option Nat) :
    (∃ reason, db.openStream after minimum maximum = ([.reset reason], maximum.getD after)) ∨
      eventCursorOutsideRetention after minimum maximum = false ∧
        (maximum.all fun maximum => decide (maximum ≤
          position ExecutionEvent.sequence after (db.replayEvents after 10000))) = true ∧
        db.openStream after minimum maximum =
          ((db.replayEvents after 10000).map Frame.event,
            position ExecutionEvent.sequence after (db.replayEvents after 10000)) := by
  cases houtside : eventCursorOutsideRetention after minimum maximum with
  | true =>
    refine Or.inl ⟨"cursor_outside_retention", ?_⟩
    simp [openStream, houtside, eventReplayTruncated]
  | false =>
    cases htruncated : eventReplayTruncated false maximum
        (position ExecutionEvent.sequence after (db.replayEvents after 10000)) with
    | true =>
      refine Or.inl ⟨"replay_limit_exceeded", ?_⟩
      simp [openStream, houtside, htruncated]
    | false =>
      refine Or.inr ⟨rfl, ?_, ?_⟩
      · cases maximum with
        | none => rfl
        | some maximum => simpa [eventReplayTruncated] using htruncated
      · simp [openStream, houtside, htruncated]

theorem Db.openStream_mem (db : Db) {after : Nat} {minimum maximum : Option Nat}
    {e : ExecutionEvent} (he : e ∈ frameEvents (db.openStream after minimum maximum).1) :
    e ∈ db.executionEvents := by
  rcases db.openStream_cases after minimum maximum with ⟨reason, hopen⟩ | ⟨-, -, hopen⟩
  · rw [hopen] at he
    cases he
  · rw [hopen, frameEvents_map_event] at he
    exact (mem_above.mp (List.mem_of_mem_take he)).1

/-- A cursor inside the retention is not above the greatest number. -/
theorem eventCursor_le {after : Nat} {minimum maximum : Option Nat}
    (hinside : eventCursorOutsideRetention after minimum maximum = false) :
    after ≤ maximum.getD 0 := by
  rcases Nat.eq_zero_or_pos after with rfl | hpositive
  · exact Nat.zero_le _
  · rw [eventCursorOutsideRetention, decide_eq_true hpositive, Bool.true_and,
      Bool.or_eq_false_iff] at hinside
    cases maximum with
    | none => cases hinside.2
    | some maximum => simpa using hinside.2

/-! ## The receiver -/

/-- A message either joins the unread ones or takes the place of the oldest. -/
theorem Receiver.push_unread (r : Receiver) (e : ExecutionEvent) :
    (r.push e).unread.Sublist (r.unread ++ [e]) ∧
      ((r.push e).lagged = false → r.lagged = false ∧ (r.push e).unread = r.unread ++ [e]) := by
  unfold push
  split
  · exact ⟨.refl _, fun hlagged => ⟨hlagged, rfl⟩⟩
  · exact ⟨(List.tail_sublist _).append (.refl _), fun hlagged => by cases hlagged⟩

theorem Connection.push_unread (c : Connection) (e : ExecutionEvent) :
    (c.push e).unread.Sublist (c.unread ++ [e]) ∧
      (c ≠ .closed → (c.push e).lagged = false →
        c.lagged = false ∧ (c.push e).unread = c.unread ++ [e]) := by
  cases c with
  | closed => exact ⟨List.nil_sublist _, fun h => absurd rfl h⟩
  | subscribed receiver | bounded receiver | streaming receiver =>
    exact ⟨(receiver.push_unread e).1, fun _ => (receiver.push_unread e).2⟩

namespace Feed

/-- What is on its way to the client's handler. -/
def wire (s : Feed) : List ExecutionEvent := s.connection.unread ++ s.unsent

/-- Every event that is on its way or was sent over this connection. -/
def inFlight (s : Feed) : List ExecutionEvent :=
  frameEvents (s.session ++ s.connection.frames) ++ s.wire

/-- Above the number, the wire carries in order all that was committed, unless the receiver has
lost some of it. -/
structure Relays (s : Feed) (n : Nat) : Prop where
  increasing : Increasing ExecutionEvent.sequence (above ExecutionEvent.sequence n s.wire)
  complete : s.connection.lagged = false →
    above ExecutionEvent.sequence n s.wire = above ExecutionEvent.sequence n s.committed

/-- What the client has and what it is still sent make up all that was committed above its first
cursor. -/
structure Completes (s : Feed) (liveWatermark : Nat) (frames : List Frame) : Prop where
  first_le : s.first ≤ liveWatermark
  le_committed : liveWatermark ≤ s.committed.length
  begun : frameEvents (s.received ++ frames) <+:
    above ExecutionEvent.sequence s.first s.committed
  complete : s.connection.lagged = false →
    frameEvents (s.received ++ frames) ++ above ExecutionEvent.sequence liveWatermark s.wire =
      above ExecutionEvent.sequence s.first s.committed

/-- A stream is in order, and complete unless the client is told to start over. -/
structure Streams (s : Feed) (liveWatermark : Nat) (frames : List Frame) : Prop where
  increasing : Increasing ExecutionEvent.sequence
    (frameEvents (s.session ++ frames) ++ above ExecutionEvent.sequence liveWatermark s.wire)
  reaches : s.wasReset = true ∨ (∃ reason, frames = [.reset reason]) ∨
    s.Completes liveWatermark frames

/-- What holds of the connection, by how far it has come. -/
def Connected (s : Feed) : Prop :=
  match s.connection with
  | .closed => True
  | .subscribed _ after => s.session = [] ∧ after = s.cursor
  | .bounded _ after _ maximum =>
    s.session = [] ∧ after = s.cursor ∧ maximum.getD 0 ≤ s.committed.length ∧
      s.Relays (maximum.getD 0)
  | .streaming _ liveWatermark frames => s.Streams liveWatermark frames

structure Sound (s : Feed) : Prop where
  journaled : Journaled s.db s.committed
  known : ∀ e ∈ s.inFlight, e ∈ s.committed
  ordered : Increasing ExecutionEvent.sequence (frameEvents s.session)
  begun : s.wasReset = true ∨
    frameEvents s.received <+: above ExecutionEvent.sequence s.first s.committed
  connected : s.Connected

theorem initial_sound (lastEventId : Option Nat) : (Feed.initial lastEventId).Sound where
  journaled := ⟨rfl, rfl, List.suffix_rfl, fun h => absurd rfl h⟩
  known := fun e he => by cases he
  ordered := List.Pairwise.nil
  begun := Or.inr (List.nil_prefix)
  connected := trivial

namespace Sound

variable {s : Feed}

theorem wire_known (h : s.Sound) {e : ExecutionEvent} (he : e ∈ s.wire) : e ∈ s.committed :=
  h.known e (List.mem_append_right _ he)

/-! ### The store -/

section Transact

variable {α : Type} {ordered : Prop} {r : Committed α} {later : List ExecutionEvent}

/-- A transaction that broadcasts in order adds the same events to the wire and to what was
committed. -/
theorem relays_transact (h : s.Sound) {n : Nat} (hrelays : s.Relays n) (hunsent : s.unsent = [])
    (hcommitted : (s.transact (.ok r)).committed = s.committed ++ later)
    (hbroadcast : r.broadcast = later) (hincreasing : Increasing ExecutionEvent.sequence later)
    (hnew : ∀ e ∈ later, s.committed.length < e.sequence) :
    (s.transact (.ok r)).Relays n := by
  have hwire : (s.transact (.ok r)).wire = s.wire ++ later := by
    simp only [wire, transact, hunsent, hbroadcast, List.append_nil]
  constructor
  · rw [hwire, above_append]
    refine increasing_append.mpr ⟨hrelays.increasing, hincreasing.sublist above_sublist, ?_⟩
    intro e he e' he'
    have hle := h.journaled.sequence_le (h.wire_known (mem_above.mp he).1)
    have hlt := hnew e' (mem_above.mp he').1
    omega
  · intro hlagged
    rw [hwire, hcommitted, above_append, above_append, hrelays.complete hlagged]

theorem streams_transact (h : s.Sound) {w : Nat} {frames : List Frame}
    (hstreams : s.Streams w frames) (hframes : s.connection.frames = frames)
    (hunsent : s.unsent = [])
    (hcommitted : (s.transact (.ok r)).committed = s.committed ++ later)
    (hbroadcast : r.broadcast = later) (hincreasing : Increasing ExecutionEvent.sequence later)
    (hnew : ∀ e ∈ later, s.committed.length < e.sequence) :
    (s.transact (.ok r)).Streams w frames := by
  have hwire : (s.transact (.ok r)).wire = s.wire ++ later := by
    simp only [wire, transact, hunsent, hbroadcast, List.append_nil]
  constructor
  · rw [hwire, above_append, ← List.append_assoc]
    refine increasing_append.mpr ⟨hstreams.increasing, hincreasing.sublist above_sublist, ?_⟩
    intro e he e' he'
    have hcommitted : e ∈ s.committed := by
      refine h.known e ?_
      rw [inFlight, hframes]
      rcases List.mem_append.mp he with hsent | hwired
      · exact List.mem_append_left _ hsent
      · exact List.mem_append_right _ (mem_above.mp hwired).1
    have hle := h.journaled.sequence_le hcommitted
    have hlt := hnew e' (mem_above.mp he').1
    omega
  · rcases hstreams.reaches with hreset | hreset | hcompletes
    · exact Or.inl hreset
    · exact Or.inr (Or.inl hreset)
    · have hfirst := hcompletes.first_le
      have hle := hcompletes.le_committed
      have hall : ∀ n, n ≤ s.committed.length →
          above ExecutionEvent.sequence n later = later := fun n hn =>
        above_eq_self fun e he => hn.trans_lt (hnew e he)
      have hcommitted' : above ExecutionEvent.sequence s.first (s.transact (.ok r)).committed =
          above ExecutionEvent.sequence s.first s.committed ++ later := by
        rw [hcommitted, above_append, hall _ (hfirst.trans hle)]
      refine Or.inr (Or.inr ⟨hfirst, ?_, ?_, fun hlagged => ?_⟩)
      · rw [hcommitted, List.length_append]
        omega
      · refine hcompletes.begun.trans ?_
        change _ <+: above ExecutionEvent.sequence s.first (s.transact (.ok r)).committed
        rw [hcommitted']
        exact List.prefix_append _ _
      · change _ = above ExecutionEvent.sequence s.first (s.transact (.ok r)).committed
        rw [hcommitted', hwire, above_append, hall _ hle, ← List.append_assoc]
        exact congrArg (· ++ later) (hcompletes.complete hlagged)

/-- A transaction keeps a feed sound if it broadcasts in order while the client reads. -/
theorem transact (h : s.Sound) (hjournals : r.Journals ordered s.db) (hunsent : s.unsent = [])
    (hordered : s.connection.reading = true → ordered) : (s.transact (.ok r)).Sound := by
  obtain ⟨later, hcommitted, hjournaled, hbroadcast, hinOrder, hnew⟩ :=
    transact_journaled h.journaled hjournals
  have hincreasing : Increasing ExecutionEvent.sequence later := by
    exact (increasing_append.mp hjournaled.increasing).2.1
  refine ⟨by rw [hcommitted]; exact hjournaled, fun e he => ?_, h.ordered, ?_, ?_⟩
  · rw [hcommitted]
    rcases List.mem_append.mp he with hsent | hwired
    · exact List.mem_append_left _ (h.known e (List.mem_append_left _ hsent))
    · rcases List.mem_append.mp hwired with hunread | hnow
      · exact List.mem_append_left _ (h.wire_known (List.mem_append_left _ hunread))
      · exact List.mem_append_right _ (hbroadcast e hnow)
  · refine h.begun.imp_right fun hprefix => hprefix.trans ?_
    change _ <+: above ExecutionEvent.sequence s.first (s.transact (.ok r)).committed
    rw [hcommitted, above_append]
    exact List.prefix_append _ _
  · have hconnected := h.connected
    have hconnection : (s.transact (.ok r)).connection = s.connection := rfl
    unfold Connected at hconnected ⊢
    rw [hconnection]
    cases hphase : s.connection with
    | closed => trivial
    | subscribed receiver after =>
      rw [hphase] at hconnected
      exact hconnected
    | bounded receiver after minimum maximum =>
      rw [hphase] at hconnected
      obtain ⟨hsession, hafter, hle, hrelays⟩ := hconnected
      have hlater := hinOrder (hordered (by rw [hphase]; rfl))
      refine ⟨hsession, hafter, ?_,
        h.relays_transact hrelays hunsent hcommitted hlater hincreasing hnew⟩
      rw [hcommitted, List.length_append]
      omega
    | streaming receiver w frames =>
      rw [hphase] at hconnected
      have hlater := hinOrder (hordered (by rw [hphase]; rfl))
      exact h.streams_transact hconnected (by rw [hphase]; rfl) hunsent hcommitted hlater
        hincreasing hnew

end Transact

/-- A broadcast moves the first message of the transaction to the receiver. -/
theorem send (h : s.Sound) {e : ExecutionEvent} {rest : List ExecutionEvent}
    (hunsent : s.unsent = e :: rest) :
    Sound { s with unsent := rest, connection := s.connection.push e } := by
  obtain ⟨hpushed, hkept⟩ := s.connection.push_unread e
  have hframes : (s.connection.push e).frames = s.connection.frames := by
    cases s.connection <;> rfl
  have hsub : ((s.connection.push e).unread ++ rest).Sublist s.wire := by
    rw [wire, hunsent, ← List.singleton_append (x := e), ← List.append_assoc]
    exact hpushed.append (.refl rest)
  have hwire : s.connection ≠ .closed → (s.connection.push e).lagged = false →
      s.connection.lagged = false ∧ (s.connection.push e).unread ++ rest = s.wire := by
    intro hopen hlagged
    obtain ⟨hbefore, hunread⟩ := hkept hopen hlagged
    refine ⟨hbefore, ?_⟩
    rw [wire, hunread, hunsent, List.append_assoc, List.singleton_append]
  have hrelays : s.connection ≠ .closed → ∀ n, s.Relays n →
      Relays { s with unsent := rest, connection := s.connection.push e } n := by
    intro hopen n hrelays
    refine ⟨hrelays.increasing.sublist (hsub.filter _), fun hlagged => ?_⟩
    obtain ⟨hbefore, heq⟩ := hwire hopen hlagged
    exact (congrArg _ heq).trans (hrelays.complete hbefore)
  refine ⟨h.journaled, fun e' he' => ?_, h.ordered, h.begun, ?_⟩
  · rcases List.mem_append.mp he' with hsent | hwired
    · rw [hframes] at hsent
      exact h.known e' (List.mem_append_left _ hsent)
    · exact h.wire_known (hsub.subset hwired)
  · have hconnected := h.connected
    unfold Connected at hconnected ⊢
    cases hphase : s.connection with
    | closed => trivial
    | subscribed receiver after =>
      rw [hphase] at hconnected
      exact hconnected
    | bounded receiver after minimum maximum =>
      rw [hphase] at hconnected
      obtain ⟨hsession, hafter, hle, hrelayed⟩ := hconnected
      have hopen : s.connection ≠ .closed := by simp [hphase]
      have hrelays := hrelays hopen _ hrelayed
      rw [hphase] at hrelays
      exact ⟨hsession, hafter, hle, hrelays⟩
    | streaming receiver w frames =>
      rw [hphase] at hconnected hsub
      have hopen : s.connection ≠ .closed := by simp [hphase]
      refine ⟨hconnected.increasing.sublist ((List.Sublist.refl _).append (hsub.filter _)), ?_⟩
      refine hconnected.reaches.imp_right fun hreaches => hreaches.imp_right fun hcompletes => ?_
      refine ⟨hcompletes.first_le, hcompletes.le_committed, hcompletes.begun, fun hlagged => ?_⟩
      rw [hphase] at hwire
      obtain ⟨hbefore, heq⟩ := hwire (by simp) hlagged
      rw [← hphase] at hbefore
      refine Eq.trans ?_ (hcompletes.complete hbefore)
      exact congrArg (fun wire => frameEvents (s.received ++ frames) ++ above _ w wire) heq

/-! ### The handler -/

theorem connect (h : s.Sound) :
    Sound { s with
      past := s.received, session := [], connection := .subscribed .new s.cursor } := by
  have hreceived : s.received ++ [] = s.received := List.append_nil _
  refine ⟨h.journaled, fun e he => ?_, List.Pairwise.nil, ?_, rfl, ?_⟩
  · exact h.wire_known (List.mem_append_right _ he)
  · simpa only [wasReset, received, first, List.append_nil] using h.begun
  · simp only [cursor, received, List.append_nil]
    rfl

/-- The bounds are read: all that is on the wire was committed before. -/
theorem readBounds (h : s.Sound) {receiver : Receiver} {after : Nat}
    (hphase : s.connection = .subscribed receiver after) :
    Sound { s with
      connection := .bounded receiver after s.db.eventSequenceBounds.1
        s.db.eventSequenceBounds.2 } := by
  have hconnected := h.connected
  unfold Connected at hconnected
  rw [hphase] at hconnected
  obtain ⟨hsession, hafter⟩ := hconnected
  have hmaximum := h.journaled.maximum
  have hwire : ∀ e ∈ receiver.unread ++ s.unsent, e ∈ s.committed := by
    intro e he
    refine h.wire_known ?_
    rwa [wire, hphase]
  refine ⟨h.journaled, fun e he => ?_, h.ordered, h.begun, hsession, hafter, hmaximum.le, ?_⟩
  · refine h.known e ?_
    rwa [inFlight, wire, hphase]
  · have hnone : above ExecutionEvent.sequence (s.db.eventSequenceBounds.2.getD 0)
        (receiver.unread ++ s.unsent) = [] := by
      rw [hmaximum]
      exact above_eq_nil fun e he => h.journaled.sequence_le (hwire e he)
    constructor
    · change Increasing _ (above _ _ (receiver.unread ++ s.unsent))
      rw [hnone]
      exact List.Pairwise.nil
    · intro _
      change above _ _ (receiver.unread ++ s.unsent) = _
      rw [hnone, hmaximum]
      exact (above_eq_nil fun e he => h.journaled.sequence_le he).symm

/-- The journal is read, and the stream is complete if it begins with no reset. -/
theorem readJournal (h : s.Sound) {receiver : Receiver} {after : Nat}
    {minimum maximum : Option Nat} (hphase : s.connection = .bounded receiver after minimum maximum)
    (hsafe : (eventCursorOutsideRetention after minimum maximum ||
      s.db.keepsAfter after) = true) :
    Sound { s with
      connection := .streaming receiver (s.db.openStream after minimum maximum).2
        (s.db.openStream after minimum maximum).1 } := by
  have hconnected := h.connected
  unfold Connected at hconnected
  rw [hphase] at hconnected
  obtain ⟨hsession, hafter, hle, hrelays⟩ := hconnected
  have hwire : s.wire = receiver.unread ++ s.unsent := by rw [wire, hphase]; rfl
  have hwired : ∀ w, maximum.getD 0 ≤ w →
      above ExecutionEvent.sequence w s.wire =
        above ExecutionEvent.sequence w (above ExecutionEvent.sequence (maximum.getD 0) s.wire) :=
    fun w hw => (above_above hw).symm
  have hordered : ∀ w, maximum.getD 0 ≤ w →
      Increasing ExecutionEvent.sequence (above ExecutionEvent.sequence w s.wire) := by
    intro w hw
    rw [hwired w hw]
    exact hrelays.increasing.sublist above_sublist
  refine ⟨h.journaled, fun e he => ?_, h.ordered, h.begun, ?_⟩
  · rcases List.mem_append.mp he with hsent | hwired
    · refine h.journaled.kept.subset (@Db.openStream_mem s.db after minimum maximum e ?_)
      simpa only [hsession, List.nil_append, Connection.frames] using hsent
    · exact h.wire_known (hwire ▸ hwired)
  · rcases s.db.openStream_cases after minimum maximum with ⟨reason, hopen⟩ |
      ⟨hinside, hmaximum, hopen⟩
    · rw [hopen]
      refine ⟨?_, Or.inr (Or.inl ⟨reason, rfl⟩)⟩
      rw [hsession]
      change Increasing _ (above _ (maximum.getD after) (receiver.unread ++ s.unsent))
      rw [← hwire]
      refine hordered _ ?_
      cases maximum with
      | none => exact Nat.zero_le _
      | some maximum => exact le_rfl
    · rw [hopen]
      have hkeeps : s.db.keepsAfter after = true := by rwa [hinside, Bool.false_or] at hsafe
      have habove := h.journaled.above_kept hkeeps
      generalize hreplay : s.db.replayEvents after 10000 = replay at hmaximum ⊢
      have hbegins : replay <+: above ExecutionEvent.sequence after s.committed := by
        rw [← hreplay, Db.replayEvents, habove]
        exact List.take_prefix _ _
      have hincreasing := h.journaled.increasing
      have hread : Increasing ExecutionEvent.sequence replay :=
        (hincreasing.sublist above_sublist).sublist hbegins.sublist
      have hlow : maximum.getD 0 ≤ position ExecutionEvent.sequence after replay := by
        cases maximum with
        | none => exact Nat.zero_le _
        | some maximum => exact of_decide_eq_true hmaximum
      refine ⟨?_, ?_⟩
      · rw [hsession, List.nil_append, frameEvents_map_event]
        change Increasing _ (replay ++ above _ _ (receiver.unread ++ s.unsent))
        rw [← hwire]
        refine increasing_append.mpr ⟨hread, hordered _ hlow, fun e he e' he' => ?_⟩
        exact (le_position hread he).trans_lt (mem_above.mp he').2
      · refine h.begun.imp_right fun hbegun => Or.inr ?_
        have hcursor : after = position ExecutionEvent.sequence s.first (frameEvents s.received) :=
          hafter
        have hrest := above_position hincreasing hbegun
        rw [← hcursor] at hrest
        have hfirst : s.first ≤ after := hcursor ▸ first_le_position fun e he =>
          (mem_above.mp (hbegun.subset he)).2
        have hposition : after ≤ position ExecutionEvent.sequence after replay :=
          first_le_position fun e he => (mem_above.mp (hbegins.subset he)).2
        refine ⟨hfirst.trans hposition, ?_, ?_, fun hlagged => ?_⟩
        · rcases List.eq_nil_or_concat replay with rfl | ⟨earlier, last, rfl⟩
          · exact (eventCursor_le hinside).trans hle
          · rw [List.concat_eq_append] at hbegins ⊢
            rw [position_append_singleton]
            exact h.journaled.sequence_le (mem_above.mp (hbegins.subset (by simp))).1
        · change frameEvents (s.received ++ replay.map Frame.event) <+:
            above ExecutionEvent.sequence s.first s.committed
          rw [hrest, frameEvents_append, frameEvents_map_event]
          exact (List.prefix_append_right_inj _).mpr hbegins
        · have hcomplete := hrelays.complete (by rw [hphase]; exact hlagged)
          change frameEvents (s.received ++ replay.map Frame.event) ++
            above ExecutionEvent.sequence _ (receiver.unread ++ s.unsent) =
              above ExecutionEvent.sequence s.first s.committed
          rw [hrest, above_position hincreasing hbegins, ← hwire, hwired _ hlow, hcomplete,
            above_above hlow, frameEvents_append, frameEvents_map_event, List.append_assoc]

/-! ### The client -/

theorem deliverFrame (h : s.Sound) {receiver : Receiver} {w : Nat} {frame : Frame}
    {frames : List Frame} (hphase : s.connection = .streaming receiver w (frame :: frames)) :
    Sound { s with
      session := s.session ++ [frame], connection := .streaming receiver w frames } := by
  have hstreams := h.connected
  unfold Connected at hstreams
  rw [hphase] at hstreams
  have hwire : s.wire = receiver.unread ++ s.unsent := by rw [wire, hphase]; rfl
  have hassoc : ∀ earlier : List Frame, earlier ++ [frame] ++ frames = earlier ++ frame :: frames :=
    fun earlier => by simp
  have hincreasing : Increasing ExecutionEvent.sequence
      (frameEvents (s.session ++ [frame] ++ frames) ++
        above ExecutionEvent.sequence w (receiver.unread ++ s.unsent)) := by
    rw [hassoc, ← hwire]
    exact hstreams.increasing
  have hreaches : ((s.past ++ (s.session ++ [frame])).any Frame.isReset = true) ∨
      s.Completes w (frame :: frames) := by
    rcases hstreams.reaches with hreset | ⟨reason, heq⟩ | hcompletes
    · refine Or.inl ?_
      rw [← List.append_assoc, List.any_append]
      exact Bool.or_eq_true_iff.mpr (Or.inl hreset)
    · obtain ⟨rfl, rfl⟩ := List.cons.inj heq
      exact Or.inl (by simp [Frame.isReset])
    · exact Or.inr hcompletes
  refine ⟨h.journaled, fun e he => ?_, ?_, ?_, hincreasing, ?_⟩
  · refine h.known e ?_
    rw [inFlight, hwire, hphase]
    change e ∈ frameEvents (s.session ++ [frame] ++ frames) ++ (receiver.unread ++ s.unsent) at he
    rwa [hassoc] at he
  · rw [frameEvents_append] at hincreasing
    exact (increasing_append.mp (increasing_append.mp hincreasing).1).1
  · refine hreaches.imp_right fun hcompletes => ?_
    have hbegun := hcompletes.begun
    rw [← hassoc, frameEvents_append] at hbegun
    change frameEvents (s.past ++ (s.session ++ [frame])) <+: _
    rw [← List.append_assoc]
    exact (List.prefix_append _ _).trans hbegun
  · refine hreaches.imp_right fun hcompletes => Or.inr ?_
    have hreceived : s.past ++ (s.session ++ [frame]) ++ frames =
        s.received ++ frame :: frames := by simp [received]
    refine ⟨hcompletes.first_le, hcompletes.le_committed, ?_, fun hlagged => ?_⟩
    · change frameEvents (s.past ++ (s.session ++ [frame]) ++ frames) <+: _
      rw [hreceived]
      exact hcompletes.begun
    · change frameEvents (s.past ++ (s.session ++ [frame]) ++ frames) ++
        above _ w (receiver.unread ++ s.unsent) = _
      rw [hreceived, ← hwire]
      exact hcompletes.complete (by rw [hphase]; exact hlagged)

theorem deliverLagged (h : s.Sound) {receiver receiver' : Receiver} {w : Nat}
    (hphase : s.connection = .streaming receiver w [])
    (hunread : receiver'.unread = receiver.unread) (reason : String) :
    Sound { s with
      session := s.session ++ [.reset reason], connection := .streaming receiver' w [] } := by
  have hstreams := h.connected
  unfold Connected at hstreams
  rw [hphase] at hstreams
  have hwire : s.wire = receiver'.unread ++ s.unsent := by rw [wire, hphase, hunread]; rfl
  have hsession : frameEvents (s.session ++ [Frame.reset reason]) = frameEvents s.session := by simp
  have hreset : (s.past ++ (s.session ++ [Frame.reset reason])).any Frame.isReset = true := by
    simp [Frame.isReset]
  refine ⟨h.journaled, fun e he => h.known e ?_, ?_, Or.inl hreset, ?_, Or.inl hreset⟩
  · rw [inFlight, hwire, hphase]
    change e ∈ frameEvents (s.session ++ [Frame.reset reason] ++ []) ++
      (receiver'.unread ++ s.unsent) at he
    rwa [List.append_nil, hsession, ← List.append_nil s.session] at he
  · rw [hsession]
    exact h.ordered
  · change Increasing _ (frameEvents (s.session ++ [Frame.reset reason] ++ []) ++
      above _ w (receiver'.unread ++ s.unsent))
    rw [List.append_nil, hsession, ← hwire, ← List.append_nil s.session]
    exact hstreams.increasing

/-- The oldest message of the receiver reaches the client if it is above the watermark. -/
theorem deliverEvent (h : s.Sound) {receiver : Receiver} {w : Nat} {e : ExecutionEvent}
    {rest : List ExecutionEvent} (hphase : s.connection = .streaming receiver w [])
    (hunread : receiver.unread = e :: rest) (hcaught : receiver.lagged = false) :
    Sound { s with
      session := if w < e.sequence then s.session ++ [.event e] else s.session
      connection := .streaming { receiver with unread := rest } w [] } := by
  have hstreams := h.connected
  unfold Connected at hstreams
  rw [hphase] at hstreams
  have hwire : s.wire = e :: (rest ++ s.unsent) := by
    rw [wire, hphase]
    simp [Connection.unread, hunread]
  generalize hsession : (if w < e.sequence then s.session ++ [.event e] else s.session) = session
  -- what was sent and what is on the wire above the watermark stay the same together
  have hsame : frameEvents session ++ above ExecutionEvent.sequence w (rest ++ s.unsent) =
      frameEvents s.session ++ above ExecutionEvent.sequence w s.wire := by
    rw [← hsession, hwire]
    by_cases hlt : w < e.sequence
    · rw [if_pos hlt, frameEvents_append, List.append_assoc]
      simp [above, hlt]
    · rw [if_neg hlt]
      simp [above, hlt]
  have hincreasing : Increasing ExecutionEvent.sequence
      (frameEvents session ++ above ExecutionEvent.sequence w (rest ++ s.unsent)) := by
    have hbefore := hstreams.increasing
    rwa [List.append_nil, ← hsame] at hbefore
  have hreset : s.wasReset = true → (s.past ++ session).any Frame.isReset = true := by
    intro hreset
    rw [wasReset, received, List.any_append, Bool.or_eq_true_iff] at hreset
    rw [← hsession, List.any_append, Bool.or_eq_true_iff]
    refine hreset.imp_right fun hreset => ?_
    split
    · rw [List.any_append, hreset, Bool.true_or]
    · exact hreset
  have hcompletes : (s.past ++ session).any Frame.isReset = true ∨ s.Completes w [] := by
    rcases hstreams.reaches with hbefore | ⟨reason, heq⟩ | hcompletes
    · exact Or.inl (hreset hbefore)
    · cases heq
    · exact Or.inr hcompletes
  have hall : s.Completes w [] → frameEvents (s.past ++ session) ++
      above ExecutionEvent.sequence w (rest ++ s.unsent) =
        above ExecutionEvent.sequence s.first s.committed := by
    intro hcompletes
    rw [frameEvents_append, List.append_assoc, hsame, ← List.append_assoc, ← frameEvents_append]
    have hcomplete := hcompletes.complete (by rw [hphase]; exact hcaught)
    rwa [List.append_nil] at hcomplete
  have hprefix : s.Completes w [] →
      frameEvents (s.past ++ session) <+: above ExecutionEvent.sequence s.first s.committed := by
    intro hcompletes
    rw [← hall hcompletes]
    exact List.prefix_append _ _
  refine ⟨h.journaled, fun e' he' => ?_, (increasing_append.mp hincreasing).1,
    hcompletes.imp_right hprefix, ?_, ?_⟩
  · change e' ∈ frameEvents (session ++ []) ++ (rest ++ s.unsent) at he'
    rw [List.append_nil] at he'
    have hold : e' ∈ frameEvents s.session → e' ∈ s.committed := fun hsent => by
      refine h.known e' (List.mem_append_left _ ?_)
      rw [frameEvents_append]
      exact List.mem_append_left _ hsent
    have hnew : e' ∈ e :: (rest ++ s.unsent) → e' ∈ s.committed := fun hwired =>
      h.wire_known (hwire ▸ hwired)
    rcases List.mem_append.mp he' with hsent | hwired
    · rw [← hsession] at hsent
      split at hsent
      · rw [frameEvents_append] at hsent
        rcases List.mem_append.mp hsent with hsent | hsent
        · exact hold hsent
        · rw [List.mem_singleton.mp hsent]
          exact h.wire_known (hwire ▸ List.mem_cons_self)
      · exact hold hsent
    · exact hnew (List.mem_cons_of_mem _ hwired)
  · change Increasing _ (frameEvents (session ++ []) ++ above _ w (rest ++ s.unsent))
    rwa [List.append_nil]
  · refine hcompletes.imp_right fun hcompletes => Or.inr ?_
    refine ⟨hcompletes.first_le, hcompletes.le_committed, ?_, fun _ => ?_⟩
    · change frameEvents (s.past ++ session ++ []) <+: _
      rw [List.append_nil]
      exact hprefix hcompletes
    · change frameEvents (s.past ++ session ++ []) ++ above _ w (rest ++ s.unsent) = _
      rw [List.append_nil]
      exact hall hcompletes

theorem deliver (h : s.Sound) : s.deliver.Sound := by
  unfold Feed.deliver
  split
  · exact h.deliverFrame ‹_›
  · rename_i receiver w hphase
    cases hlagged : receiver.lagged with
    | true =>
      have hnext : receiver.next = some (none, { receiver with lagged := false }) := by
        rw [Receiver.next, hlagged, if_pos rfl]
      have hunread : Receiver.unread { receiver with lagged := false } = receiver.unread := rfl
      rw [hnext]
      exact h.deliverLagged hphase hunread "client_lagged"
    | false =>
      cases hunread : receiver.unread with
      | nil =>
        have hnext : receiver.next = none := by simp [Receiver.next, hlagged, hunread]
        rw [hnext]
        exact h
      | cons e rest =>
        have hnext : receiver.next = some (some e, { receiver with unread := rest }) := by
          simp [Receiver.next, hlagged, hunread]
        rw [hnext]
        exact h.deliverEvent hphase hunread hlagged
  · exact h

theorem close (h : s.Sound) {unsent : List ExecutionEvent} (hunsent : ∀ e ∈ unsent, e ∈ s.unsent) :
    Sound { s with unsent, connection := .closed } := by
  refine ⟨h.journaled, fun e he => ?_, h.ordered, h.begun, trivial⟩
  rcases List.mem_append.mp he with hsent | hleft
  · change e ∈ frameEvents (s.session ++ []) at hsent
    rw [List.append_nil] at hsent
    refine h.known e (List.mem_append_left _ ?_)
    rw [frameEvents_append]
    exact List.mem_append_left _ hsent
  · exact h.wire_known (List.mem_append_right _ (hunsent e hleft))

/-- Once nothing is left to send, the client has all that was committed above its first cursor. -/
theorem complete (h : s.Sound) (hreset : ¬ s.wasReset = true) (hcaught : s.caughtUp = true) :
    frameEvents s.received = above ExecutionEvent.sequence s.first s.committed := by
  obtain ⟨hunsent, hidle⟩ := Bool.and_eq_true_iff.mp hcaught
  have hunsent := List.isEmpty_iff.mp hunsent
  have hstreams := h.connected
  unfold Connected at hstreams
  cases hphase : s.connection with
  | streaming receiver w frames =>
    rw [hphase] at hstreams hidle
    simp only [Connection.idle, Bool.and_eq_true, List.isEmpty_iff, Bool.not_eq_true'] at hidle
    obtain ⟨⟨hunread, hlagged⟩, rfl⟩ := hidle
    rcases hstreams.reaches with hbefore | ⟨reason, heq⟩ | hcompletes
    · exact absurd hbefore hreset
    · cases heq
    · have hcomplete := hcompletes.complete (by rw [hphase]; exact hlagged)
      have hwire : s.wire = [] := by rw [wire, hphase, hunsent, List.append_nil]; exact hunread
      rwa [hwire, List.append_nil, above, List.filter_nil, List.append_nil] at hcomplete
  | _ =>
    rw [hphase] at hidle
    cases hidle

/-! ### One step and a whole run -/

/-- A transaction under the write gate, whether it commits or not. -/
theorem gated (h : s.Sound) {α : Type} {ordered : Prop} {tx : Tx α}
    (hjournals : ∀ r, tx = .ok r → r.Journals ordered s.db)
    (hordered : s.connection.reading = true → ordered) :
    (if s.unsent = [] then s.transact tx else s).Sound := by
  split
  · rename_i hunsent
    cases tx with
    | error e => exact h
    | ok r => exact h.transact (hjournals r rfl) hunsent hordered
  · exact h

theorem step {config : StoreConfig} (h : s.Sound) (hpositive : 0 < config.eventRetention)
    {action : FeedAction} (hsafe : action.safe s = true) : (s.step config action).Sound := by
  cases action with
  | call operation now =>
    refine h.gated (fun r hr => StoreCall.run_journals hpositive hr) fun hreading => ?_
    rw [FeedAction.safe, hreading, Bool.true_and, Bool.not_eq_true'] at hsafe
    exact hsafe
  | paper op now =>
    exact h.gated (fun r hr => (PaperOp.run_announces hr).journals) fun hreading => hreading
  | openAccount account =>
    exact h.gated (fun r hr => (initializePaperAccount_announces hr).journals)
      fun hreading => hreading
  | send =>
    simp only [Feed.step]
    split
    · exact h
    · exact h.send ‹_›
  | connect =>
    simp only [Feed.step]
    split
    · exact h.connect
    · exact h
  | readBounds =>
    simp only [Feed.step]
    split
    · exact h.readBounds ‹_›
    · exact h
  | readJournal =>
    simp only [Feed.step]
    split
    · rename_i receiver after minimum maximum hphase
      rw [FeedAction.safe, hphase] at hsafe
      exact h.readJournal hphase hsafe
    · exact h
  | deliver => exact h.deliver
  | disconnect => exact h.close fun _ he => he
  | crash => exact h.close fun _ he => by cases he

end Sound

end Feed

theorem FeedRun.sound {config : StoreConfig} {lastEventId : Option Nat} {s : Feed}
    (hpositive : 0 < config.eventRetention)
    (hrun : FeedRun config (fun s action => action.safe s = true) lastEventId s) : s.Sound := by
  induction hrun with
  | start => exact Feed.initial_sound lastEventId
  | step action _ hsafe ih => exact ih.step hpositive hsafe

/-- However a store and a client go on by safe actions, each connection delivers in increasing
order; and unless the client was told to start over, it has been delivered every event above its
first cursor up to the last one it has, and every one committed once nothing is left to send. -/
theorem stream_resumes (config : StoreConfig) (hpositive : 0 < config.eventRetention)
    (lastEventId : Option Nat) (s : Feed)
    (hrun : FeedRun config (fun s action => action.safe s = true) lastEventId s) :
    ((frameEvents s.session).map ExecutionEvent.sequence).Pairwise (· < ·) ∧
      (s.wasReset = true ∨
        (frameEvents s.received = s.committed.filter fun e =>
          s.first < e.sequence ∧ e.sequence ≤ s.cursor) ∧
        (s.caughtUp = true → ∀ e ∈ s.committed, s.first < e.sequence →
          e ∈ frameEvents s.received)) := by
  have h := hrun.sound hpositive
  refine ⟨List.pairwise_map.mpr h.ordered, ?_⟩
  by_cases hreset : s.wasReset = true
  · exact Or.inl hreset
  · have hbegun := h.begun.resolve_left hreset
    refine Or.inr ⟨read_eq h.journaled.increasing hbegun, fun hcaught e he hlt => ?_⟩
    rw [h.complete hreset hcaught]
    exact mem_above.mpr ⟨he, hlt⟩

/-- A client that loses its connection while an order is answered: the order rests. -/
def resumedFeed : List FeedAction :=
  submittingFeed ++ FeedAction.opened 11 ++
    [.call (.finishSubmission 3 7 .submitted .live (some "first") "VENUE_RESPONSE" 0 none []) 0,
      .send, .deliver, .disconnect, .send] ++ FeedAction.opened 1

/-- Its second connection brings what the first has not. -/
theorem stream_resumes_resting :
    ∃ s, FeedRun samplePaperStore (fun s action => action.safe s = true) none s ∧
      s.past ≠ [] ∧ s.session ≠ [] ∧ s.caughtUp = true ∧
      ∀ e ∈ s.committed, s.first < e.sequence → e ∈ frameEvents s.received := by
  have hplay : ((Feed.play samplePaperStore FeedAction.safe resumedFeed (.initial none)).any
      fun s => s.past ≠ [] ∧ s.session ≠ [] ∧ s.caughtUp = true ∧ s.wasReset = false) = true := by
    decide +kernel
  obtain ⟨s, hrun, hshows⟩ := exists_of_feed (fun _ _ hsafe => hsafe) hplay
  obtain ⟨hpast, hsession, hcaught, hreset⟩ := of_decide_eq_true hshows
  obtain ⟨-, hdelivered⟩ := stream_resumes samplePaperStore (by decide) none s hrun
  obtain ⟨-, hall⟩ := hdelivered.resolve_left (by rw [hreset]; exact Bool.false_ne_true)
  exact ⟨s, hrun, hpast, hsession, hcaught, hall hcaught⟩

/-- The same client while the order is filled in part: the trade, whose event comes first in the
journal, is broadcast last. -/
def lossyFeed : List FeedAction :=
  submittingFeed ++ FeedAction.opened 11 ++
    [.call (.finishSubmission 3 7 .submitted .partiallyFilled (some "first") "VENUE_RESPONSE" 4
        (some (1 / 2)) ["trade"]) 0,
      .send, .deliver, .disconnect, .send, .send] ++ FeedAction.opened 1

/-- The client comes back with the number of the event after the trade, and is never sent the
trade. -/
theorem stream_loses_trade :
    ∃ s, FeedRun samplePaperStore (fun _ _ => True) none s ∧ s.wasReset = false ∧
      s.caughtUp = true ∧
      ∃ e ∈ s.committed, s.first < e.sequence ∧ e ∉ frameEvents s.received := by
  have hplay : ((Feed.play samplePaperStore (fun _ _ => true) lossyFeed (.initial none)).any
      fun s => s.wasReset = false ∧ s.caughtUp = true ∧
        ∃ e ∈ s.committed, s.first < e.sequence ∧ e ∉ frameEvents s.received) = true := by
    decide +kernel
  obtain ⟨s, hrun, hshows⟩ := exists_of_feed (fun _ _ _ => trivial) hplay
  exact ⟨s, hrun, of_decide_eq_true hshows⟩

end OddsfoxExecution
