import OddsfoxExecution.Library.Following
import OddsfoxExecution.Store.Ledger
import OddsfoxExecution.Store.Run

/-!
# The event stream

`GET /v1/events`: the handler subscribes to the broadcast channel, reads the
bounds of the journal and then the journal itself, and sends what it read
followed by what the channel brings.  `Feed` is a store with one client of the
stream, which may lose its connection at any point and connects again with the
number of the last event it received.
-/

namespace OddsfoxExecution

open NumberedLog

/-! ## The handler -/

/-- What the stream sends: `sse_event`, or a `reset` event with its reason. -/
inductive Frame where
  | event (e : ExecutionEvent)
  | reset (reason : String)
deriving DecidableEq

def Frame.event? : Frame → Option ExecutionEvent
  | event e => some e
  | reset _ => none

def Frame.isReset : Frame → Bool
  | event _ => false
  | reset _ => true

def frameEvents (frames : List Frame) : List ExecutionEvent := frames.filterMap Frame.event?

def Db.eventSequenceBounds (db : Db) : Option Nat × Option Nat :=
  ((db.executionEvents.map ExecutionEvent.sequence).min?,
    (db.executionEvents.map ExecutionEvent.sequence).max?)

/-- `replay_events`; the journal is in the order of the sequence numbers. -/
def Db.replayEvents (db : Db) (afterSequence limit : Nat) : List ExecutionEvent :=
  (above ExecutionEvent.sequence afterSequence db.executionEvents).take (min limit 10000)

def eventCursorOutsideRetention (after : Nat) (minimum maximum : Option Nat) : Bool :=
  decide (0 < after) &&
    (minimum.any (fun minimum => decide (after < minimum - 1)) ||
      maximum.all fun maximum => decide (maximum < after))

def eventReplayTruncated (cursorOutsideRetention : Bool) (maximum : Option Nat)
    (replayWatermark : Nat) : Bool :=
  !cursorOutsideRetention && maximum.any fun maximum => decide (replayWatermark < maximum)

/-- The rest of the handler once the bounds are read: the frames it sends first, and the number
above which it passes on what the channel brings. -/
def Db.openStream (db : Db) (after : Nat) (minimum maximum : Option Nat) : List Frame × Nat :=
  let outside := eventCursorOutsideRetention after minimum maximum
  let replay := if outside then [] else db.replayEvents after 10000
  let replayWatermark := position ExecutionEvent.sequence after replay
  let truncated := eventReplayTruncated outside maximum replayWatermark
  let resetReason :=
    if outside then some "cursor_outside_retention"
    else if truncated then some "replay_limit_exceeded"
    else none
  let liveWatermark := if resetReason.isSome then maximum.getD after else replayWatermark
  let replay := if truncated then [] else replay
  ((resetReason.map Frame.reset).toList ++ replay.map Frame.event, liveWatermark)

/-! ## The channel -/

/-- A receiver of `broadcast::channel(1_024)`: the messages it has not taken, and whether it has
lost older ones. -/
structure Receiver where
  unread : List ExecutionEvent
  lagged : Bool

def Receiver.new : Receiver := { unread := [], lagged := false }

/-- A message is sent; a receiver that is full loses its oldest one. -/
def Receiver.push (r : Receiver) (e : ExecutionEvent) : Receiver :=
  if r.unread.length < 1024 then { r with unread := r.unread ++ [e] }
  else { unread := r.unread.tail ++ [e], lagged := true }

/-- The item of `BroadcastStream`: an error once messages were lost, else the oldest one. -/
def Receiver.next (r : Receiver) : Option (Option ExecutionEvent × Receiver) :=
  if r.lagged then some (none, { r with lagged := false })
  else
    match r.unread with
    | [] => none
    | e :: rest => some (some e, { r with unread := rest })

/-! ## A client and its connections -/

/-- How far a connection has come. -/
inductive Connection where
  | closed
  | subscribed (receiver : Receiver) (after : Nat)
  | bounded (receiver : Receiver) (after : Nat) (minimum maximum : Option Nat)
  | streaming (receiver : Receiver) (liveWatermark : Nat) (frames : List Frame)

namespace Connection

def push (e : ExecutionEvent) : Connection → Connection
  | closed => closed
  | subscribed receiver after => subscribed (receiver.push e) after
  | bounded receiver after minimum maximum => bounded (receiver.push e) after minimum maximum
  | streaming receiver liveWatermark frames => streaming (receiver.push e) liveWatermark frames

def unread : Connection → List ExecutionEvent
  | closed => []
  | subscribed receiver _ | bounded receiver .. | streaming receiver .. => receiver.unread

def lagged : Connection → Bool
  | closed => false
  | subscribed receiver _ | bounded receiver .. | streaming receiver .. => receiver.lagged

def reading : Connection → Bool
  | closed | subscribed .. => false
  | bounded .. | streaming .. => true

def idle : Connection → Bool
  | streaming receiver _ frames => receiver.unread.isEmpty && !receiver.lagged && frames.isEmpty
  | _ => false

end Connection

/-- A store and a client of its event stream. -/
structure Feed where
  db : Db
  /-- What the last transaction still has to broadcast; it holds the write gate until then. -/
  unsent : List ExecutionEvent
  /-- Every event committed, pruned or not. -/
  committed : List ExecutionEvent
  /-- The `Last-Event-ID` the client first comes with. -/
  lastEventId : Option Nat
  /-- What the client received over its earlier connections, and over this one. -/
  past : List Frame
  session : List Frame
  connection : Connection

namespace Feed

def initial (lastEventId : Option Nat) : Feed where
  db := Db.initial
  unsent := []
  committed := []
  lastEventId := lastEventId
  past := []
  session := []
  connection := .closed

def received (s : Feed) : List Frame := s.past ++ s.session

def first (s : Feed) : Nat := s.lastEventId.getD 0

/-- The cursor the client asks for next: the last event it received, or its first cursor. -/
def cursor (s : Feed) : Nat :=
  position ExecutionEvent.sequence s.first (frameEvents s.received)

/-- The client was told to query the resources. -/
def wasReset (s : Feed) : Bool := s.received.any Frame.isReset

def caughtUp (s : Feed) : Bool := s.unsent.isEmpty && s.connection.idle

def transact {α : Type} (s : Feed) (tx : Tx α) : Feed :=
  match tx with
  | .error _ => s
  | .ok r =>
    { s with
      db := r.db
      unsent := r.broadcast
      committed := s.committed ++
        r.db.executionEvents.filter fun e => s.db.nextSequence ≤ e.sequence }

def deliver (s : Feed) : Feed :=
  match s.connection with
  | .streaming receiver liveWatermark (frame :: frames) =>
    { s with
      session := s.session ++ [frame]
      connection := .streaming receiver liveWatermark frames }
  | .streaming receiver liveWatermark [] =>
    match receiver.next with
    | none => s
    | some (none, receiver) =>
      { s with
        session := s.session ++ [.reset "client_lagged"]
        connection := .streaming receiver liveWatermark [] }
    | some (some e, receiver) =>
      { s with
        session := if liveWatermark < e.sequence then s.session ++ [.event e] else s.session
        connection := .streaming receiver liveWatermark [] }
  | _ => s

end Feed

/-! ## Runs -/

inductive FeedAction where
  | call (call : StoreCall) (now : Time)
  | paper (op : PaperOp) (now : Time)
  | openAccount (account : PaperConfig)
  | send
  | connect
  | readBounds
  | readJournal
  | deliver
  | disconnect
  | crash

/-- One action of the store, of the handler or of the client; one that is not possible changes
nothing. -/
def Feed.step (config : StoreConfig) (s : Feed) : FeedAction → Feed
  | .call call now => if s.unsent = [] then s.transact (call.run config now s.db) else s
  | .paper op now => if s.unsent = [] then s.transact (op.run now s.db) else s
  | .openAccount account =>
    if s.unsent = [] then s.transact (initializePaperAccount config.mode account s.db) else s
  | .send =>
    match s.unsent with
    | [] => s
    | e :: rest => { s with unsent := rest, connection := s.connection.push e }
  | .connect =>
    match s.connection with
    | .closed =>
      { s with past := s.received, session := [], connection := .subscribed .new s.cursor }
    | _ => s
  | .readBounds =>
    match s.connection with
    | .subscribed receiver after =>
      { s with
        connection :=
          .bounded receiver after s.db.eventSequenceBounds.1 s.db.eventSequenceBounds.2 }
    | _ => s
  | .readJournal =>
    match s.connection with
    | .bounded receiver after minimum maximum =>
      { s with
        connection := .streaming receiver (s.db.openStream after minimum maximum).2
          (s.db.openStream after minimum maximum).1 }
    | _ => s
  | .deliver => s.deliver
  | .disconnect => { s with connection := .closed }
  | .crash => { s with unsent := [], connection := .closed }

/-- What a store and a client go through, from the database the migrations create, by actions that
meet `guard`. -/
inductive FeedRun (config : StoreConfig) (guard : Feed → FeedAction → Prop)
    (lastEventId : Option Nat) : Feed → Prop
  | start : FeedRun config guard lastEventId (.initial lastEventId)
  | step {s : Feed} (action : FeedAction) (hrun : FeedRun config guard lastEventId s)
      (hguard : guard s action) : FeedRun config guard lastEventId (s.step config action)

/-- The feed that actions lead to, if each of them meets the guard. -/
def Feed.play (config : StoreConfig) (guard : Feed → FeedAction → Bool) :
    List FeedAction → Feed → Option Feed
  | [], s => some s
  | action :: actions, s =>
    if guard s action then Feed.play config guard actions (s.step config action) else none

theorem Feed.play_run {config : StoreConfig} {check : Feed → FeedAction → Bool}
    {guard : Feed → FeedAction → Prop} {lastEventId : Option Nat} {actions : List FeedAction}
    {s s' : Feed} (hguard : ∀ s action, check s action = true → guard s action)
    (hrun : FeedRun config guard lastEventId s)
    (h : Feed.play config check actions s = some s') : FeedRun config guard lastEventId s' := by
  induction actions generalizing s with
  | nil =>
    cases h
    exact hrun
  | cons action actions ih =>
    simp only [play] at h
    split at h
    · exact ih (.step action hrun (hguard s action ‹_›)) h
    · cases h

theorem exists_of_feed {config : StoreConfig} {check : Feed → FeedAction → Bool}
    {guard : Feed → FeedAction → Prop} {lastEventId : Option Nat} {actions : List FeedAction}
    {shows : Feed → Bool} (hguard : ∀ s action, check s action = true → guard s action)
    (h : (Feed.play config check actions (.initial lastEventId)).any shows = true) :
    ∃ s, FeedRun config guard lastEventId s ∧ shows s = true := by
  obtain ⟨s, hplay, hshows⟩ := (Option.any_eq_true _ _).mp h
  exact ⟨s, Feed.play_run hguard .start hplay, hshows⟩

/-- A transaction and the broadcast of its events. -/
def FeedAction.committed (operation : StoreCall) : List FeedAction :=
  [.call operation 0, .send, .send, .send]

/-- A client connects and takes all that the journal has for it. -/
def FeedAction.opened (count : Nat) : List FeedAction :=
  [.connect, .readBounds, .readJournal] ++ List.replicate count .deliver

/-- The first order of a READY service is about to be answered. -/
def submittingFeed : List FeedAction :=
  (readySample ++ prepareSample "first" 3 ++ [StoreCall.beginSubmission 3 7]).flatMap
    FeedAction.committed

end OddsfoxExecution
