import OddsfoxExecution.Library.Player
import OddsfoxExecution.Polymarket.Adapter

/-!
# The live venue as a system

The methods the coordinator calls and the handlers of the streams, any number
of them side by side over what a `PolymarketVenue` holds in memory.  A method
whose deadline passes is dropped.  The clients answer as they like, messages
come as they like once a stream is there, and a crash starts over with a new
venue.
-/

namespace OddsfoxExecution

inductive PolymarketTask where
  | method (call : VenueCall)
  | reconciliationRequired
  | userMessage (message : StreamMessage Unit)
  | bookMessage (tokenId : String) (message : StreamMessage BookMessage)
  | priceMessage (tokenId : String) (message : StreamMessage PriceMessage)

/-- What a venue holds, and which venue of the history it is. -/
structure PolymarketMemory where
  process : Nat
  generation : Generation → Nat
  reconciled : Generation → Nat
  books : String → Option OrderBook
  subscriptions : List String
  streams : List String
  heartbeatId : Option Uuid
  locks : VenueLock → Option Nat

def PolymarketMemory.ofProcess (process : Nat) : PolymarketMemory where
  process := process
  generation := fun _ => 0
  reconciled := fun _ => 0
  books := fun _ => none
  subscriptions := []
  streams := []
  heartbeatId := none
  locks := fun _ => none

def PolymarketCall.answers (m : PolymarketMemory) (t : Nat) :
    (c : PolymarketCall) → c.Answer → PolymarketMemory → Prop
  | .lock mutex, _, m' =>
      m.locks mutex = none ∧ m' = { m with locks := Function.update m.locks mutex (some t) }
  | .unlock mutex, _, m' => m' = { m with locks := Function.update m.locks mutex none }
  | .subscriptions, r, m' => r = m.subscriptions ∧ m' = m
  | .insertSubscription tokenId, _, m' =>
      m' = { m with subscriptions := m.subscriptions.insert tokenId }
  | .removeSubscription tokenId, _, m' =>
      m' = { m with subscriptions := m.subscriptions.erase tokenId }
  | .heartbeatId, r, m' => r = m.heartbeatId ∧ m' = m
  | .setHeartbeatId posted, _, m' => m' = { m with heartbeatId := some posted }
  | .bump g, _, m' =>
      m' = { m with generation := Function.update m.generation g (m.generation g + 1) }
  | .load g, r, m' => r = m.generation g ∧ m' = m
  | .loadReconciled g, r, m' => r = m.reconciled g ∧ m' = m
  | .storeReconciled g value, _, m' =>
      m' = { m with reconciled := Function.update m.reconciled g value }
  | .updateBooks update, r, m' =>
      r = (update.apply ⟨m.books, 0⟩).gaps ∧
        m' = { m with books := (update.apply ⟨m.books, 0⟩).books }
  | .cachedBook tokenId, r, m' => r = m.books tokenId ∧ m' = m
  | .spawnStreams tokenId, _, m' => m' = { m with streams := tokenId :: m.streams }
  | .hashOrder tokens, r, m' => r.Nodup ∧ (∀ token, token ∈ r ↔ token ∈ tokens) ∧ m' = m
  | .client _, _, m' | .now, _, m' | .sleep, _, m' | .isConnected _, _, m' | .reply _, _, m' =>
      m' = m

/-- A stream has messages once it is there; the user stream always is. -/
def PolymarketTask.arrives (m : PolymarketMemory) (task : PolymarketTask)
    (m' : PolymarketMemory) : Prop :=
  match task with
  | .bookMessage tokenId _ | .priceMessage tokenId _ => tokenId ∈ m.streams ∧ m' = m
  | .method _ | .reconciliationRequired | .userMessage _ => m' = m

/-- A method is awaited under a deadline. -/
def PolymarketTask.droppable : PolymarketTask → Bool
  | .method _ => true
  | _ => false

/-- The guards a dropped task held are released. -/
def PolymarketMemory.dropped (m : PolymarketMemory) (t : Nat) : PolymarketMemory :=
  { m with locks := fun mutex => if m.locks mutex = some t then none else m.locks mutex }

namespace PolymarketVenue

variable (self : PolymarketVenue)

/-- What a task runs; a method ends with its reply. -/
def action : PolymarketTask → VenueAction Unit
  | .method call => do
    let result ← VenueAction.attempt (self.method call)
    VenueAction.perform (.reply (.method call result))
  | .reconciliationRequired => do
    let required ← reconciliationRequired
    VenueAction.perform (.reply (.reconciliationRequired required))
  | .userMessage message => onUserMessage message
  | .bookMessage tokenId message => onBookMessage tokenId message
  | .priceMessage tokenId message => onPriceMessage tokenId message

def program (task : PolymarketTask) :
    Prog PolymarketCall PolymarketCall.Answer (Except VenueError Unit) :=
  (self.action task).run

/-- The live venue. -/
def machine : Machine PolymarketCall PolymarketCall.Answer PolymarketTask
    (Except VenueError Unit) PolymarketMemory where
  program := self.program
  answer := fun m t c r m' => c.answers m t r m'
  arrives := fun m task m' => task.arrives m m'
  droppable := fun task => task.droppable = true
  dropped := PolymarketMemory.dropped
  surroundings := fun _ _ => False
  crashed := fun m => PolymarketMemory.ofProcess (m.process + 1)

end PolymarketVenue

/-- A state of the venue: its memory, its tasks and everything they ever called. -/
abbrev PolymarketSystem : Type := Pool PolymarketCall PolymarketCall.Answer PolymarketTask
  (Except VenueError Unit) PolymarketMemory

abbrev VenueEvent : Type := Event PolymarketCall PolymarketCall.Answer PolymarketTask
  PolymarketMemory

def PolymarketVenue.Reaches (self : PolymarketVenue) (s : PolymarketSystem) : Prop :=
  self.machine.Reaches (fun _ _ _ => True) (PolymarketMemory.ofProcess 0) s

abbrev VenueCalls : Type := Trace PolymarketCall.Answer

/-! ## Schedules -/

/-- How the clients and the clock answer; the streams are connected. -/
structure ClientScript where
  client : (call : ClientCall) → Except SdkError call.Value
  now : Time

/-- The answer to a call and the memory after it, when the call can be made. -/
def PolymarketCall.respond (script : ClientScript) (m : PolymarketMemory) (t : Nat) :
    (c : PolymarketCall) → Option (c.Answer × PolymarketMemory)
  | .client call => some (script.client call, m)
  | .now => some (script.now, m)
  | .sleep => some ((), m)
  | .isConnected _ => some (true, m)
  | .lock mutex =>
    if m.locks mutex = none then
      some ((), { m with locks := Function.update m.locks mutex (some t) })
    else none
  | .unlock mutex => some ((), { m with locks := Function.update m.locks mutex none })
  | .subscriptions => some (m.subscriptions, m)
  | .insertSubscription tokenId =>
    some ((), { m with subscriptions := m.subscriptions.insert tokenId })
  | .removeSubscription tokenId =>
    some ((), { m with subscriptions := m.subscriptions.erase tokenId })
  | .heartbeatId => some (m.heartbeatId, m)
  | .setHeartbeatId posted => some ((), { m with heartbeatId := some posted })
  | .bump g =>
    some ((), { m with generation := Function.update m.generation g (m.generation g + 1) })
  | .load g => some (m.generation g, m)
  | .loadReconciled g => some (m.reconciled g, m)
  | .storeReconciled g value =>
    some ((), { m with reconciled := Function.update m.reconciled g value })
  | .updateBooks update =>
    some ((update.apply ⟨m.books, 0⟩).gaps, { m with books := (update.apply ⟨m.books, 0⟩).books })
  | .cachedBook tokenId => some (m.books tokenId, m)
  | .spawnStreams tokenId => some ((), { m with streams := tokenId :: m.streams })
  | .hashOrder tokens => some (tokens.dedup, m)
  | .reply _ => some ((), m)

theorem PolymarketCall.respond_answers {script : ClientScript} {m m' : PolymarketMemory} {t : Nat}
    {c : PolymarketCall} {r : c.Answer} (h : c.respond script m t = some (r, m')) :
    c.answers m t r m' := by
  cases c with
  | lock mutex =>
    simp only [respond] at h
    split at h
    · cases h
      exact ⟨‹_›, rfl⟩
    · cases h
  | subscriptions | heartbeatId | load | loadReconciled | updateBooks | cachedBook =>
    cases h
    exact ⟨rfl, rfl⟩
  | hashOrder tokens =>
    cases h
    exact ⟨List.nodup_dedup tokens, fun _ => List.mem_dedup, rfl⟩
  | _ =>
    cases h
    rfl

def PolymarketTask.start (m : PolymarketMemory) : PolymarketTask → Option PolymarketMemory
  | .bookMessage tokenId _ | .priceMessage tokenId _ =>
    if tokenId ∈ m.streams then some m else none
  | .method _ | .reconciliationRequired | .userMessage _ => some m

theorem PolymarketTask.start_arrives {m m' : PolymarketMemory} {task : PolymarketTask}
    (h : task.start m = some m') : task.arrives m m' := by
  cases task with
  | bookMessage | priceMessage =>
    simp only [start] at h
    split at h
    · cases h
      exact ⟨‹_›, rfl⟩
    · cases h
  | _ =>
    cases h
    rfl

def PolymarketVenue.player (self : PolymarketVenue) : Player self.machine ClientScript where
  respond := fun script m t c => c.respond script m t
  start := fun m task => task.start m
  answers := PolymarketCall.respond_answers
  arrives := PolymarketTask.start_arrives

abbrev VenueSchedule : Type := List (Player.Turn PolymarketTask ClientScript)

/-! ### A sample venue -/

/-- Token `7` is the only number it reads. -/
def sampleVenueAdapter : PolymarketVenue where
  expectedProtocol := 2
  chainId := 137
  signerAddress := some "signer"
  funderAddress := some "funder"
  parseU256 text := if text = "7" then .ok 7 else .error "invalid digit"
  parseAddress text := .ok text
  amount _ quantity := .ok quantity
  exchange _ := some "exchange"
  signingHash signed exchange := toString signed.tokenId ++ "@" ++ exchange
  reconstructSignedOrder payload := .ok ⟨7, .inl "no order", .inr payload⟩
  decimalErrorText _ := "not a decimal"

/-- An account without orders and positions that may trade. -/
def sampleClient : (call : ClientCall) → Except SdkError call.Value
  | .version => .ok 2
  | .checkGeoblock => .ok ⟨false, "XX", "YY"⟩
  | .closedOnlyMode => .ok false
  | .market _ => .ok ⟨[7], true, false, true, 1 / 100, 5, false, 0, 0⟩
  | .orderBook _ => .ok ⟨[], [], 0, none⟩
  | .sign _ => .ok ⟨7, .inr ⟨"{}", some "{}"⟩, .inr "{}"⟩
  | .negRisk _ => .ok false
  | .balanceAllowance _ => .ok ⟨1000, [("exchange", "1000")]⟩
  | .postOrder _ => .ok ⟨true, none, "posted", .live, "LIVE", 0, 0, []⟩
  | .cancelOrder venueOrderId => .ok ⟨[venueOrderId], []⟩
  | .order venueOrderId => .ok ⟨venueOrderId, 7, .live, 10, 0, 1 / 2, []⟩
  | .orders _ => .ok ⟨[], "LTE="⟩
  | .trades _ => .ok ⟨[], ""⟩
  | .positions .. => .ok []
  | .postHeartbeat _ => .ok ⟨1, none⟩
  | .subscribeOrderbook _ | .subscribePrices _ => .ok ()

def sampleClients : ClientScript := ⟨sampleClient, 0⟩

def PolymarketSystem.initial : PolymarketSystem :=
  ⟨PolymarketMemory.ofProcess 0, fun _ => none, 0, []⟩

theorem exists_scheduled (turns : VenueSchedule) (test : PolymarketSystem → Bool)
    (h : (sampleVenueAdapter.player.play turns PolymarketSystem.initial).any test = true) :
    ∃ s, sampleVenueAdapter.Reaches s ∧ test s = true :=
  Player.exists_of_play h

theorem exists_latest (turns : VenueSchedule) (test : Sigma PolymarketCall.Answer → Bool)
    (h : ((sampleVenueAdapter.player.play turns PolymarketSystem.initial).any
      fun s => s.history.head?.any fun e => test e.entry) = true) :
    ∃ s e before, sampleVenueAdapter.Reaches s ∧ s.history = [] ++ e :: before ∧
      test e.entry = true := by
  obtain ⟨s, hs, htest⟩ := exists_scheduled turns _ h
  obtain ⟨e, he, htest⟩ := (Option.any_eq_true _ _).mp htest
  obtain ⟨before, heq⟩ := List.head?_eq_some_iff.mp he
  exact ⟨s, e, before, hs, heq, htest⟩

end OddsfoxExecution
