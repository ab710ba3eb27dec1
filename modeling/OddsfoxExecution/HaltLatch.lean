import OddsfoxExecution.Coordinator.Control
import OddsfoxExecution.Coordinator.Schedule

/-!
# The halt latch

A resume replaces HALTED under the revision it read, so its reconciliation
comes after the halt.  A startup reads the state and writes RECONCILING or
READY later: a halt of a background task that commits in between is lost, and
nothing else loses one.
-/

namespace OddsfoxExecution

/-- A control write without an expected revision that would leave HALTED does not find it. -/
def KeepsHalt : CallGuard := fun m _ e =>
  match e.1 with
  | .store (.setServiceState _ next _ _ none) =>
    next = .ready ∨ next = .reconciling → m.db.controlState.state ≠ .halted
  | _ => True

instance (m : Memory) (task : Task) (e : Sigma Call.Answer) : Decidable (KeepsHalt m task e) := by
  unfold KeepsHalt
  split <;> infer_instance

/-- The write is of a resume, and among the calls `mid` lie its reconciliation, which ended
without a finding, and after that a heartbeat the venue acknowledged. -/
def ResumedIn (mid : List CallEvent) (ready : CallEvent) : Prop :=
  (∃ actorId key reason, ready.task = .resume actorId key reason) ∧
    ∃ trigger id c₁ c₂ c₃ c₄, ownCalls ready.thread mid =
      c₄ ++ asked .heartbeat (.ok ()) :: (c₃ ++ done (.finishReconciliation id []) () ::
        (c₂ ++ done (.startReconciliation trigger none) id :: c₁))

def writes (next : ServiceState) (e : CallEvent) : Bool :=
  match e.entry with
  | ⟨.store (.setServiceState _ state _ _ _), r⟩ =>
    match (r : Except StoreError Unit) with
    | .ok () => state = next
    | .error _ => false
  | _ => false

theorem writes_iff {next : ServiceState} {e : CallEvent} :
    writes next e = true ↔ Writes next e.entry := by
  obtain ⟨t, task, found, c, r⟩ := e
  constructor
  · intro h
    unfold writes at h
    split at h
    · rename_i actor state reason idempotency expected r' heq
      split at h
      · obtain rfl := of_decide_eq_true h
        exact ⟨actor, reason, idempotency, expected, heq⟩
      · cases h
    · cases h
  · rintro ⟨actor, reason, idempotency, expected, heq⟩
    cases heq
    exact decide_eq_true rfl

/-- A HALTED commit with no READY commit after it. -/
def Latched : List CallEvent → Prop
  | [] => False
  | e :: history => Writes .halted e.entry ∨ ¬ Writes .ready e.entry ∧ Latched history

theorem Latched.of_split {mid before : List CallEvent} {halt : CallEvent}
    (hhalt : Writes .halted halt.entry) (hmid : ∀ e ∈ mid, ¬ Writes .ready e.entry) :
    Latched (mid ++ halt :: before) := by
  induction mid with
  | nil => exact Or.inl hhalt
  | cons e mid ih =>
    exact Or.inr ⟨hmid e List.mem_cons_self, ih fun e' he' => hmid e' (List.mem_cons_of_mem _ he')⟩

namespace Coordinator.Reaches

variable {self : Coordinator} {config : StoreConfig} {s : System}

/-- A latched service is HALTED, or is being shut down. -/
theorem latched (h : self.Reaches config KeepsHalt s) (hlatched : Latched s.history) :
    s.memory.db.controlState.state = .halted ∨ s.memory.db.controlState.state = .shuttingDown := by
  induction h with
  | start => exact hlatched.elim
  | @call p t task made c next r memory hp ht hanswer hguard ih =>
    have hpromise := (promised hp ht).1
    rcases Call.answers_control hanswer with ⟨hsame, hnone⟩ |
      ⟨actor, state, reason, idempotency, expected, hentry, hwritten⟩
    · change memory.db.controlState.state = _ ∨ memory.db.controlState.state = _
      rw [hsame]
      rcases hlatched with hhalt | ⟨-, hlatched⟩
      · exact absurd hhalt (hnone _)
      · exact ih hlatched
    · cases hentry
      have hstate : memory.db.controlState.state = state := by rw [hwritten.control]
      have hcontrol : ControlPromise task made state expected := hpromise.call.1
      cases state with
      | halted => exact Or.inl hstate
      | shuttingDown => exact Or.inr hstate
      | ready =>
        rcases hlatched with ⟨_, _, _, _, heq⟩ | ⟨hready, -⟩
        · cases heq
        · exact absurd ⟨actor, reason, idempotency, expected, rfl⟩ hready
      | reconciling =>
        rcases hlatched with ⟨_, _, _, _, heq⟩ | ⟨-, hlatched⟩
        · cases heq
        obtain ⟨rfl, rfl, control, earlier, rfl, -, hcontrol⟩ := hcontrol
        -- the startup wrote after it read a state other than SHUTTING_DOWN
        have hcleared := (startupControl hp ht rfl hpromise.unserved).cleared
          (Or.inl ⟨control, List.mem_cons_self, hcontrol⟩)
        rcases ih hlatched with hhalted | hshutting
        · exact absurd hhalted (hguard (Or.inr rfl))
        · exact absurd hshutting hcleared
      | _ => exact hcontrol.elim
  | @arrive p task memory hp harrives ih =>
    change memory.db.controlState.state = _ ∨ memory.db.controlState.state = _
    rw [(Task.arrives_frame harrives).1]
    exact ih hlatched
  | drop _ _ _ ih => exact ih hlatched
  | surroundings _ hchange ih =>
    obtain ⟨db, hframe, rfl⟩ := hchange
    change db.controlState.state = _ ∨ db.controlState.state = _
    rw [show db.controlState = _ from congrArg Prod.fst hframe.desk_eq]
    exact ih hlatched
  | crash _ ih => exact ih hlatched

variable {guard : CallGuard}

/-- A resume that commits has read the control row after every control write before it. -/
theorem resume_reads (h : self.Reaches config guard s) {mid before : List CallEvent}
    {halt : CallEvent} (hhistory : s.history = mid ++ halt :: before)
    (hhalt : Writes .halted halt.entry) {t : Nat} {a b : Calls} {control : ControlState}
    (hmade : ownCalls t s.history = a ++ done .serviceState control :: b)
    (hrevision : s.memory.db.controlState.revision = control.revision) :
    ∃ c, ownCalls t mid = a ++ done .serviceState control :: c := by
  obtain ⟨after, e, earlier, hsplit, hthread, hentry, rfl, rfl⟩ := ownCalls_split hmade
  have he : e ∈ s.history := hsplit ▸ List.mem_append_right _ List.mem_cons_self
  have hread := h.serviceState_read he hentry
  rw [hread] at hrevision
  rcases List.append_eq_append_iff.mp (hhistory.symm.trans hsplit) with
    ⟨x, hafter, hrest⟩ | ⟨x, hmid, hrest⟩
  · exfalso
    cases x with
    | nil =>
      obtain ⟨rfl, -⟩ := List.cons.inj hrest
      obtain ⟨_, _, _, _, heq⟩ := hhalt
      cases hentry.symm.trans heq
    | cons e' x =>
      -- a read before the halt shows a lower revision
      obtain ⟨rfl, rfl⟩ := List.cons.inj hrest
      have hmono := (h.revision_mono hhistory).1
      have hlt := (h.revision_le (e := halt)
        (hhistory ▸ List.mem_append_right _ List.mem_cons_self)).2 .halted hhalt
      omega
  · cases x with
    | nil =>
      obtain ⟨rfl, -⟩ := List.cons.inj hrest
      obtain ⟨_, _, _, _, heq⟩ := hhalt
      cases hentry.symm.trans heq
    | cons e' x =>
      obtain ⟨rfl, -⟩ := List.cons.inj hrest
      refine ⟨ownCalls t x, ?_⟩
      rw [hmid, ownCalls_append, ← hentry, ← hthread, ownCalls_cons_self]

end Coordinator.Reaches

/-- HALTED gives way to READY only through a resume that reconciled without a finding and had a
heartbeat since, in every run in which no startup write finds HALTED. -/
theorem halt_latched {self : Coordinator} {config : StoreConfig} {s : System}
    (h : self.Reaches config KeepsHalt s) {after mid before : List CallEvent}
    {ready halt : CallEvent} (heq : s.history = after ++ ready :: (mid ++ halt :: before))
    (hready : Writes .ready ready.entry) (hhalt : Writes .halted halt.entry)
    (hmid : ∀ e ∈ mid, ¬ Writes .ready e.entry) : ResumedIn mid ready := by
  obtain ⟨p, next, memory, hp, hmemory, hhistory, ht, hanswer, hguard⟩ := h.moment heq
  have hp : self.Reaches config KeepsHalt p := hp
  have hpromise := (hp.promised ht).1
  obtain ⟨actor, reason, idempotency, expected, hentry⟩ := hready
  obtain ⟨t, task, found, entry⟩ := ready
  subst hentry hmemory
  have hcontrol : ControlPromise task (ownCalls t (mid ++ halt :: before)) .ready expected :=
    hpromise.call.1
  cases expected with
  | none =>
    -- a startup writes READY over a latched service only if it finds HALTED
    obtain ⟨rfl, -, hcontrolled, -⟩ := hcontrol
    have hcleared := (Coordinator.Reaches.startupControl hp ht rfl hpromise.unserved).cleared
      hcontrolled.cleared
    rcases hp.latched (hhistory ▸ Latched.of_split hhalt hmid) with hhalted | hshutting
    · exact absurd hhalted (hguard (Or.inl rfl))
    · exact absurd hshutting hcleared
  | some revision =>
    obtain ⟨htask, -, c₄, id, added, control, earlier, hmade, -, hrevision, hquiet, -, hadded⟩ :=
      hcontrol
    have hanswer : Call.answers config p.memory t (.store (.setServiceState actor .ready reason
      idempotency (some revision))) (.ok ()) memory := hanswer
    rcases Call.answers_control hanswer with ⟨-, hnone⟩ | ⟨_, _, _, _, _, hdone, hwritten⟩
    · exact absurd ⟨actor, reason, idempotency, some revision, rfl⟩ (hnone _)
    cases hdone
    obtain ⟨-, hfound⟩ := hwritten.expected revision rfl
    have hmade' : ownCalls t p.history = (c₄ ++ asked .heartbeat (.ok ()) :: added) ++
        done .serviceState control :: earlier := by
      rw [hhistory, hmade, List.append_assoc, List.cons_append]
    have hunhalted := hp.unhalted_since_read hmade' (hfound.trans hrevision.symm)
    obtain ⟨c, hown⟩ := hp.resume_reads hhistory hhalt hmade' (hfound.trans hrevision.symm)
    obtain ⟨trigger, unknown, findings, c₁, c₂, c₃, rfl, hfindings⟩ := hadded
    have hnil : findings = [] := by
      rcases hfindings with ⟨hnil, -⟩ | ⟨actor, reason, hmem⟩
      · exact hnil
      · exact absurd ⟨actor, reason, by simp [hmem]⟩ hunhalted
    subst hnil
    refine ⟨htask, trigger, id, done .serviceState control :: c,
      c₂ ++ done .unknownSubmissions unknown :: c₁, c₃, c₄, ?_⟩
    rw [hown]
    simp

/-! ## Schedules -/

/-- The latest call is READY and follows HALTED, with no READY in between. -/
def readyAfterHalt (history : List CallEvent) : Bool :=
  match history with
  | [] => false
  | ready :: rest =>
    writes .ready ready &&
      (rest.dropWhile fun e => ¬ writes .halted e).head?.any (writes .halted) &&
      (rest.takeWhile fun e => ¬ writes .halted e).all fun e => ¬ writes .ready e

theorem readyAfterHalt_split {history : List CallEvent} (h : readyAfterHalt history = true) :
    ∃ ready mid halt before, history = ready :: (mid ++ halt :: before) ∧
      Writes .ready ready.entry ∧ Writes .halted halt.entry ∧
        ∀ e ∈ mid, ¬ Writes .ready e.entry := by
  cases history with
  | nil => cases h
  | cons ready rest =>
    simp only [readyAfterHalt, Bool.and_eq_true] at h
    obtain ⟨⟨hready, hhalt⟩, hmid⟩ := h
    cases hdrop : rest.dropWhile fun e => ¬ writes .halted e with
    | nil =>
      rw [hdrop] at hhalt
      cases hhalt
    | cons halt before =>
      rw [hdrop] at hhalt
      refine ⟨ready, rest.takeWhile fun e => ¬ writes .halted e, halt, before, ?_,
        writes_iff.mp hready, writes_iff.mp hhalt, fun e he => ?_⟩
      · rw [← hdrop, List.takeWhile_append_dropWhile]
      · rw [← writes_iff]
        simpa using List.all_eq_true.mp hmid e he

def failingHeartbeat : VenueScript
  | .heartbeat => .error (.unavailable "heartbeat")
  | call => sampleVenue call

/-- A startup has read RECONCILING; a heartbeat fails and halts the service; the startup goes on
and writes READY. -/
def lostHaltSchedule : List Move :=
  [.arrive .main, .calls 0 19 0 sampleVenue, .arrive .heartbeat, .calls 1 2 0 failingHeartbeat,
    .calls 0 1 0 sampleVenue]

/-- A startup takes a HALTED service to READY. -/
theorem halt_not_latched :
    ∃ s, sampleCoordinator.Reaches samplePaperStore (fun _ _ _ => True) s ∧
      ∃ after mid before ready halt, s.history = after ++ ready :: (mid ++ halt :: before) ∧
        Writes .ready ready.entry ∧ Writes .halted halt.entry ∧
          (∀ e ∈ mid, ¬ Writes .ready e.entry) ∧ ¬ ResumedIn mid ready := by
  have hsample : (sampleCoordinator.execute samplePaperStore (fun _ _ => true)
      lostHaltSchedule System.initial).any (fun s => readyAfterHalt s.history &&
        s.history.head?.any fun e => match e.task with | .main => true | _ => false) = true := by
    decide +kernel
  obtain ⟨s, h, htest⟩ := Coordinator.exists_of_execute (fun _ _ _ _ => trivial) hsample
  obtain ⟨hsplit, hmain⟩ := (Bool.and_eq_true _ _).mp htest
  obtain ⟨ready, mid, halt, before, hhistory, hready, hhalt, hmid⟩ := readyAfterHalt_split hsplit
  refine ⟨s, h, [], mid, before, ready, halt, hhistory, hready, hhalt, hmid, ?_⟩
  rintro ⟨⟨actorId, key, reason, htask⟩, -⟩
  rw [hhistory] at hmain
  simp [htask] at hmain

def resumeSchedule : List Move :=
  [.arrive .main, .calls 0 22 0 sampleVenue, .arrive (.halt "operator" "halt" "pause"),
    .calls 1 2 0 sampleVenue, .arrive (.resume "operator" "resume" "go on"),
    .calls 2 15 0 sampleVenue]

/-- The resume of the schedule reconciled after the halt. -/
theorem halt_latched_resume :
    ∃ s ready mid, sampleCoordinator.Reaches samplePaperStore KeepsHalt s ∧
      s.history.head? = some ready ∧ ResumedIn mid ready := by
  have hsample : (sampleCoordinator.execute samplePaperStore
      (fun m e => KeepsHalt m .main e) resumeSchedule System.initial).any
        (fun s => readyAfterHalt s.history) = true := by
    decide +kernel
  obtain ⟨s, h, htest⟩ := Coordinator.exists_of_execute
    (fun m _ e he => (of_decide_eq_true he : KeepsHalt m .main e)) hsample
  obtain ⟨ready, mid, halt, before, hhistory, hready, hhalt, hmid⟩ := readyAfterHalt_split htest
  have hresumed := halt_latched h (hhistory.trans (List.nil_append _).symm) hready hhalt hmid
  exact ⟨s, ready, mid, h, by rw [hhistory]; rfl, hresumed⟩

end OddsfoxExecution
