import OddsfoxExecution.AtMostOnce
import OddsfoxExecution.Store.Stages

/-!
# The outcome of a submission

From the commit of `begin_submission` on only the worker that began can take the
order out of SUBMITTING, by recording what the venue answered.  The answer is
validated in that same transaction; where the store refuses it,
`submit_prepared` returns an error and the order stays SUBMITTING.
-/

namespace OddsfoxExecution

/-- The order of a submission whose outcome is not recorded. -/
def InFlight (db : Db) (intentId orderId : Uuid) : Prop :=
  ∃ o ∈ db.orders, o.id = orderId ∧ o.intentId = intentId ∧ o.state = .submitting

/-- Since its submission began the worker has kept the safety gate and recorded no outcome. -/
structure StillOpen (later : Calls) : Prop where
  gated : ∀ e ∈ later, e.1 ≠ .unlock .safety
  open' : ∀ (call : StoreCall) (value : call.Value), call.concludes = true → done call value ∉ later

theorem StillOpen.tail {e : Sigma Call.Answer} {later : Calls} (h : StillOpen (e :: later)) :
    StillOpen later where
  gated := fun e' he' => h.gated e' (List.mem_cons_of_mem _ he')
  open' := fun call value hcall hmem => h.open' call value hcall (List.mem_cons_of_mem _ hmem)

theorem holds_until {gate : Gate} {later earlier : Calls} (h : Holds gate earlier)
    (hlater : ∀ e ∈ later, e.1 ≠ .unlock gate) : Holds gate (later ++ earlier) := by
  induction later with
  | nil => exact h
  | cons e later ih =>
    have hrest := ih fun e' he' => hlater e' (List.mem_cons_of_mem _ he')
    have he := hlater e List.mem_cons_self
    obtain ⟨c, r⟩ := e
    cases c with
    | lock g => exact Or.inr hrest
    | unlock g => exact ⟨fun hg => he (by rw [hg]), hrest⟩
    | _ => exact hrest

/-- An operation that ends a submission is made under the safety gate. -/
theorem StorePromise.concludes_gated {task : Task} {made : Calls} {call : StoreCall}
    (h : StorePromise task made call) (hcall : call.concludes = true) : Holds .safety made := by
  cases call with
  | finishSubmission => exact h.2.1
  | recoverInterruptedSubmissions => exact h.2.1
  | _ => cases hcall

/-! ## What the worker's answer leads to -/

/-- The evidence of the venue's answer, if it is one the store accepts for the order. -/
def Accountable (order : OrderRecord) (answer : VenueAnswer VenueSubmission) : Prop :=
  ∀ submission, answer = .ok submission →
    validateVenueOrderEvidence order.originalQuantity submission.state
      (submissionRemaining order.originalQuantity submission.state submission.filledQuantity)
      submission.filledQuantity submission.filledPrice = .ok ()

theorem finishSubmission_accepted {db : Db} {intentId orderId : Uuid} {intentState : IntentState}
    {state : OrderState} {venueOrderId : Option String} {cls : String} {filled : Decimal}
    {price : Option Decimal} {ids : List String} {now : Time} (hs : Coherent db.lifecycle)
    {o : OrderRecord} (ho : o ∈ db.orders) (hid : o.id = orderId) (howner : o.intentId = intentId)
    (hstate : o.state = .submitting)
    (hintent : intentState = .submitted ∨ intentState = .unknown) :
    (∃ r, finishSubmission intentId orderId intentState state venueOrderId cls filled price ids now
        db = .ok r) ↔
      validateVenueOrderEvidence o.originalQuantity state
        (submissionRemaining o.originalQuantity state filled) filled price = .ok () := by
  have hat : OrderRecord.AtPair orderId intentId .submitting o := ⟨hid, howner, hstate⟩
  have hfind : db.orders.find? (fun o => OrderRecord.AtPair orderId intentId .submitting o) =
      some o := by
    obtain ⟨o', ho', hat'⟩ : ∃ o', db.orders.find? (fun o =>
        OrderRecord.AtPair orderId intentId .submitting o) = some o' ∧
          OrderRecord.AtPair orderId intentId .submitting o' := by
      cases hfound : db.orders.find? fun o => OrderRecord.AtPair orderId intentId .submitting o with
      | none =>
        have hnone := List.find?_eq_none.mp hfound o ho
        exact absurd (decide_eq_true hat) hnone
      | some o' =>
        have hfound' := List.find?_some hfound
        exact ⟨o', rfl, of_decide_eq_true hfound'⟩
    rw [ho', Table.eq_of_key_eq hs.orderIds (List.mem_of_find?_eq_some ho') ho
      (hat'.1.trans hid.symm)]
  have horders : Table.rowsAffected (OrderRecord.AtPair orderId intentId .submitting) db.orders =
      1 := by
    exact Table.rowsAffected_eq_one_of_mem hs.orderIds ho hat fun other hother =>
      hother.1.trans hid.symm
  have hintents : Table.rowsAffected (IntentRecord.At intentId .submitting) db.intents = 1 := by
    obtain ⟨i, hi, hiid, hpaired⟩ := hs.paired o ho
    rw [hstate, paired_submitting] at hpaired
    refine Table.rowsAffected_eq_one_of_mem hs.intentIds hi ⟨hiid.trans howner, hpaired⟩ ?_
    exact fun other hother => hother.1.trans (hiid.trans howner).symm
  have hguard : ¬ (intentState ≠ .submitted ∧ intentState ≠ .unknown) := by
    rintro ⟨hsubmitted, hunknown⟩
    rcases hintent with h | h <;> contradiction
  unfold finishSubmission
  rw [if_neg hguard]
  simp only [hfind, hintents, horders, ne_eq, not_true_eq_false, or_self, if_false]
  constructor
  · rintro ⟨r, hrun⟩
    split at hrun
    · cases hrun
    · assumption
  · intro hvalid
    rw [hvalid]
    exact ⟨_, rfl⟩

/-- An error of the venue can always be recorded: as UNKNOWN with nothing filled, or as REJECTED. -/
theorem error_evidence {original : Decimal} (hpositive : 0 < original) :
    validateVenueOrderEvidence original .unknown (submissionRemaining original .unknown 0) 0 none =
        .ok () ∧
      validateVenueOrderEvidence original .rejected (submissionRemaining original .rejected 0) 0
        none = .ok () := by
  constructor
  · simp [validateVenueOrderEvidence, submissionRemaining, OrderState.terminal, hpositive.le,
      hpositive]
  · simp [validateVenueOrderEvidence, submissionRemaining, OrderState.terminal, hpositive.le,
      hpositive]

/-- The store takes the record of an answer exactly if it accepts its evidence. -/
theorem recordedCall_accepted {config : StoreConfig} {now : Time} {db : Db}
    {intentId orderId : Uuid} {prepared : PreparedVenueOrder}
    {answer : VenueAnswer VenueSubmission} (hs : Coherent db.lifecycle) {o : OrderRecord}
    (ho : o ∈ db.orders) (hid : o.id = orderId) (howner : o.intentId = intentId)
    (hstate : o.state = .submitting) :
    (∃ r, (recordedCall intentId orderId prepared (submissionResult answer)).run config now db =
      .ok r) ↔ Accountable o answer := by
  obtain ⟨hunknown, hrejected⟩ := error_evidence (hs.positive o ho)
  have herror : ∀ e, submissionResult answer = .error e →
      ∀ submission, answer ≠ .ok submission := by
    rintro e he submission rfl
    cases he
  cases hresult : submissionResult answer with
  | ok submission =>
    have hanswer : answer = .ok submission := by
      cases answer with
      | ok value =>
        cases hresult
        rfl
      | error e => cases hresult
      | timeout => cases hresult
    refine (finishSubmission_accepted hs ho hid howner hstate (Or.inl rfl)).trans ?_
    subst hanswer
    simp [Accountable]
  | error e =>
    have haccountable : Accountable o answer := fun submission h =>
      absurd h (herror e hresult submission)
    simp only [haccountable, iff_true]
    by_cases hambiguous : e.isAmbiguous = true
    · have hcall : recordedCall intentId orderId prepared (.error e) =
          .finishSubmission intentId orderId .unknown .unknown
            (some prepared.deterministicOrderId) "AMBIGUOUS" 0 none [] := by
        simp [recordedCall, hambiguous]
      rw [hcall]
      change ∃ r, finishSubmission intentId orderId .unknown .unknown
        (some prepared.deterministicOrderId) "AMBIGUOUS" 0 none [] now db = .ok r
      exact (finishSubmission_accepted hs ho hid howner hstate (Or.inr rfl)).mpr hunknown
    · have hcall : recordedCall intentId orderId prepared (.error e) =
          .finishSubmission intentId orderId .submitted .rejected none "DEFINITIVE_REJECTION" 0
            none [] := by
        simp [recordedCall, hambiguous]
      rw [hcall]
      change ∃ r, finishSubmission intentId orderId .submitted .rejected none
        "DEFINITIVE_REJECTION" 0 none [] now db = .ok r
      exact (finishSubmission_accepted hs ho hid howner hstate (Or.inl rfl)).mpr hrejected

theorem recordedCall_leaves {config : StoreConfig} {now : Time} {db : Db} {intentId orderId : Uuid}
    {prepared : PreparedVenueOrder} {result : Except VenueError VenueSubmission} {call : StoreCall}
    (hcall : call = recordedCall intentId orderId prepared result) {run : Committed call.Value}
    (hrun : call.run config now db = .ok run) :
    ∃ o ∈ run.db.orders, o.id = orderId ∧ o.state.stage = 2 := by
  obtain ⟨_, _, _, _, _, _, _, hfinish⟩ :=
    Coordinator.recordedCall_eq intentId orderId prepared result
  rw [hfinish] at hcall
  subst hcall
  exact finishSubmission_leaves hrun

theorem leavesUnknown_of_ambiguous {intentId orderId : Uuid} {prepared : PreparedVenueOrder}
    {e : VenueError} (hambiguous : e.isAmbiguous = true) {call : StoreCall}
    (hcall : call = recordedCall intentId orderId prepared (.error e)) (value : call.Value)
    (made : Calls) : LeavesUnknown (done call value :: made) := by
  simp only [recordedCall, hambiguous, if_true] at hcall
  subst hcall
  rfl

namespace Coordinator.Reaches

variable {self : Coordinator} {config : StoreConfig} {guard : CallGuard} {s : System} {t : Nat}
  {intentId orderId : Uuid}

/-- A worker that has begun a submission has held the safety gate since. -/
theorem begun_gated (h : self.Reaches config guard s) {task : Task} {later earlier : Calls}
    {rest : Prog Call Call.Answer (Except CoordinatorError Unit)}
    (ht : s.threads t =
      some ⟨task, later ++ done (.beginSubmission intentId orderId) () :: earlier, rest⟩)
    (hlater : ∀ e ∈ later, e.1 ≠ .unlock .safety) :
    Holds .safety (later ++ done (.beginSubmission intentId orderId) () :: earlier) := by
  obtain ⟨after, b, before, hhistory, rfl, hentry, -, rfl⟩ :=
    ownCalls_split (h.consistent.own t _ ht)
  have hpromise := (h.kept hhistory).call
  rw [hentry] at hpromise
  have hholds : Holds .safety
      (done (.beginSubmission intentId orderId) () :: ownCalls b.thread before) := hpromise.2
  exact holds_until hholds hlater

/-- An operation that ends no submission keeps an order SUBMITTING, and so does a failed one. -/
theorem in_flight_kept (h : self.Reaches config guard s) {task : Task} {made : Calls} {c : Call}
    {next : c.Answer → Prog Call Call.Answer (Except CoordinatorError Unit)}
    (ht : s.threads t = some ⟨task, made, .call c next⟩) {r : c.Answer} {memory : Memory}
    (hanswer : c.answers config s.memory t r memory) (hopen : InFlight s.memory.db intentId orderId)
    (hconcludes : ∀ (call : StoreCall) (value : call.Value), call.concludes = true →
      (⟨c, r⟩ : Sigma Call.Answer) ≠ done call value) : InFlight memory.db intentId orderId := by
  by_cases hstore : ∃ call, c = .store call
  · obtain ⟨call, rfl⟩ := hstore
    obtain ⟨now, rfl, rfl⟩ := hanswer
    cases hcall : call.concludes with
    | false =>
      obtain ⟨o, ho, hid, howner, hstate⟩ := hopen
      obtain ⟨o', ho', hterms, hstate'⟩ :=
        @StoreCall.submitting_kept config now _ _ _ h.leads (h.allowed ht) hcall _ ho hstate
      exact ⟨o', ho', hterms.1.trans hid, hterms.2.1.trans howner, hstate'⟩
    | true =>
      cases hrun : call.run config now s.memory.db with
      | error e => simpa [StoreCall.after, hrun] using hopen
      | ok r =>
        refine absurd ?_ (hconcludes call r.value hcall)
        simp [StoreCall.answer, hrun, Except.map]
  · obtain ⟨hdb, -⟩ := Call.answers_db hanswer fun call heq => hstore ⟨call, heq⟩
    rwa [hdb]

/-- Until the worker records an outcome or drops the safety gate, its order stays SUBMITTING. -/
theorem in_flight (h : self.Reaches config guard s) {later earlier : Calls}
    {rest : Prog Call Call.Answer (Except CoordinatorError Unit)}
    (ht : s.threads t = some ⟨.worker intentId,
      later ++ done (.beginSubmission intentId orderId) () :: earlier, rest⟩)
    (hlater : StillOpen later) : InFlight s.memory.db intentId orderId := by
  induction h generalizing later earlier rest with
  | start => cases ht
  | @call p t₀ task made c next r memory hp ht₀ hanswer hguard ih =>
    have hp : self.Reaches config guard p := hp
    rcases Pool.perform_threads ht with ⟨rfl, heq⟩ | ⟨hne, hold⟩
    · injection heq with htask hmade hrest
      subst htask
      cases later with
      | nil =>
        -- the submission has just begun
        obtain ⟨hentry, rfl⟩ := List.cons.inj hmade
        cases hentry
        obtain ⟨now, run, hrun, -, hdb⟩ :=
          Call.answers_done (t := t) (.beginSubmission intentId orderId) hanswer
        obtain ⟨o, ho, hat⟩ := (beginSubmission_ok hrun).order'
        exact ⟨o, hdb ▸ ho, hat⟩
      | cons e later =>
        obtain ⟨rfl, rfl⟩ := List.cons.inj hmade
        refine hp.in_flight_kept ht₀ hanswer (ih ht₀ hlater.tail) fun call value hcall heq => ?_
        exact hlater.open' call value hcall (heq ▸ List.mem_cons_self)
    · refine hp.in_flight_kept ht₀ hanswer (ih hold hlater) fun call value hcall heq => ?_
      -- another task would need the gate the worker holds
      cases heq
      have hother : Holds .safety made :=
        StorePromise.concludes_gated (hp.promised ht₀).1.call hcall
      have hown := hp.begun_gated hold hlater.gated
      exact hne (hp.holder_unique ⟨_, hold, hown⟩ ⟨_, ht₀, hother⟩)
  | @arrive p task memory hp harrives ih =>
    rcases Pool.add_threads ht with ⟨-, heq⟩ | hold
    · injection heq with _ hmade
      simp at hmade
    · obtain ⟨hdb, -, -⟩ := Task.arrives_frame harrives
      change InFlight memory.db _ _
      rw [hdb]
      exact ih hold hlater
  | drop _ _ _ ih => exact ih (Pool.remove_threads ht).2 hlater
  | surroundings _ hchange ih =>
    obtain ⟨_, ⟨_, _, _, _, _, _, rfl⟩, rfl⟩ := hchange
    exact ih ht hlater
  | crash => exact absurd ht Pool.crash_threads

/-- The worker records the answer of the venue with its next call. -/
theorem answer_recorded (h : self.Reaches config guard s) {prepared : PreparedVenueOrder}
    {request : OrderIntentRequest} {answer : VenueAnswer VenueSubmission} {later earlier : Calls}
    {rest : Prog Call Call.Answer (Except CoordinatorError Unit)}
    (ht : s.threads t = some ⟨.worker intentId, later ++ asked (.submit prepared request) answer ::
      done (.beginSubmission intentId orderId) () :: earlier, rest⟩) (hlater : later ≠ []) :
    ∃ x since, later = since ++ [x] ∧
      x.1 = .store (recordedCall intentId orderId prepared (submissionResult answer)) := by
  obtain ⟨since, x, rfl⟩ : ∃ since x, later = since ++ [x] :=
    ⟨_, _, (List.dropLast_append_getLast hlater).symm⟩
  refine ⟨x, since, rfl, ?_⟩
  have hown := h.consistent.own t _ ht
  rw [List.append_assoc, List.singleton_append] at hown
  obtain ⟨after, e, before, hhistory, rfl, rfl, -, hbefore⟩ := ownCalls_split hown
  have hpromise := h.kept hhistory
  rw [hbefore] at hpromise
  have hcarries := hpromise.submitting trivial
  have hcall := hpromise.call
  unfold Call.carriesOn at hcarries
  split at hcarries
  · rename_i hentry
    rw [hentry] at hcall
    obtain ⟨_, _, _, hmade, -⟩ := hcall
    cases hmade
  · rename_i hentry
    rw [hentry] at hcall ⊢
    obtain ⟨-, -, _, _, _, _, hmade, hrecorded⟩ := hcall
    cases hmade
    rw [hrecorded]
  · cases hcarries

/-- A worker that has recorded the outcome of its submission commits no other. -/
theorem outcome_once (h : self.Reaches config guard s) {prepared : PreparedVenueOrder}
    {answer : VenueAnswer VenueSubmission} {x y : Sigma Call.Answer} {since earlier : Calls}
    {rest : Prog Call Call.Answer (Except CoordinatorError Unit)}
    (ht : s.threads t = some ⟨.worker intentId, since ++ x :: y ::
      done (.beginSubmission intentId orderId) () :: earlier, rest⟩)
    (hx : x.1 = .store (recordedCall intentId orderId prepared (submissionResult answer)))
    (call : StoreCall) (value : call.Value) (hcall : call.concludes = true) :
    done call value ∉ since := by
  intro hmem
  obtain ⟨a, b, rfl⟩ := List.append_of_mem hmem
  have hown := h.consistent.own t _ ht
  rw [List.append_assoc, List.cons_append] at hown
  obtain ⟨after, e, before, hhistory, rfl, hentry, -, hbefore⟩ := ownCalls_split hown
  have htask : e.task = .worker intentId :=
    h.consistent.task _ _ ht e (hhistory ▸ List.mem_append_right _ List.mem_cons_self) rfl
  have hpromise := (h.kept hhistory).call
  rw [hentry, hbefore, htask] at hpromise
  cases call with
  | finishSubmission id order =>
    obtain ⟨htask', -, prepared', request', answer', earlier', hmade, -⟩ := hpromise
    cases htask'
    -- the begin that outcome follows comes after the one `x` follows
    match b, hbefore, hmade with
    | [], _, hmade =>
      rw [(List.cons.inj hmade).1] at hx
      cases hx
    | [_], _, hmade =>
      rw [(List.cons.inj (List.cons.inj hmade).2).1] at hx
      obtain ⟨_, _, _, _, _, _, _, hfinish⟩ :=
        recordedCall_eq intentId orderId prepared (submissionResult answer)
      rw [hfinish] at hx
      cases hx
    | b₁ :: b₂ :: b, hbefore, hmade =>
      obtain ⟨hsubmit, hmade⟩ := List.cons.inj hmade
      obtain ⟨hbegin, -⟩ := List.cons.inj hmade
      rw [hsubmit, hbegin] at hbefore
      obtain ⟨mid, begun, first, rfl, hthread, hbegun, -, hfirst⟩ :=
        ownCalls_split (a := [asked (.submit prepared' request') answer']) hbefore
      have hearlier : done (.beginSubmission intentId orderId) () ∈ ownCalls e.thread first := by
        rw [hfirst]
        simp
      obtain ⟨old, hold, -, holdEntry⟩ := mem_ownCalls.mp hearlier
      have hsplit : s.history = (after ++ e :: mid) ++ begun :: first := by simp [hhistory]
      exact h.begun_once hsplit hbegun hold holdEntry
  | recoverInterruptedSubmissions => cases hpromise.1
  | _ => cases hcall

end Coordinator.Reaches

/-! ## The outcome -/

/-- A worker is about to drop the first gate since the venue answered its submission: its
`submit_prepared` has returned. -/
def Returned (s : System) (t : Nat) (intentId orderId : Uuid)
    (answer : VenueAnswer VenueSubmission) (later : Calls) : Prop :=
  (∀ e ∈ later, ∀ gate, e.1 ≠ .unlock gate) ∧
    ∃ (prepared : PreparedVenueOrder) (request : OrderIntentRequest) (earlier : Calls)
      (gate : Gate) (next : Unit → Prog Call Call.Answer (Except CoordinatorError Unit)),
      s.threads t = some ⟨.worker intentId, later ++ asked (.submit prepared request) answer ::
        done (.beginSubmission intentId orderId) () :: earlier, .call (.unlock gate) next⟩

/-- The worker recorded the answer: the response as it is, a definitive error as REJECTED, an
ambiguous one as UNKNOWN with HALTED written after it. -/
def Recorded (intentId orderId : Uuid) (answer : VenueAnswer VenueSubmission) (later : Calls) :
    Prop :=
  (∃ prepared value,
      done (recordedCall intentId orderId prepared (submissionResult answer)) value ∈ later) ∧
    ∀ e, submissionResult answer = .error e → e.isAmbiguous = true →
      done (.setServiceState "system" .halted "ambiguous venue submission" none none) () ∈ later

/-- The order and its intent have left SUBMITTING: the answer is on record, with evidence the
store accepts. -/
structure Accounted (db : Db) (intentId : Uuid) (order : OrderRecord)
    (answer : VenueAnswer VenueSubmission) (later : Calls) : Prop where
  orderLeft : order.state ≠ .submitting
  intentLeft : ∀ i ∈ db.intents, i.id = intentId → i.state ≠ .submitting
  recorded : Recorded intentId order.id answer later
  evidence : Accountable order answer

namespace Coordinator.Reaches

variable {self : Coordinator} {config : StoreConfig} {guard : CallGuard} {s : System} {t : Nat}
  {intentId orderId : Uuid}

theorem ambiguous_halted (h : self.Reaches config guard s) {c : Call}
    {next : c.Answer → Prog Call Call.Answer (Except CoordinatorError Unit)} {since made : Calls}
    (ht : s.threads t = some ⟨.worker intentId, since ++ made, .call c next⟩)
    (hleft : LeavesUnknown made) (hc : c ≠ ambiguousHalt) :
    done (.setServiceState "system" .halted "ambiguous venue submission" none none) () ∈ since := by
  rcases List.eq_nil_or_concat since with rfl | ⟨since, ⟨c', r⟩, rfl⟩
  · exact absurd ((h.promised ht).1.halting hleft) hc
  · have hown := h.consistent.own t _ ht
    rw [List.concat_eq_append, List.append_assoc, List.singleton_append] at hown
    obtain ⟨after, e, before, hhistory, rfl, hentry, -, rfl⟩ := ownCalls_split hown
    have hhalts := (h.kept hhistory).halting hleft
    rw [hentry] at hhalts
    obtain rfl : c' = ambiguousHalt := hhalts
    -- a control write that expects no revision never fails
    obtain ⟨-, now, rfl, -⟩ :=
      h.recorded e (hhistory ▸ List.mem_append_right _ List.mem_cons_self) _ r hentry
    have haccepted : (StoreCall.setServiceState "system" .halted "ambiguous venue submission" none
        none).answer config now e.found.db = .ok () := rfl
    rw [haccepted, List.concat_eq_append]
    exact List.mem_append_right _ List.mem_cons_self

/-- The moment at which the worker recorded the answer: the order was SUBMITTING, and the store
took the record exactly if it accepts the evidence. -/
theorem recording (h : self.Reaches config guard s) {prepared : PreparedVenueOrder}
    {request : OrderIntentRequest} {answer : VenueAnswer VenueSubmission}
    {since earlier : Calls} {x : Sigma Call.Answer}
    {rest : Prog Call Call.Answer (Except CoordinatorError Unit)}
    (ht : s.threads t = some ⟨.worker intentId,
      since ++ x :: asked (.submit prepared request) answer ::
        done (.beginSubmission intentId orderId) () :: earlier, rest⟩)
    (hx : x.1 = .store (recordedCall intentId orderId prepared (submissionResult answer)))
    {o : OrderRecord} (ho : o ∈ s.memory.db.orders) (hid : o.id = orderId) :
    o.intentId = intentId ∧
      (Accountable o answer → ∃ value, x = done (recordedCall intentId orderId prepared
        (submissionResult answer)) value) ∧
      ((∃ value,
        x = done (recordedCall intentId orderId prepared (submissionResult answer)) value) →
        Accountable o answer ∧ o.state ≠ .submitting) := by
  obtain ⟨c, r⟩ := x
  obtain rfl : c = _ := hx
  obtain ⟨after, e, before, hhistory, rfl, hentry, -, hbefore⟩ :=
    ownCalls_split (h.consistent.own t _ ht)
  have hevent : e ∈ s.history := hhistory ▸ List.mem_append_right _ List.mem_cons_self
  have htask : e.task = .worker intentId := h.consistent.task _ _ ht e hevent rfl
  obtain ⟨p, next, memory, hp, hmemory, rfl, hpt, -⟩ := h.moment hhistory
  have hp : self.Reaches config guard p := hp
  rw [hbefore, htask] at hpt
  -- the order was SUBMITTING when the answer was recorded
  obtain ⟨o₀, ho₀, hid₀, howner₀, hstate₀⟩ : InFlight p.memory.db intentId orderId := by
    refine @in_flight _ _ _ _ _ _ _ hp [asked (.submit prepared request) answer] _ _ hpt ⟨?_, ?_⟩
    · simp
    · simp
  have hcoherent := hp.coherent
  rw [hmemory] at ho₀ hcoherent
  obtain ⟨hpast, now, rfl, hafter⟩ := h.recorded e hevent _ r hentry
  -- the order has had the same terms since
  obtain ⟨o', ho', hterms⟩ := h.leads.order hpast ho₀
  obtain rfl : o = o' :=
    Table.eq_of_key_eq h.coherent.orderIds ho ho' (hid.trans (hterms.1.trans hid₀).symm)
  have hsame : Accountable o answer ↔ Accountable o₀ answer := by
    simp only [Accountable, hterms.2.2.2.2.2.2]
  have haccepted := @recordedCall_accepted config now e.found.db intentId orderId prepared answer
    hcoherent o₀ ho₀ hid₀ howner₀ hstate₀
  rw [hsame, ← haccepted]
  refine ⟨hterms.2.1.trans howner₀, ?_, ?_⟩
  · rintro ⟨run, hrun⟩
    exact ⟨run.value, by simp [done, StoreCall.answer, hrun, Except.map]⟩
  · rintro ⟨value, hvalue⟩
    have hok : (Except.ok value : Except StoreError _) =
        (recordedCall intentId orderId prepared (submissionResult answer)).answer config now
          e.found.db := by
      injection hvalue with _ hanswer
      exact hanswer.symm
    obtain ⟨run, hrun, -, hdb⟩ := StoreCall.answer_ok hok
    refine ⟨⟨run, hrun⟩, ?_⟩
    -- the record took the order out of SUBMITTING, for good
    obtain ⟨o₁, ho₁, hid₁, hstage₁⟩ := recordedCall_leaves rfl hrun
    obtain ⟨o₂, ho₂, hterms₂, hle⟩ := h.storeRun.stage_le run.db (hdb ▸ hafter) o₁ ho₁
    obtain rfl : o = o₂ :=
      Table.eq_of_key_eq h.coherent.orderIds ho ho₂ (hid.trans (hterms₂.1.trans hid₁).symm)
    intro hsubmitting
    rw [hstage₁, hsubmitting] at hle
    exact absurd hle (by decide)

end Coordinator.Reaches

/-- When `submit_prepared` returns, in a run of any length over any number of processes, the order
and the intent have left SUBMITTING with the venue's answer on record exactly if the answer is an
error or its evidence is one the store accepts; else the order is still SUBMITTING. -/
theorem submission_accounted_iff {self : Coordinator} {config : StoreConfig} {guard : CallGuard}
    {s : System} (h : self.Reaches config guard s) {t : Nat} {intentId : Uuid} {o : OrderRecord}
    (ho : o ∈ s.memory.db.orders) {answer : VenueAnswer VenueSubmission} {later : Calls}
    (hreturned : Returned s t intentId o.id answer later) :
    (Accounted s.memory.db intentId o answer later ↔ Accountable o answer) ∧
      (¬ Accountable o answer → o.state = .submitting) := by
  obtain ⟨hunlocked, prepared, request, earlier, gate, next, ht⟩ := hreturned
  have hlater : later ≠ [] := by
    rintro rfl
    exact absurd ((h.promised ht).1.submitting trivial) (by simp [Call.carriesOn])
  obtain ⟨x, since, rfl, hx⟩ := h.answer_recorded ht hlater
  rw [List.append_assoc, List.singleton_append] at ht
  obtain ⟨howner, haccepted, hleft⟩ := h.recording ht hx ho rfl
  refine ⟨⟨Accounted.evidence, fun haccountable => ?_⟩, fun hrefused => ?_⟩
  · obtain ⟨value, hvalue⟩ := haccepted haccountable
    obtain ⟨-, hstate⟩ := hleft ⟨value, hvalue⟩
    refine ⟨hstate, fun i hi hid hsubmitting => ?_, ⟨⟨prepared, value, by simp [hvalue]⟩, ?_⟩,
      haccountable⟩
    · have hpaired := h.coherent.paired_of_mem hi ho (howner.trans hid.symm)
      rw [hsubmitting, paired_submitting_left] at hpaired
      exact hstate hpaired
    · intro e hresult hambiguous
      have hleaves : LeavesUnknown (x :: asked (.submit prepared request) answer ::
          done (.beginSubmission intentId o.id) () :: earlier) := by
        rw [hvalue]
        exact leavesUnknown_of_ambiguous hambiguous (by rw [hresult]) value _
      exact List.mem_append_left _ (h.ambiguous_halted ht hleaves fun hcall => nomatch hcall)
  · have hopen : StillOpen (since ++ [x, asked (.submit prepared request) answer]) := by
      refine ⟨fun e he => ?_, fun call value hcall hmem => ?_⟩
      · rw [List.append_cons, List.mem_append, List.mem_singleton] at he
        rcases he with he | rfl
        · exact hunlocked e he .safety
        · exact fun hunlock => nomatch hunlock
      · rw [List.append_cons, List.mem_append, List.mem_append, List.mem_singleton,
          List.mem_singleton] at hmem
        rcases hmem with (hsince | hlast) | hasked
        · exact h.outcome_once ht hx call value hcall hsince
        · rw [← hlast] at hx
          obtain rfl : call = _ := by injection hx
          exact hrefused (hleft ⟨value, hlast.symm⟩).1
        · cases hasked
    obtain ⟨o', ho', hid, -, hstate⟩ := @Coordinator.Reaches.in_flight _ _ _ _ _ _ _ h _ earlier _
      (by simpa using ht) hopen
    rwa [Table.eq_of_key_eq h.coherent.orderIds ho ho' hid.symm]

/-! ## Two submissions -/

/-- The calls since a submission was answered, with the answer, while no gate was dropped. -/
def sinceAnswer : Calls → Option (Calls × VenueAnswer VenueSubmission × Uuid × Uuid)
  | ⟨.venue (.submit _ _), answer⟩ :: ⟨.store (.beginSubmission intentId orderId), .ok ()⟩ :: _ =>
    some ([], answer, intentId, orderId)
  | ⟨.unlock _, _⟩ :: _ => none
  | e :: made => (sinceAnswer made).map fun found => (e :: found.1, found.2)
  | [] => none

theorem sinceAnswer_spec {made later : Calls} {answer : VenueAnswer VenueSubmission}
    {intentId orderId : Uuid} (h : sinceAnswer made = some (later, answer, intentId, orderId)) :
    (∀ e ∈ later, ∀ gate, e.1 ≠ .unlock gate) ∧ ∃ prepared request earlier,
      made = later ++ asked (.submit prepared request) answer ::
        done (.beginSubmission intentId orderId) () :: earlier := by
  induction made generalizing later with
  | nil => cases h
  | cons e made ih =>
    unfold sinceAnswer at h
    split at h
    · rename_i prepared request _ _ _ earlier heq
      cases h
      exact ⟨fun _ he => (nomatch he), prepared, request, earlier, heq⟩
    · cases h
    · rename_i hsubmit hunlock heq
      obtain ⟨rfl, rfl⟩ := List.cons.inj heq
      obtain ⟨⟨later', _, _, _⟩, hfound, heq⟩ := Option.map_eq_some_iff.mp h
      cases heq
      obtain ⟨hnone, prepared, request, earlier, rfl⟩ := ih hfound
      refine ⟨?_, prepared, request, earlier, rfl⟩
      intro e' he' gate hgate
      rcases List.mem_cons.mp he' with rfl | he'
      · obtain ⟨c, r⟩ := e'
        obtain rfl : c = .unlock gate := hgate
        exact hunlock gate r rfl
      · exact hnone e' he' gate hgate
    · cases h

/-- The order of a submission a worker has returned from passes the test. -/
def returns (s : System) (t : Nat) (test : OrderRecord → Bool) : Bool :=
  match s.threads t with
  | some ⟨.worker id, made, .call (.unlock _) _⟩ =>
    (sinceAnswer made).any fun found =>
      decide (id = found.2.2.1) && s.memory.db.orders.any fun o =>
        decide (o.id = found.2.2.2) && test o
  | _ => false

theorem returns_spec {s : System} {t : Nat} {test : OrderRecord → Bool}
    (h : returns s t test = true) : ∃ intentId answer later, ∃ o ∈ s.memory.db.orders,
      Returned s t intentId o.id answer later ∧ test o = true := by
  unfold returns at h
  split at h
  · rename_i id made gate next ht
    obtain ⟨⟨later, answer, intentId, orderId⟩, hfound, htest⟩ := (Option.any_eq_true _ _).mp h
    simp only [Bool.and_eq_true, decide_eq_true_eq, List.any_eq_true] at htest
    obtain ⟨rfl, o, ho, rfl, htest⟩ := htest
    obtain ⟨hunlocked, prepared, request, earlier, rfl⟩ := sinceAnswer_spec hfound
    exact ⟨id, answer, later, o, ho, ⟨hunlocked, prepared, request, earlier, gate, next, ht⟩, htest⟩
  · cases h

/-- A worker that runs up to the return of `submit_prepared`, for a venue that answers as given. -/
def returnedSchedule (venue : VenueScript) : List Move :=
  [.arrive .main, .calls 0 22 0 sampleVenue,
    .arrive (.submitIntent "operator" "first" sampleRequest), .calls 1 4 0 sampleVenue,
    .arrive (.worker 6), .calls 2 21 0 venue]

theorem exists_of_returned {venue : VenueScript} {test : OrderRecord → Bool}
    (h : (sampleCoordinator.execute samplePaperStore (fun _ _ => true) (returnedSchedule venue)
      System.initial).any (fun s => returns s 2 test) = true) :
    ∃ s, sampleCoordinator.Reaches samplePaperStore (fun _ _ _ => True) s ∧
      ∃ intentId answer later, ∃ o ∈ s.memory.db.orders,
        Returned s 2 intentId o.id answer later ∧ test o = true := by
  obtain ⟨s, hs, hreturns⟩ := Coordinator.exists_of_execute (fun _ _ _ _ => trivial) h
  exact ⟨s, hs, returns_spec hreturns⟩

/-- A submission the venue acknowledges as resting is accounted for. -/
theorem submission_accounted_iff_resting :
    ∃ s, sampleCoordinator.Reaches samplePaperStore (fun _ _ _ => True) s ∧
      ∃ intentId answer later, ∃ o ∈ s.memory.db.orders, o.state = .live ∧
        (Accounted s.memory.db intentId o answer later ↔ Accountable o answer) := by
  obtain ⟨s, hs, intentId, answer, later, o, ho, hreturned, hlive⟩ :=
    @exists_of_returned sampleVenue (fun o => o.state = .live) (by decide +kernel)
  exact ⟨s, hs, intentId, answer, later, o, ho, of_decide_eq_true hlive,
    (submission_accounted_iff hs ho hreturned).1⟩

/-- A venue that reports a fill of eleven shares for an order of ten. -/
def overfillingVenue : VenueScript
  | .submit .. => .ok ⟨"first", .filled, 11, some (1 / 2), ["trade"]⟩
  | call => sampleVenue call

/-- The store refuses the record of such an answer, and the order is left SUBMITTING by the worker
that goes on to its next intent. -/
theorem submission_left_submitting :
    ∃ s, sampleCoordinator.Reaches samplePaperStore (fun _ _ _ => True) s ∧
      ∃ intentId answer later, ∃ o ∈ s.memory.db.orders,
        Returned s 2 intentId o.id answer later ∧ o.state = .submitting ∧
          ¬ Accounted s.memory.db intentId o answer later := by
  obtain ⟨s, hs, intentId, answer, later, o, ho, hreturned, hstate⟩ :=
    @exists_of_returned overfillingVenue (fun o => o.state = .submitting) (by decide +kernel)
  exact ⟨s, hs, intentId, answer, later, o, ho, hreturned, of_decide_eq_true hstate,
    fun haccounted => haccounted.orderLeft (of_decide_eq_true hstate)⟩

end OddsfoxExecution
