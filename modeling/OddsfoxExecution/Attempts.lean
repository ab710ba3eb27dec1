import OddsfoxExecution.Store.Registry
import Mathlib.Data.Fintype.Basic

/-!
# Intent, order and submission attempt

Three tables encode the life of one submission.  An attempt is PREPARED or
SUBMITTING exactly when its order is, and UNKNOWN exactly when both the order
and the intent are.  Every operation keeps the three in step except one:
`transition_order` settles an UNKNOWN order, as the cancellation of an UNKNOWN
order does, and leaves the attempt UNKNOWN, where `resolve_unknown_submission`
makes it RESOLVED.
-/

namespace OddsfoxExecution

/-- The attempt is where the order and the intent say it is. -/
structure OrderFile.Matched (f : OrderFile) : Prop where
  prepared : f.attempt = some .prepared ↔ f.order = .prepared
  submitting : f.attempt = some .submitting ↔ f.order = .submitting
  unknown : f.attempt = some .unknown ↔ f.order = .unknown ∧ f.intent = some .unknown

/-- The three records of every intent with a prepared order are in step. -/
def Db.AttemptsMatch (db : Db) : Prop :=
  ∀ i ∈ db.intents, ∀ p ∈ db.preparedOrders, p.intentId = i.id →
    ∀ o ∈ db.orders, o.intentId = i.id → ∀ a ∈ db.submissionAttempts, a.preparedOrderId = p.id →
      (a.state = .prepared ↔ o.state = .prepared) ∧
      (a.state = .submitting ↔ o.state = .submitting) ∧
      (a.state = .unknown ↔ o.state = .unknown ∧ i.state = .unknown)

instance (db : Db) : Decidable db.AttemptsMatch := by
  unfold Db.AttemptsMatch
  infer_instance

/-! ## Files and rows -/

section Rows

variable {db : Db}

theorem file_of_rows (hs : Coherent db.lifecycle) {i : IntentRecord} (hi : i ∈ db.intents)
    {p : PreparedOrder} (hp : p ∈ db.preparedOrders) (hpi : p.intentId = i.id) {o : OrderRecord}
    (hoi : o.intentId = i.id) {a : SubmissionAttempt} (ha : a ∈ db.submissionAttempts)
    (hap : a.preparedOrderId = p.id) :
    (db.file o).states = (some i.state, o.state, some a.state) := by
  rw [OrderFile.states, Db.file, hoi, intentState_of_mem hs hi, ← hpi,
    attemptState_of_mem hs hp ha hap]

theorem exists_attempt (hs : Coherent db.lifecycle) {o : OrderRecord} (ho : o ∈ db.orders) :
    ∃ p ∈ db.preparedOrders, p.intentId = o.intentId ∧
      ∃ a ∈ db.submissionAttempts, a.preparedOrderId = p.id := by
  have hintents : db.preparedOrders.map PreparedOrder.intentId =
    db.orders.map OrderRecord.intentId := hs.preparedIntents
  have hattempts : db.submissionAttempts.map SubmissionAttempt.preparedOrderId =
    db.preparedOrders.map PreparedOrder.id := hs.attempts
  have hmem : o.intentId ∈ db.preparedOrders.map PreparedOrder.intentId := by
    rw [hintents]
    exact List.mem_map_of_mem ho
  obtain ⟨p, hp, hpi⟩ := List.mem_map.mp hmem
  have hmem : p.id ∈ db.submissionAttempts.map SubmissionAttempt.preparedOrderId := by
    rw [hattempts]
    exact List.mem_map_of_mem hp
  obtain ⟨a, ha, hap⟩ := List.mem_map.mp hmem
  exact ⟨p, hp, hpi, a, ha, hap⟩

theorem attemptsMatch_iff (hs : Coherent db.lifecycle) :
    db.AttemptsMatch ↔ ∀ f ∈ db.registry.files, f.Matched := by
  constructor
  · intro hmatch f hf
    obtain ⟨o, ho, rfl⟩ := List.mem_map.mp hf
    obtain ⟨i, hi, howner, -⟩ := hs.owner ho
    obtain ⟨p, hp, hpi, a, ha, hap⟩ := exists_attempt hs ho
    have hstates := file_of_rows hs hi hp (hpi.trans howner) howner ha hap
    simp only [OrderFile.states, Prod.mk.injEq] at hstates
    obtain ⟨hintent, horder, hattempt⟩ := hstates
    obtain ⟨hprepared, hsubmitting, hunknown⟩ :=
      hmatch i hi p hp (hpi.trans howner) o ho howner a ha hap
    constructor
    · simpa [hattempt, horder] using hprepared
    · simpa [hattempt, horder] using hsubmitting
    · simpa [hattempt, horder, hintent] using hunknown
  · intro hmatched i hi p hp hpi o ho hoi a ha hap
    have hstates := file_of_rows hs hi hp hpi hoi ha hap
    simp only [OrderFile.states, Prod.mk.injEq] at hstates
    obtain ⟨hintent, horder, hattempt⟩ := hstates
    have hfile := hmatched (db.file o) (List.mem_map_of_mem ho)
    refine ⟨?_, ?_, ?_⟩
    · simpa [hattempt, horder] using hfile.prepared
    · simpa [hattempt, horder] using hfile.submitting
    · simpa [hattempt, horder, hintent] using hfile.unknown

end Rows

/-! ## What a move keeps -/

/-- The venue has answered, or the order was cancelled before it was asked. -/
structure OrderFile.Answered (f : OrderFile) : Prop where
  prepared : f.order ≠ .prepared
  submitting : f.order ≠ .submitting
  unknown : ¬ (f.order = .unknown ∧ f.intent = some .unknown)

def OrderFile.Closed (f : OrderFile) : Prop :=
  f.attempt ≠ some .prepared ∧ f.attempt ≠ some .submitting ∧ f.attempt ≠ some .unknown

theorem OrderFile.Answered.matched_iff {f : OrderFile} (h : f.Answered) :
    f.Matched ↔ f.Closed := by
  constructor
  · intro hmatched
    refine ⟨fun heq => ?_, fun heq => ?_, fun heq => ?_⟩
    · exact h.prepared (hmatched.prepared.mp heq)
    · exact h.submitting (hmatched.submitting.mp heq)
    · exact h.unknown (hmatched.unknown.mp heq)
  · rintro ⟨hprepared, hsubmitting, hunknown⟩
    constructor
    · exact iff_of_false hprepared h.prepared
    · exact iff_of_false hsubmitting h.submitting
    · exact iff_of_false hunknown h.unknown

/-- An order past its submission has been answered unless its intent is UNKNOWN as well. -/
theorem OrderFile.Answered.of_stage {f : OrderFile} (horder : f.order.stage = 2)
    (hintent : f.order = .unknown → f.intent ≠ some .unknown) : f.Answered := by
  refine ⟨fun heq => ?_, fun heq => ?_, fun h => hintent h.1 h.2⟩
  · rw [heq] at horder
    cases horder
  · rw [heq] at horder
    cases horder

theorem OrderFile.Matched.keep {f f' : OrderFile} (h : f.Matched) (hf : f.Answered)
    (hf' : f'.Answered) (hattempt : f'.attempt = f.attempt) : f'.Matched := by
  have hclosed := hf.matched_iff.mp h
  apply hf'.matched_iff.mpr
  rw [OrderFile.Closed, hattempt]
  exact hclosed

/-- No guarded update leads an attempt that is not UNKNOWN out of it. -/
theorem turned_of_ne {σ : Type} [DecidableEq σ] {guard next : σ} {state : Option σ}
    (hne : state ≠ some guard) : state.map (turned guard next) = state := by
  cases state with
  | none => rfl
  | some state =>
    have hne : state ≠ guard := fun heq => hne (congrArg some heq)
    rw [Option.map_some, turned, if_neg hne]

theorem turned_ne {σ : Type} [DecidableEq σ] {guard next : σ} {state : Option σ}
    (hne : next ≠ guard) : state.map (turned guard next) ≠ some guard := by
  intro heq
  obtain ⟨s, rfl, hs⟩ := Option.map_eq_some_iff.mp heq
  unfold turned at hs
  split at hs
  · exact hne hs
  · contradiction

/-- What `resolve_unknown_submission` makes of an UNKNOWN order's file. -/
theorem OrderFile.Matched.resolve {f f' : OrderFile} (h : f.Matched) (hunknown : f.order = .unknown)
    {state : OrderState} (hstate : state.reportable = true)
    (hstates : f'.states = (f.intent.map (turned .unknown .submitted), state,
      f.attempt.map (turned .unknown .resolved))) : f'.Matched := by
  simp only [OrderFile.states, Prod.mk.injEq] at hstates
  obtain ⟨hintent, horder, hattempt⟩ := hstates
  have hanswered : f'.Answered := by
    apply OrderFile.Answered.of_stage
    · rw [horder, OrderState.stage_of_reportable hstate]
    · intro _
      rw [hintent]
      exact turned_ne (by decide)
  apply hanswered.matched_iff.mpr
  rw [OrderFile.Closed, hattempt]
  by_cases hopen : f.attempt = some .unknown
  · rw [hopen, Option.map_some, turned_self]
    exact ⟨by decide, by decide, by decide⟩
  · rw [turned_of_ne hopen]
    refine ⟨fun heq => ?_, fun heq => ?_, hopen⟩
    · exact absurd (hunknown.symm.trans (h.prepared.mp heq)) (by decide)
    · exact absurd (hunknown.symm.trans (h.submitting.mp heq)) (by decide)

theorem OrderFile.matched_of_finished {f : OrderFile} {intentState : IntentState}
    {orderState : OrderState}
    (hanswer : intentState = .submitted ∨ intentState = .unknown ∧ orderState = .unknown)
    (hreportable : orderState.reportable = true)
    (hstates : f.states = (some intentState, orderState,
      some (submissionAttemptState intentState orderState))) : f.Matched := by
  simp only [OrderFile.states, Prod.mk.injEq] at hstates
  obtain ⟨hintent, horder, hattempt⟩ := hstates
  rcases hanswer with rfl | ⟨rfl, rfl⟩
  · have hanswered : f.Answered := by
      apply OrderFile.Answered.of_stage
      · rw [horder, OrderState.stage_of_reportable hreportable]
      · intro _
        rw [hintent]
        decide
    apply hanswered.matched_iff.mpr
    rw [OrderFile.Closed, hattempt]
    by_cases hrejected : orderState = .rejected <;> simp [submissionAttemptState, hrejected]
  · constructor <;> simp [hintent, horder, hattempt, submissionAttemptState]

/-- A transition to another state that settles nothing is between states past the submission. -/
theorem validOrderTransition_moved {prior next : OrderState}
    (hvalid : validOrderTransition prior next = true) (hne : next ≠ prior)
    (hsettles : ¬ (prior = .unknown ∧ (next = .filled ∨ next = .cancelled ∨ next = .expired))) :
    (prior.stage = 2 ∧ prior ≠ .unknown) ∧ next.stage = 2 ∧ next ≠ .unknown := by
  cases prior <;> cases next <;> simp_all [validOrderTransition, OrderState.stage]

/-- What `transition_order` makes of a file when it settles no UNKNOWN intent. -/
theorem OrderFile.Matched.transition {f f' : OrderFile} (h : f.Matched) {next : OrderState}
    (hvalid : validOrderTransition f.order next = true) (horder : f'.order = next)
    (hattempt : f'.attempt = f.attempt) (hintent : f'.intent = f.intent)
    (hsettles : f.order = .unknown → (next = .filled ∨ next = .cancelled ∨ next = .expired) →
      f.intent ≠ some .unknown) : f'.Matched := by
  subst horder
  by_cases hsame : f'.order = f.order
  · constructor
    · rw [hattempt, hsame]
      exact h.prepared
    · rw [hattempt, hsame]
      exact h.submitting
    · rw [hattempt, hsame, hintent]
      exact h.unknown
  · by_cases hsettled : f.order = .unknown ∧
        (f'.order = .filled ∨ f'.order = .cancelled ∨ f'.order = .expired)
    · have hother := hsettles hsettled.1 hsettled.2
      refine h.keep (.of_stage ?_ fun _ => hother) (.of_stage ?_ fun _ => ?_)
        hattempt
      · rw [hsettled.1]
        rfl
      · rcases hsettled.2 with heq | heq | heq <;> rw [heq] <;> rfl
      · rw [hintent]
        exact hother
    · obtain ⟨⟨hprior, hknown⟩, hnext, hknown'⟩ := validOrderTransition_moved hvalid hsame hsettled
      exact h.keep (.of_stage hprior fun heq => absurd heq hknown)
        (.of_stage hnext fun heq => absurd heq hknown') hattempt

/-- Every move but the settlement of an UNKNOWN intent keeps the three records in step. -/
theorem OrderFile.Matched.move {db : Db} {past : List Db} {call : StoreCall} {f f' : OrderFile}
    (h : f.Matched) (hallowed : call.Allowed past) (hsettles : ¬ call.SettlesUnknown db)
    (hmove : call.FileMoves db f f') : f'.Matched := by
  cases call with
  | beginSubmission =>
    obtain ⟨-, hstates⟩ := hmove
    simp only [OrderFile.states, Prod.mk.injEq] at hstates
    obtain ⟨hintent, horder, hattempt⟩ := hstates
    constructor <;> simp [hintent, horder, hattempt]
  | finishSubmission _ _ intentState orderState =>
    obtain ⟨hintent, horder, hreportable, hstates⟩ := hmove
    have hattempt : f.attempt = some .submitting := h.submitting.mpr horder
    rw [hattempt, Option.map_some, turned_self] at hstates
    exact OrderFile.matched_of_finished hallowed hreportable hstates
  | recoverInterruptedSubmissions =>
    obtain ⟨hintent, horder, hstates⟩ := hmove
    have hattempt : f.attempt = some .submitting := h.submitting.mpr horder
    rw [hattempt] at hstates
    simp only [OrderFile.states, Prod.mk.injEq] at hstates
    obtain ⟨hintent', horder', hattempt'⟩ := hstates
    constructor <;> simp [hintent', horder', hattempt']
  | resolveUnknownSubmission _ _ state =>
    obtain ⟨horder, hreportable, hstates⟩ := hmove
    exact h.resolve horder hreportable hstates
  | transitionOrder id next venueOrderId =>
    obtain ⟨⟨o, ho, rfl⟩, hvalid, horder, hattempt, hintent⟩ := hmove
    have hother : o.state = .unknown → (next = .filled ∨ next = .cancelled ∨ next = .expired) →
        db.intentState o.intentId ≠ some .unknown := fun hunknown hnext heq =>
      hsettles ⟨hnext, o, ho, hunknown, heq⟩
    have hkept : f'.intent = (db.file o).intent := by
      rw [hintent]
      split
      · rename_i hsettled
        exact turned_of_ne (hother hsettled.1 hsettled.2)
      · rfl
    exact h.transition hvalid horder hattempt hkept hother
  | cancelPreparedOrder =>
    obtain ⟨hintent, horder, hstates⟩ := hmove
    have hattempt : f.attempt = some .prepared := h.prepared.mpr horder
    rw [hattempt] at hstates
    simp only [OrderFile.states, Prod.mk.injEq] at hstates
    obtain ⟨hintent', horder', hattempt'⟩ := hstates
    constructor <;> simp [hintent', horder', hattempt']
  | reconcileOrderProjection _ observed =>
    obtain ⟨hintent, hpaired, hreportable, hstates⟩ := hmove
    simp only [OrderFile.states, Prod.mk.injEq] at hstates
    obtain ⟨hintent', horder', hattempt'⟩ := hstates
    obtain ⟨hprepared, hsubmitting⟩ := paired_submitted.mp hpaired
    have hnext : f'.order.stage = 2 := by
      rw [horder']
      rcases projectedState_cases f.order observed with heq | heq <;> rw [heq]
      · rfl
      · exact OrderState.stage_of_reportable hreportable
    refine h.keep ⟨hprepared, hsubmitting, fun hboth => ?_⟩
      (.of_stage hnext fun _ => ?_) hattempt'
    · exact absurd (hintent.symm.trans hboth.2) (by decide)
    · rw [hintent']
      decide
  | applyPaperTradeThrough =>
    obtain ⟨hactive, hnext, hintent, hattempt⟩ := hmove
    have hf : f.order.stage = 2 ∧ f.order ≠ .unknown := by
      cases horder : f.order <;> simp_all [OrderState.active, OrderState.stage]
    have hf' : f'.order.stage = 2 ∧ f'.order ≠ .unknown := by
      rcases hnext with heq | heq | heq <;> rw [heq] <;> decide
    exact h.keep (.of_stage hf.1 fun heq => absurd heq hf.2)
      (.of_stage hf'.1 fun heq => absurd heq hf'.2) hattempt
  | _ => exact hmove.elim

/-! ## Runs -/

theorem RegistrySteps.matched {db : Db} {past : List Db} {call : StoreCall} {r r' : Registry}
    (hallowed : call.Allowed past) (hsettles : ¬ call.SettlesUnknown db)
    (hsteps : RegistrySteps (call.FileMoves db) r r') (h : ∀ f ∈ r.files, f.Matched) :
    ∀ f ∈ r'.files, f.Matched := by
  refine hsteps.forall_files (fun f hstates => ?_) (fun f f' hf hmove => ?_) h
  · simp only [OrderFile.states, Prod.mk.injEq] at hstates
    obtain ⟨hintent, horder, hattempt⟩ := hstates
    constructor <;> simp [hintent, horder, hattempt]
  · exact hf.move hallowed hsettles hmove

/-- No move leads to PREPARED, and one that stays there leaves the attempt alone. -/
theorem StoreCall.FileMoves.of_prepared {db : Db} {call : StoreCall} {f f' : OrderFile}
    (h : call.FileMoves db f f') (hprepared : f'.order = .prepared) :
    f.order = .prepared ∧ f'.attempt = f.attempt := by
  have hstates : ∀ {states : Option IntentState × OrderState × Option AttemptState},
      f'.states = states → states.2.1 = .prepared := by
    rintro _ rfl
    exact hprepared
  have hreported : ∀ {state : OrderState}, state.reportable = true → state ≠ .prepared := by
    rintro _ hreportable rfl
    cases hreportable
  cases call with
  | beginSubmission | recoverInterruptedSubmissions | cancelPreparedOrder =>
    obtain ⟨_, h⟩ := h
    first
    | exact nomatch hstates h
    | exact nomatch hstates h.2
  | finishSubmission => exact absurd (hstates h.2.2.2) (hreported h.2.2.1)
  | resolveUnknownSubmission => exact absurd (hstates h.2.2) (hreported h.2.1)
  | transitionOrder id next =>
    obtain ⟨-, hvalid, hnext, hattempt, -⟩ := h
    have hnext : next = .prepared := hnext.symm.trans hprepared
    rw [hnext] at hvalid
    exact ⟨(validOrderTransition_unsettled hvalid rfl).symm, hattempt⟩
  | reconcileOrderProjection _ observed =>
    obtain ⟨-, -, hreportable, h⟩ := h
    rcases projectedState_cases f.order observed with heq | heq
    · exact nomatch heq.symm.trans (hstates h)
    · exact absurd (heq.symm.trans (hstates h)) (hreported hreportable)
  | applyPaperTradeThrough =>
    rcases h.2.1 with heq | heq | heq <;> exact nomatch heq.symm.trans hprepared
  | _ => exact h.elim

theorem StoreRun.attempt_prepared {config : StoreConfig} {guard : StoreCall → Db → Prop} {db : Db}
    {past : List Db} (h : StoreRun config guard db past) :
    ∀ f ∈ db.registry.files, f.order = .prepared → f.attempt = some .prepared := by
  induction h with
  | initial => exact fun f hf => absurd hf List.not_mem_nil
  | call call now hrun hallowed _ ih =>
    refine (call.after_registry hrun.leads config now hallowed).forall_files (fun f hstates _ => ?_)
      (fun f f' hf hmove hprepared => ?_) ih
    · exact congrArg (fun states => states.2.2) hstates
    · obtain ⟨hbefore, hattempt⟩ := hmove.of_prepared hprepared
      exact hattempt.trans (hf hbefore)
  | venue _ hframe ih => exact hframe.registry_eq ▸ ih

/-- The settlement of an UNKNOWN intent leaves the attempt of its order UNKNOWN. -/
theorem transitionOrder_unmatched (config : StoreConfig) (now : Time) {db : Db} {id : Uuid}
    {next : OrderState} {venueOrderId : Option String} (h : ∀ f ∈ db.registry.files, f.Matched)
    (hsettles : db.SettlesUnknown id next) :
    ∃ f ∈ ((StoreCall.transitionOrder id next venueOrderId).after config now db).registry.files,
      ¬ f.Matched := by
  obtain ⟨hnext, o, ho, hunknown, hintent⟩ := hsettles
  obtain ⟨hmem, hid⟩ := find?_mem ho
  have hattempt : db.attemptState o.intentId = some .unknown :=
    (h (db.file o) (List.mem_map_of_mem hmem)).unknown.mpr ⟨hunknown, hintent⟩
  have hpending : ¬ (next = .cancelPending ∧ o.state.terminal = true) := fun hboth => by
    rcases hnext with rfl | rfl | rfl <;> cases hboth.1
  have hvalid : validOrderTransition o.state next = true := by
    rw [hunknown]
    rcases hnext with rfl | rfl | rfl <;> rfl
  simp only [StoreCall.after, StoreCall.run, transitionOrder, ho, if_neg hpending,
    if_neg (not_not.mpr hvalid)]
  refine ⟨_, List.mem_map_of_mem (Table.mem_updateWhere_of_mem hmem hid), fun hmatched => ?_⟩
  have horder := (hmatched.unknown.mp hattempt).1
  have horder : next = .unknown := horder
  rcases hnext with rfl | rfl | rfl <;> cases horder

theorem StoreRun.matched {config : StoreConfig} {db : Db} {past : List Db}
    (h : StoreRun config (fun call db => ¬ call.SettlesUnknown db) db past) :
    ∀ f ∈ db.registry.files, f.Matched := by
  induction h with
  | initial => exact fun f hf => absurd hf List.not_mem_nil
  | call call now hrun hallowed hsettles ih =>
    exact RegistrySteps.matched hallowed hsettles
      (call.after_registry hrun.leads config now hallowed) ih
  | venue _ hframe ih => exact hframe.registry_eq ▸ ih

/-- In a run whose steps settle no UNKNOWN intent through `transition_order` the records of every
submission are in step, and the next step keeps them in step exactly when it does not either. -/
theorem StoreRun.attempts_match {config : StoreConfig} {db : Db} {past : List Db}
    (h : StoreRun config (fun call db => ¬ call.SettlesUnknown db) db past) :
    db.AttemptsMatch ∧ ∀ call now, StoreCall.Allowed (db :: past) call →
      ((call.after config now db).AttemptsMatch ↔ ¬ call.SettlesUnknown db) := by
  refine ⟨(attemptsMatch_iff h.coherent).mpr h.matched, fun call now hallowed => ?_⟩
  have hcoherent : Coherent (call.after config now db).lifecycle :=
    (h.leads.next (call.after_steps h.leads config now hallowed)).coherent
  rw [attemptsMatch_iff hcoherent]
  constructor
  · intro hmatched hsettles
    cases call with
    | transitionOrder id next venueOrderId =>
      obtain ⟨f, hf, hnot⟩ := transitionOrder_unmatched config now h.matched hsettles
      exact hnot (hmatched f hf)
    | _ => exact hsettles
  · intro hsettles
    exact RegistrySteps.matched hallowed hsettles
      (call.after_registry h.leads config now hallowed) h.matched

/-- A submission without an answer, and the venue's later answer to its order. -/
theorem attempts_match_resolved :
    ∃ db past, play samplePaperStore 0 unknownSample Db.initial [] = some (db, past) ∧
      ((StoreCall.resolveUnknownSubmission ⟨7, 3, "first"⟩ "first" .live 10 0 none []).after
        samplePaperStore 0 db).AttemptsMatch := by
  have hsample : ((play samplePaperStore 0 unknownSample Db.initial []).any fun reached =>
      (StoreCall.resolveUnknownSubmission ⟨7, 3, "first"⟩ "first" .live 10 0 none []).Allowed
        (reached.1 :: reached.2)) = true := by
    decide +kernel
  obtain ⟨db, past, hplay, -, hsample⟩ := exists_of_play hsample
  have hrun : StoreRun samplePaperStore (fun call db => ¬ call.SettlesUnknown db) db past := by
    refine play_run .initial ?_ hplay
    simp [unknownSample, readySample, prepareSample, StoreCall.SettlesUnknown]
  exact ⟨db, past, hplay, (hrun.attempts_match.2 _ 0 (of_decide_eq_true hsample)).mpr id⟩

/-- The venue cancels an UNKNOWN order: the attempt stays UNKNOWN. -/
theorem attempts_mismatch :
    ∃ db, Reachable samplePaperStore db ∧ ¬ db.AttemptsMatch := by
  have hsample : ((play samplePaperStore 0 (unknownSample ++ [.transitionOrder 7 .cancelled none])
      Db.initial []).any fun reached => decide (¬ reached.1.AttemptsMatch)) = true := by
    decide +kernel
  obtain ⟨db, past, -, hreachable, hsample⟩ := exists_of_play hsample
  exact ⟨db, hreachable, of_decide_eq_true hsample⟩

end OddsfoxExecution
