import OddsfoxExecution.AtMostOnce
import OddsfoxExecution.Coordinator.Gates

/-!
# Submissions after a halt

A halt, a degradation and a shutdown are committed without the gates, so a
submission that has begun may go out after them.  It is the only one: a
submission begins in a READY service, and from then until it has gone out its
worker keeps everybody else from the orders and from the safety gate.
-/

namespace OddsfoxExecution

def asksToSubmit (e : CallEvent) : Bool :=
  match e.entry.1 with
  | .venue (.submit ..) => true
  | _ => false

theorem asksToSubmit_iff {e : CallEvent} : asksToSubmit e = true ↔
    ∃ prepared request answer, e.entry = asked (.submit prepared request) answer := by
  obtain ⟨t, task, found, c, r⟩ := e
  constructor
  · intro h
    unfold asksToSubmit at h
    split at h
    · rename_i prepared request hentry
      dsimp only at hentry
      subst hentry
      exact ⟨prepared, request, r, rfl⟩
    · cases h
  · rintro ⟨prepared, request, answer, hentry⟩
    cases hentry
    rfl

namespace Coordinator.Reaches

variable {self : Coordinator} {config : StoreConfig} {guard : CallGuard} {s : System}

/-- Between the commit that begins a submission and the submission no other task touches an order,
and none takes the safety gate. -/
theorem submission_undisturbed (h : self.Reaches config guard s)
    {after before : List CallEvent} {e : CallEvent} (heq : s.history = after ++ e :: before)
    (he : asksToSubmit e = true) :
    ∃ intentId b between earlier, before = between ++ b :: earlier ∧ b.thread = e.thread ∧
      BeginsReady intentId b ∧ ∀ k ∈ between, k.entry.1.touchesOrders = false ∧
        k.entry.1 ≠ .lock .safety := by
  obtain ⟨prepared, request, answer, hentry⟩ := asksToSubmit_iff.mp he
  obtain ⟨intentId, b, between, earlier, rfl, horigin⟩ := h.origin heq hentry
  refine ⟨intentId, b, between, earlier, rfl, horigin.thread, horigin.begins, fun k hk => ?_⟩
  obtain ⟨newer, older, rfl⟩ := List.append_of_mem hk
  -- the worker is there at the moment of the call, with the begun submission as its last call
  obtain ⟨p, next, memory, hp, -, hhistory, ht, -⟩ := h.moment heq
  have hsplit : p.history = newer ++ k :: (older ++ b :: earlier) := by simp [hhistory]
  obtain ⟨p₀, thread₀, next₀, memory₀, hp₀, hfound, hk₀, hanswer, ht₀, hmade⟩ :=
    Machine.Reaches.present hp hsplit ht ⟨b, by simp, horigin.thread⟩
  have hp₀ : self.Reaches config guard p₀ := hp₀
  have hown : ownCalls e.thread newer = [] ∧ ownCalls e.thread (k :: older) = [] := by
    have hown := horigin.own
    rwa [ownCalls_append, List.append_eq_nil_iff] at hown
  have hother : k.thread ≠ e.thread := by
    intro hsame
    have hown := hown.2
    rw [← hsame, ownCalls_cons_self] at hown
    cases hown
  rw [ownCalls_cons_of_ne hother] at hown
  obtain ⟨orderId, hbegin⟩ := horigin.begins.committed
  have hplacing : Placing thread₀ := by
    refine Or.inl ?_
    rw [hmade, ownCalls_append, hown.2, ← horigin.thread, ownCalls_cons_self, hbegin]
    exact rfl
  refine ⟨hp₀.placed_alone ht₀ hk₀ hplacing hother rfl, fun hlock => ?_⟩
  -- the worker holds the safety gate, so it is not free
  obtain ⟨t, task, found, c, r⟩ := k
  dsimp only at hlock hanswer hfound
  subst hlock hfound
  obtain ⟨hfree, -⟩ := hanswer
  have hheld := (hp₀.gate_held .safety e.thread).mpr
    ⟨thread₀, ht₀, (hp₀.placing_holds ht₀ hplacing).1⟩
  exact nomatch hfree.symm.trans hheld

/-- While the service is not READY at most one submission goes out.  It began before, and none goes
out once a task has taken the safety gate. -/
theorem unready_places_at_most_one (h : self.Reaches config guard s)
    {after stretch before : List CallEvent} (heq : s.history = after ++ (stretch ++ before))
    (hunready : ∀ e ∈ stretch, e.found.db.controlState.state ≠ .ready) :
    (stretch.filter asksToSubmit).length ≤ 1 ∧
      (∀ e ∈ stretch, asksToSubmit e = true →
        ∃ intentId, ∃ b ∈ before, b.thread = e.thread ∧ BeginsReady intentId b) ∧
      ∀ newer k older, stretch = newer ++ k :: older → k.entry.1 = .lock .safety →
        ∀ e ∈ newer, asksToSubmit e = false := by
  -- the commit that begins a submission of the stretch is before the stretch
  have hbegun : ∀ newer e older, stretch = newer ++ e :: older → asksToSubmit e = true →
      ∃ intentId b between, b ∈ before ∧ b.thread = e.thread ∧ BeginsReady intentId b ∧
        older ⊆ between ∧ ∀ k ∈ between, k.entry.1.touchesOrders = false ∧
          k.entry.1 ≠ .lock .safety := by
    rintro newer e older rfl he
    have hmoment : s.history = (after ++ newer) ++ e :: (older ++ before) := by simpa using heq
    obtain ⟨intentId, b, between, earlier, hsplit, hthread, hbegins, hbetween⟩ :=
      h.submission_undisturbed hmoment he
    rcases List.append_eq_append_iff.mp hsplit with ⟨tail, rfl, htail⟩ | ⟨tail, rfl, htail⟩
    · refine ⟨intentId, b, older ++ tail, ?_, hthread, hbegins, List.subset_append_left _ _,
        hbetween⟩
      rw [htail]
      exact List.mem_append_right _ List.mem_cons_self
    · cases tail with
      | nil =>
        refine ⟨intentId, b, between, ?_, hthread, hbegins, by simp, hbetween⟩
        rw [List.nil_append] at htail
        exact htail ▸ List.mem_cons_self
      | cons b' tail =>
        obtain ⟨rfl, -⟩ := List.cons.inj htail
        exact absurd hbegins.ready (hunready b (by simp))
  refine ⟨length_filter_le_one ?_, fun e he hsubmits => ?_, ?_⟩
  · rintro newer e older hstretch he e' he' hsubmits
    obtain ⟨-, -, between, -, -, -, hsub, hbetween⟩ := hbegun newer e older hstretch he
    obtain ⟨prepared, request, answer, hentry⟩ := asksToSubmit_iff.mp hsubmits
    have htouches := (hbetween e' (hsub he')).1
    rw [hentry] at htouches
    cases htouches
  · obtain ⟨newer, older, rfl⟩ := List.append_of_mem he
    obtain ⟨intentId, b, -, hb, hthread, hbegins, -⟩ := hbegun newer e older rfl hsubmits
    exact ⟨intentId, b, hb, hthread, hbegins⟩
  · rintro newer k older rfl hlock e he
    obtain ⟨newest, rest, rfl⟩ := List.append_of_mem he
    refine Bool.eq_false_iff.mpr fun hsubmits => ?_
    obtain ⟨-, -, between, -, -, -, hsub, hbetween⟩ :=
      hbegun newest e (rest ++ k :: older) (by simp) hsubmits
    exact (hbetween k (hsub (by simp))).2 hlock

end Coordinator.Reaches

/-- An operator halts the service once the submission of an intent has begun. -/
def haltedSchedule : List Move :=
  [.arrive .main, .calls 0 22 0 sampleVenue,
    .arrive (.submitIntent "operator" "first" sampleRequest), .calls 1 4 0 sampleVenue,
    .arrive (.worker 6), .calls 2 19 0 sampleVenue, .arrive (.halt "operator" "stop" "drill"),
    .calls 3 2 0 sampleVenue, .calls 2 1 0 sampleVenue]

/-- The latest call is a submission that finds the service not READY. -/
def submitsUnready (s : System) : Bool :=
  match s.history with
  | e :: _ => asksToSubmit e && decide (e.found.db.controlState.state ≠ .ready)
  | [] => false

/-- The submission of the schedule goes out after the halt, and began before. -/
theorem unready_places_at_most_one_halted : ∃ s e before intentId b,
    sampleCoordinator.Reaches samplePaperStore (fun _ _ _ => True) s ∧
      s.history = e :: before ∧ asksToSubmit e = true ∧
      e.found.db.controlState.state ≠ .ready ∧ b ∈ before ∧ b.thread = e.thread ∧
      BeginsReady intentId b := by
  have hsample : (sampleCoordinator.execute samplePaperStore (fun _ _ => true) haltedSchedule
      System.initial).any submitsUnready = true := by decide +kernel
  obtain ⟨s, hs, htest⟩ := Coordinator.exists_of_execute (fun _ _ _ _ => trivial) hsample
  unfold submitsUnready at htest
  split at htest
  · rename_i e before heq
    obtain ⟨hsubmits, hunready⟩ := (Bool.and_eq_true _ _).mp htest
    have hunready := of_decide_eq_true hunready
    have hsplit : s.history = [] ++ ([e] ++ before) := heq
    obtain ⟨intentId, b, hb, hthread, hbegins⟩ := (hs.unready_places_at_most_one hsplit
      fun e' he' => List.mem_singleton.mp he' ▸ hunready).2.1 e List.mem_cons_self hsubmits
    exact ⟨s, e, before, intentId, b, hs, heq, hsubmits, hunready, hb, hthread, hbegins⟩
  · cases htest

end OddsfoxExecution
