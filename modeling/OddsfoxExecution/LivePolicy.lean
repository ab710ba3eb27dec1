import OddsfoxExecution.Approvals
import OddsfoxExecution.RiskMonotone

/-!
# Live mode trades what its policy lists

`validate_mode_policy` refuses to serve live with a policy whose allowlists are
empty or hold a wildcard, since an empty list permits everything.  Past it, no
order reaches the venue, in this process or one after a crash, for a condition
or a token that the policy does not name.
-/

namespace OddsfoxExecution

/-- `to_ascii_lowercase`, then `contains`. -/
def mentions (text word : String) : Prop :=
  word.toList <:+: text.toList.map Char.toLower

instance (text word : String) : Decidable (mentions text word) :=
  inferInstanceAs (Decidable (_ <:+: _))

def validateModePolicy (mode : Mode) (policy : RiskPolicy) : Except String Unit :=
  if mode ≠ .live then .ok ()
  else if policy.allowedConditionIds = [] ∨ policy.allowedTokenIds = [] then
    .error "live mode requires non-empty condition and token allowlists"
  else if "*" ∈ policy.allowedConditionIds ∨ "*" ∈ policy.allowedTokenIds then
    .error "live mode refuses wildcard risk-policy allowlists"
  else if mentions policy.version "example" ∨ mentions policy.version "placeholder" then
    .error "live mode refuses placeholder risk-policy versions"
  else .ok ()

/-- What a policy that may serve live lists. -/
structure RiskPolicy.ListsMarkets (policy : RiskPolicy) : Prop where
  conditions : policy.allowedConditionIds ≠ [] ∧ "*" ∉ policy.allowedConditionIds
  tokens : policy.allowedTokenIds ≠ [] ∧ "*" ∉ policy.allowedTokenIds

theorem RiskPolicy.listsMarkets_of_live {policy : RiskPolicy}
    (h : validateModePolicy .live policy = .ok ()) : policy.ListsMarkets := by
  unfold validateModePolicy at h
  rw [if_neg (not_not.mpr rfl)] at h
  split at h
  · cases h
  · rename_i hempty
    split at h
    · cases h
    · rename_i hwildcard
      obtain ⟨hconditions, htokens⟩ := not_or.mp hempty
      obtain ⟨hconditions', htokens'⟩ := not_or.mp hwildcard
      exact ⟨⟨hconditions, hconditions'⟩, htokens, htokens'⟩

/-- Every order a live executor hands to the venue is for a condition and a token of the policy's
allowlists. -/
theorem Coordinator.Reaches.live_submissions_allowlisted {self : Coordinator}
    {config : StoreConfig} {guard : CallGuard} {s : System} (h : self.Reaches config guard s)
    (hlive : config.mode = .live) (hpolicy : validateModePolicy config.mode self.policy = .ok ())
    {after before : List CallEvent} {e : CallEvent} (heq : s.history = after ++ e :: before)
    {prepared : PreparedVenueOrder} {request : OrderIntentRequest}
    {answer : VenueAnswer VenueSubmission}
    (hentry : e.entry = asked (.submit prepared request) answer) :
    request.conditionId ∈ self.policy.allowedConditionIds ∧ request.conditionId ≠ "*" ∧
      request.tokenId ∈ self.policy.allowedTokenIds ∧ request.tokenId ≠ "*" := by
  rw [hlive] at hpolicy
  obtain ⟨⟨hconditions, hwildcard⟩, htokens, hwildcard'⟩ := RiskPolicy.listsMarkets_of_live hpolicy
  obtain ⟨intentId, between, k, earlier, -, rfl, hcreated⟩ := h.submission_created heq hentry
  obtain ⟨original, market, order, -, -, -, happroved⟩ := hcreated.created
  obtain ⟨d, -, -, book, -, now, r, snapshot, -, -, -, hvalue, happroved⟩ :=
    h.approval_evaluated (fun x hx => by simp [heq, hx]) happroved
  rw [hvalue] at happroved
  obtain ⟨hpermits, -⟩ := RiskPolicy.evaluate_approved_iff.mp happroved
  have hcondition := hpermits.condition.resolve_left hconditions
  have htoken := hpermits.token.resolve_left htokens
  exact ⟨hcondition, fun heq => hwildcard (heq ▸ hcondition), htoken,
    fun heq => hwildcard' (heq ▸ htoken)⟩

def listingCoordinator : Coordinator :=
  { sampleCoordinator with
    policy := { samplePolicy with
      version := "2026-01"
      allowedConditionIds := [sampleRequest.conditionId]
      allowedTokenIds := [sampleRequest.tokenId] } }

theorem live_submissions_allowlisted_first : ∃ s e prepared request answer,
    listingCoordinator.Reaches sampleLiveStore (fun _ _ _ => True) s ∧ e ∈ s.history ∧
      e.entry = asked (.submit prepared request) answer ∧
      request.tokenId ∈ listingCoordinator.policy.allowedTokenIds := by
  have hsample : (listingCoordinator.execute sampleLiveStore (fun _ _ => true)
      submissionSchedule System.initial).any (fun s => s.history.any (submits 6)) = true := by
    decide +kernel
  obtain ⟨s, h, hsome⟩ := Coordinator.exists_of_execute (fun _ _ _ _ => trivial) hsample
  obtain ⟨e, he, hsubmits⟩ := List.any_eq_true.mp hsome
  obtain ⟨after, before, heq⟩ := List.append_of_mem he
  obtain ⟨-, prepared, request, answer, hentry⟩ := submits_iff.mp hsubmits
  obtain ⟨-, -, htoken, -⟩ :=
    h.live_submissions_allowlisted rfl (by decide +kernel) heq hentry
  exact ⟨s, e, prepared, request, answer, h, he, hentry, htoken⟩

end OddsfoxExecution
