import OddsfoxExecution.Api.Auth
import Mathlib.Data.List.Forall2
import Mathlib.Data.List.Nodup

/-!
# Authorization

With credentials that the configuration accepts, a token is that of one
credential at most, and a protected handler runs exactly for the requests whose
token is that of a credential with the scope of the handler.
-/

namespace OddsfoxExecution

def Handler.scope : Handler → String
  | .submitIntent => "submit"
  | .cancel => "cancel"
  | .halt | .resume | .reconcile | .createBackup => "operate"
  | _ => "read"

/-! ## Accepted credentials -/

/-- What `validate_auth` makes sure of. -/
structure ValidCredentials (auth : List AuthCredential) : Prop where
  named : ∀ c ∈ auth, trimIsEmpty c.actorId = false
  actors : (auth.map AuthCredential.actorId).Nodup
  digests : ∀ c ∈ auth, ∃ digest, c.digest? = some digest
  distinct : (auth.map AuthCredential.digest?).Nodup
  permitted : ∀ c ∈ auth, c.scopes ≠ [] ∧ ∀ scope ∈ c.scopes, scope ∈ supportedScopes

theorem validateCredentials_ok {auth : List AuthCredential} {actorIds : List String}
    {tokenDigests : List Digest} (h : validateCredentials auth actorIds tokenDigests = .ok ()) :
    ValidCredentials auth ∧ (∀ c ∈ auth, c.actorId ∉ actorIds) ∧
      ∀ c ∈ auth, ∀ digest ∈ tokenDigests, c.digest? ≠ some digest := by
  induction auth generalizing actorIds tokenDigests with
  | nil => exact ⟨⟨by simp, by simp, by simp, by simp, by simp⟩, by simp, by simp⟩
  | cons credential rest ih =>
    unfold validateCredentials at h
    split at h
    · cases h
    · rename_i hnamed
      split at h
      · cases h
      · rename_i hactor
        split at h
        · cases h
        · rename_i bytes hdecoded
          split at h
          · rename_i hlength
            have hdigest : credential.digest? = some ⟨bytes, hlength⟩ := by
              rw [AuthCredential.digest?, hdecoded]
              exact dif_pos hlength
            split at h
            · cases h
            · rename_i hfresh
              split at h
              · cases h
              · rename_i hscopes
                split at h
                · cases h
                · rename_i hsupported
                  obtain ⟨hrest, hactors, hdigests⟩ := ih h
                  refine ⟨⟨?_, ?_, ?_, ?_, ?_⟩, ?_, ?_⟩
                  · exact List.forall_mem_cons.mpr ⟨Bool.eq_false_iff.mpr hnamed, hrest.named⟩
                  · apply List.nodup_cons.mpr ⟨?_, hrest.actors⟩
                    intro hmem
                    obtain ⟨c, hc, hsame⟩ := List.mem_map.mp hmem
                    exact hactors c hc (by simp [hsame])
                  · exact List.forall_mem_cons.mpr ⟨⟨_, hdigest⟩, hrest.digests⟩
                  · apply List.nodup_cons.mpr ⟨?_, hrest.distinct⟩
                    intro hmem
                    obtain ⟨c, hc, hsame⟩ := List.mem_map.mp hmem
                    exact hdigests c hc _ List.mem_cons_self (hsame.trans hdigest)
                  · refine List.forall_mem_cons.mpr ⟨⟨hscopes, ?_⟩, hrest.permitted⟩
                    intro scope hscope
                    simpa using List.find?_eq_none.mp hsupported scope hscope
                  · refine List.forall_mem_cons.mpr ⟨hactor, ?_⟩
                    intro c hc hmem
                    exact hactors c hc (List.mem_cons_of_mem _ hmem)
                  · refine List.forall_mem_cons.mpr ⟨?_, ?_⟩
                    · intro digest hmem hsame
                      rw [hdigest] at hsame
                      exact hfresh (Option.some.inj hsame ▸ hmem)
                    · intro c hc digest hmem
                      exact hdigests c hc digest (List.mem_cons_of_mem _ hmem)
          · cases h

theorem validateAuth_ok {auth : List AuthCredential} (h : validateAuth auth = .ok ()) :
    ValidCredentials auth := by
  unfold validateAuth at h
  split at h
  · cases h
  · exact (validateCredentials_ok h).1

/-! ## The registry -/

def Registers (c : AuthCredential) (r : Credential) : Prop :=
  r.actor = c.actor ∧ c.digest? = some r.digest

theorem registered_ok {auth : List AuthCredential}
    (h : ∀ c ∈ auth, ∃ digest, c.digest? = some digest) :
    ∃ credentials, AuthRegistry.registered auth = .ok credentials ∧
      List.Forall₂ Registers auth credentials := by
  induction auth with
  | nil => exact ⟨[], rfl, .nil⟩
  | cons entry rest ih =>
    obtain ⟨⟨digest, hdigest⟩, hrest⟩ := List.forall_mem_cons.mp h
    obtain ⟨credentials, hcredentials, hall⟩ := ih hrest
    have hown := hdigest
    unfold AuthCredential.digest? at hown
    split at hown
    · cases hown
    · rename_i bytes hdecoded
      split at hown
      · rename_i hlength
        refine ⟨⟨entry.actor, ⟨bytes, hlength⟩⟩ :: credentials, ?_, .cons ⟨rfl, ?_⟩ hall⟩
        · simp [AuthRegistry.registered, hdecoded, hlength, hcredentials, Except.map]
        · rw [hdigest, ← Option.some.inj hown]
      · cases hown

theorem registers_iff {auth : List AuthCredential} {credentials : List Credential}
    (h : List.Forall₂ Registers auth credentials) {actor : Actor} {digest : Digest} :
    (∃ r ∈ credentials, r.digest = digest ∧ r.actor = actor) ↔
      ∃ c ∈ auth, c.digest? = some digest ∧ c.actor = actor := by
  induction h with
  | nil => simp
  | cons hregisters _ ih =>
    obtain ⟨hactor, hdigest⟩ := hregisters
    simp only [List.mem_cons, exists_eq_or_imp, ih, hactor, hdigest, Option.some.injEq]

theorem registered_digests {auth : List AuthCredential} {credentials : List Credential}
    (h : List.Forall₂ Registers auth credentials) :
    auth.map AuthCredential.digest? = (credentials.map Credential.digest).map some := by
  induction h with
  | nil => rfl
  | cons hregisters _ ih => simp [ih, hregisters.2]

/-- With distinct digests it does not matter that the last credential wins. -/
theorem authenticate_iff {registry : AuthRegistry} {sha256 : String → Digest} {token : String}
    {actor : Actor} (hdistinct : (registry.credentials.map Credential.digest).Nodup) :
    registry.authenticate sha256 token = some actor ↔
      ∃ r ∈ registry.credentials, r.digest = sha256 token ∧ r.actor = actor := by
  have hloop : ∀ (credentials : List Credential) (found : Option Actor),
      (credentials.map Credential.digest).Nodup →
      (credentials.foldl (fun authenticated credential =>
          if credential.digest = sha256 token then some credential.actor else authenticated)
        found = some actor ↔
      (∃ r ∈ credentials, r.digest = sha256 token ∧ r.actor = actor) ∨
        (∀ r ∈ credentials, r.digest ≠ sha256 token) ∧ found = some actor) := by
    intro credentials
    induction credentials with
    | nil => simp
    | cons credential rest ih =>
      intro found hnodup
      obtain ⟨hfresh, hrest⟩ := List.nodup_cons.mp hnodup
      rw [List.foldl_cons, ih _ hrest]
      by_cases hmatches : credential.digest = sha256 token
      · have hothers : ∀ r ∈ rest, r.digest ≠ sha256 token := by
          intro r hr hsame
          exact hfresh (List.mem_map.mpr ⟨r, hr, hsame.trans hmatches.symm⟩)
        have hnone : ¬ ∃ r ∈ rest, r.digest = sha256 token ∧ r.actor = actor := by
          rintro ⟨r, hr, hsame, -⟩
          exact hothers r hr hsame
        simp [hmatches, hnone]
        exact fun _ => hothers
      · simp [hmatches]
  rw [AuthRegistry.authenticate, hloop _ _ hdistinct]
  simp

/-! ## Handlers -/

theorem bearerToken_iff {header token : String} :
    bearerToken header = some token ↔ header = "Bearer " ++ token := by
  unfold bearerToken
  constructor
  · intro h
    split at h
    · rename_i hprefix
      obtain ⟨rest, hrest⟩ := hprefix
      cases h
      apply String.toList_injective
      rw [String.toList_append, ← hrest]
      simp
    · cases h
  · rintro rfl
    rw [if_pos (by simp)]
    simp

theorem requireAuth_ok_iff {registry : AuthRegistry} {sha256 : String → Digest}
    {request : HttpRequest} {actor : Actor} :
    requireAuth registry sha256 request = .ok actor ↔
      ∃ token, request.authorization = some (some ("Bearer " ++ token)) ∧
        registry.authenticate sha256 token = some actor ∧
        requiredScope request.method request.path ∈ actor.scopes := by
  unfold requireAuth
  dsimp only
  split
  · simp [*]
  · simp [*]
  · rename_i header hheader
    rw [hheader]
    simp only [Option.some.injEq]
    split
    · rename_i hnone
      constructor
      · intro h
        cases h
      · rintro ⟨token, rfl, -⟩
        cases hnone.symm.trans (bearerToken_iff.mpr rfl)
    · rename_i token htoken
      obtain rfl := bearerToken_iff.mp htoken
      have hsame : ∀ {other : String}, "Bearer " ++ token = "Bearer " ++ other ↔ other = token := by
        intro other
        constructor
        · intro heq
          exact Option.some.inj ((bearerToken_iff.mpr heq).symm.trans htoken)
        · rintro rfl
          rfl
      simp only [hsame, exists_eq_left]
      cases registry.authenticate sha256 token with
      | none => simp
      | some found =>
        by_cases hscope : requiredScope request.method request.path ∈ found.scopes
        · simp only [Actor.hasScope, hscope, decide_true, if_true, Except.ok.injEq,
            Option.some.injEq]
          constructor
          · rintro rfl
            exact ⟨rfl, hscope⟩
          · rintro ⟨rfl, -⟩
            rfl
        · simp only [Actor.hasScope, hscope, decide_false, Bool.false_eq_true, if_false,
            reduceCtorEq, false_iff, not_and, Option.some.injEq]
          rintro rfl
          exact hscope

theorem routeOf_some {path : String} {route : Route} (h : routeOf path = some route) :
    route ∈ protectedRoutes ∧ route.path.accepts path = true := by
  unfold routeOf at h
  have haccepts := List.find?_some h
  exact ⟨List.mem_of_find?_eq_some h, haccepts⟩

def RoutePath.text : RoutePath → String
  | .exact path => path
  | .withId base => base

/-- What the route of a request requires is what its handler is for. -/
theorem scope_of_route {route : Route} (hroute : route ∈ protectedRoutes) {path : String}
    (haccepts : route.path.accepts path = true) {method : Method} {handler : Handler}
    (hhandler : route.handler method = some handler) :
    (method ≠ .head → requiredScope method path = handler.scope) ∧
      (method = .head → handler.scope = "read") := by
  have hreads : ∀ route ∈ protectedRoutes, ∀ handler ∈ route.get, handler.scope = "read" := by
    decide
  have hwrites : ∀ route ∈ protectedRoutes, ∀ handler ∈ route.post,
      route.path = .exact route.path.text ∧
        requiredScope .post route.path.text = handler.scope := by
    decide
  cases method with
  | get =>
    constructor
    · intro _
      exact (hreads route hroute handler hhandler).symm
    · intro h
      cases h
  | head => exact ⟨fun h => absurd rfl h, fun _ => hreads route hroute handler hhandler⟩
  | post =>
    constructor
    · intro _
      obtain ⟨hpath, hscope⟩ := hwrites route hroute handler hhandler
      rw [hpath] at haccepts
      rw [of_decide_eq_true haccepts, hscope]
    · intro h
      cases h
  | other => cases hhandler

theorem dispatch_runs_iff {registry : AuthRegistry} {sha256 : String → Digest}
    {request : HttpRequest} {handler : Handler} {actor : Actor} :
    dispatch registry sha256 request = .runs handler actor ↔
      (∃ route, routeOf request.path = some route ∧
        route.handler request.method = some handler) ∧
      requireAuth registry sha256 request = .ok actor := by
  unfold dispatch
  cases routeOf request.path with
  | none => simp
  | some route =>
    cases requireAuth registry sha256 request with
    | error failure => simp
    | ok found =>
      cases hhandler : route.handler request.method with
      | none => simp [hhandler]
      | some own => simp [hhandler]

/-- Accepted credentials are registered.  A handler runs exactly for the requests whose token is
that of one credential that has the scope of the handler, as the actor of the credential; and what
a `HEAD` runs only reads. -/
theorem handler_runs_iff {auth : List AuthCredential} (hvalid : validateAuth auth = .ok ())
    (sha256 : String → Digest) :
    ∃ registry, AuthRegistry.new auth = .ok registry ∧ ∀ request handler actor,
      (request.method ≠ .head → (dispatch registry sha256 request = .runs handler actor ↔
        (∃ route, routeOf request.path = some route ∧
          route.handler request.method = some handler) ∧
        ∃ token, request.authorization = some (some ("Bearer " ++ token)) ∧
          ∃ c ∈ auth, c.digest? = some (sha256 token) ∧
            (∀ other ∈ auth, other.digest? = some (sha256 token) → other = c) ∧
            handler.scope ∈ c.scopes ∧ actor = c.actor)) ∧
      (dispatch registry sha256 request = .runs handler actor → request.method = .head →
        handler.scope = "read") := by
  have hcredentials := validateAuth_ok hvalid
  obtain ⟨credentials, hregistered, hall⟩ := registered_ok hcredentials.digests
  refine ⟨⟨credentials⟩, by rw [AuthRegistry.new, hregistered]; rfl, ?_⟩
  intro request handler actor
  have hdistinct : (credentials.map Credential.digest).Nodup := by
    have hnodup := hcredentials.distinct
    rw [registered_digests hall] at hnodup
    exact List.Nodup.of_map some hnodup
  rw [dispatch_runs_iff, requireAuth_ok_iff]
  constructor
  · intro hmethod
    apply and_congr_right
    rintro ⟨route, hfound, hhandler⟩
    obtain ⟨hmem, haccepts⟩ := routeOf_some hfound
    rw [(scope_of_route hmem haccepts hhandler).1 hmethod]
    apply exists_congr
    intro token
    apply and_congr_right
    intro _
    rw [authenticate_iff hdistinct, registers_iff hall]
    constructor
    · rintro ⟨⟨c, hc, hdigest, rfl⟩, hscope⟩
      refine ⟨c, hc, hdigest, ?_, hscope, rfl⟩
      intro other hother hsame
      exact List.inj_on_of_nodup_map hcredentials.distinct hother hc (hsame.trans hdigest.symm)
    · rintro ⟨c, hc, hdigest, -, hscope, rfl⟩
      exact ⟨⟨c, hc, hdigest, rfl⟩, hscope⟩
  · rintro ⟨⟨route, hfound, hhandler⟩, -⟩ hmethod
    obtain ⟨hmem, haccepts⟩ := routeOf_some hfound
    exact (scope_of_route hmem haccepts hhandler).2 hmethod

/-! ## An operator and a strategy -/

def operatorCredential : AuthCredential where
  actorId := "operator"
  tokenSha256 := "AFE04DCD607E98069436EDD10263DC35212047239C4C0B078129F76FF8643A5A"
  scopes := ["read", "operate"]

def strategyCredential : AuthCredential where
  actorId := "strategy"
  tokenSha256 := "afe04dcd607e98069436edd10263dc35212047239c4c0b078129f76ff8643a5b"
  scopes := ["read", "submit"]

/-- The digest of `operator-token-0001`. -/
def operatorDigest : Digest :=
  ⟨(hexDecode operatorCredential.tokenSha256).getD [], by decide⟩

def haltRequest : HttpRequest where
  method := .post
  path := "/v1/control/halt"
  authorization := some (some ("Bearer " ++ "operator-token-0001"))

theorem handler_runs_iff_halt : ∃ registry,
    AuthRegistry.new [operatorCredential, strategyCredential] = .ok registry ∧
      dispatch registry (fun _ => operatorDigest) haltRequest =
        .runs .halt operatorCredential.actor := by
  have hvalid : validateAuth [operatorCredential, strategyCredential] = .ok () := by
    decide +kernel
  obtain ⟨registry, hnew, hruns⟩ := handler_runs_iff hvalid fun _ => operatorDigest
  refine ⟨registry, hnew, ((hruns haltRequest .halt _).1 (by decide)).mpr ⟨?_, ?_⟩⟩
  · exact ⟨⟨.exact "/v1/control/halt", none, some .halt⟩, by decide +kernel, rfl⟩
  · exact ⟨"operator-token-0001", rfl, operatorCredential, List.mem_cons_self, by decide +kernel,
      by decide +kernel, by decide +kernel, rfl⟩

end OddsfoxExecution
