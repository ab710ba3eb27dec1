import OddsfoxExecution.Domain

/-!
# Who may call what

The bearer credentials of `src/config.rs` and `src/auth.rs` and the protected
routes of `src/api.rs`.  A token counts by its digest, which is compared as
bytes, and what a request needs is read off its method and its path.  The hash
is a parameter.
-/

namespace OddsfoxExecution

/-! ## Credentials -/

/-- A SHA-256 digest. -/
abbrev Digest : Type := { bytes : List UInt8 // bytes.length = 32 }

def hexDigit (c : Char) : Option Nat :=
  if '0' ≤ c ∧ c ≤ '9' then some (c.toNat - '0'.toNat)
  else if 'a' ≤ c ∧ c ≤ 'f' then some (c.toNat - 'a'.toNat + 10)
  else if 'A' ≤ c ∧ c ≤ 'F' then some (c.toNat - 'A'.toNat + 10)
  else none

def hexBytes : List Char → Option (List UInt8)
  | [] => some []
  | [_] => none
  | high :: low :: rest =>
    match hexDigit high, hexDigit low, hexBytes rest with
    | some high, some low, some bytes => some (UInt8.ofNat (16 * high + low) :: bytes)
    | _, _, _ => none

def hexDecode (text : String) : Option (List UInt8) := hexBytes text.toList

structure AuthCredential where
  actorId : String
  tokenSha256 : String
  scopes : List String
deriving DecidableEq

def AuthCredential.digest? (self : AuthCredential) : Option Digest :=
  match hexDecode self.tokenSha256 with
  | none => none
  | some bytes => if h : bytes.length = 32 then some ⟨bytes, h⟩ else none

def supportedScopes : List String := ["read", "submit", "cancel", "operate"]

/-- The loop of `validate_auth`, after credentials with the actors `actorIds` and the digests
`tokenDigests`. -/
def validateCredentials :
    List AuthCredential → List String → List Digest → Except String Unit
  | [], _, _ => .ok ()
  | credential :: rest, actorIds, tokenDigests =>
    if trimIsEmpty credential.actorId then .error "auth actor_id may not be empty"
    else if credential.actorId ∈ actorIds then .error "auth actor_id values must be unique"
    else
      match hexDecode credential.tokenSha256 with
      | none => .error "auth token_sha256 must be hexadecimal"
      | some bytes =>
        if h : bytes.length = 32 then
          if (⟨bytes, h⟩ : Digest) ∈ tokenDigests then
            .error "auth token digests must be unique"
          else if credential.scopes = [] then
            .error "each auth credential requires at least one scope"
          else
            match credential.scopes.find? fun scope => scope ∉ supportedScopes with
            | some scope => .error ("unsupported auth scope " ++ scope)
            | none =>
              validateCredentials rest (credential.actorId :: actorIds)
                (⟨bytes, h⟩ :: tokenDigests)
        else .error "auth token_sha256 must contain a SHA-256 digest"

def validateAuth (auth : List AuthCredential) : Except String Unit :=
  if auth = [] then .error "at least one bearer credential is required"
  else validateCredentials auth [] []

structure Actor where
  id : String
  scopes : List String
deriving DecidableEq

def Actor.hasScope (self : Actor) (scope : String) : Bool := scope ∈ self.scopes

def AuthCredential.actor (self : AuthCredential) : Actor :=
  { id := self.actorId, scopes := self.scopes }

structure Credential where
  actor : Actor
  digest : Digest
deriving DecidableEq

structure AuthRegistry where
  credentials : List Credential
deriving DecidableEq

/-- Why `AuthRegistry::new` fails. -/
inductive RegistryError where
  | fromHex
  | digestLength
deriving DecidableEq

namespace AuthRegistry

def registered : List AuthCredential → Except RegistryError (List Credential)
  | [] => .ok []
  | entry :: rest =>
    match hexDecode entry.tokenSha256 with
    | none => .error .fromHex
    | some bytes =>
      if h : bytes.length = 32 then
        (registered rest).map fun credentials =>
          { actor := entry.actor, digest := ⟨bytes, h⟩ } :: credentials
      else .error .digestLength

def new (config : List AuthCredential) : Except RegistryError AuthRegistry :=
  (registered config).map AuthRegistry.mk

/-- `AuthRegistry::authenticate`, which goes through all credentials whatever it has found. -/
def authenticate (self : AuthRegistry) (sha256 : String → Digest) (token : String) :
    Option Actor :=
  self.credentials.foldl
    (fun authenticated credential =>
      if credential.digest = sha256 token then some credential.actor else authenticated)
    none

end AuthRegistry

/-! ## Requests -/

inductive Method where
  | get
  | head
  | post
  | other
deriving DecidableEq

/-- What the router and the middleware read of a request. -/
structure HttpRequest where
  method : Method
  path : String
  /-- The `Authorization` header, and its text unless it has none. -/
  authorization : Option (Option String)
deriving DecidableEq

/-- `AuthFailure`, with its status. -/
structure AuthFailure where
  status : Nat
  code : String
  message : String
  retryable : Bool
  requiredScope : Option String
deriving DecidableEq

def AuthFailure.unauthorized : AuthFailure :=
  ⟨401, "AUTH_REQUIRED", "valid bearer authentication is required", false, none⟩

def AuthFailure.forbidden (scope : String) : AuthFailure :=
  ⟨403, "AUTH_SCOPE_REQUIRED", scope ++ " scope is required", false, some scope⟩

def requiredScope (method : Method) (path : String) : String :=
  if method = .get then "read"
  else if path = "/v1/intents" then "submit"
  else if path = "/v1/cancellations" then "cancel"
  else "operate"

/-- `strip_prefix("Bearer ")`. -/
def bearerToken (header : String) : Option String :=
  if "Bearer ".toList <+: header.toList then some (String.ofList (header.toList.drop 7))
  else none

/-- `require_auth`, up to the handler. -/
def requireAuth (registry : AuthRegistry) (sha256 : String → Digest) (request : HttpRequest) :
    Except AuthFailure Actor :=
  let scope := requiredScope request.method request.path
  match request.authorization with
  | none => .error .unauthorized
  | some none => .error .unauthorized
  | some (some header) =>
    match bearerToken header with
    | none => .error .unauthorized
    | some token =>
      match registry.authenticate sha256 token with
      | none => .error .unauthorized
      | some actor => if actor.hasScope scope then .ok actor else .error (.forbidden scope)

/-! ## Routes -/

/-- The handlers behind `require_auth`. -/
inductive Handler where
  | submitIntent
  | listIntents
  | getIntent
  | listOrders
  | getOrder
  | listTrades
  | listPositions
  | cancel
  | getCancellation
  | controlState
  | halt
  | resume
  | reconcile
  | getReconciliation
  | events
  | createBackup
  | getBackup
deriving DecidableEq

/-- The path of a route: a path, or a path followed by one identifier. -/
inductive RoutePath where
  | exact (path : String)
  | withId (base : String)
deriving DecidableEq

def RoutePath.accepts (self : RoutePath) (path : String) : Bool :=
  match self with
  | exact own => path = own
  | withId base =>
    let id := path.toList.drop base.toList.length
    base.toList <+: path.toList ∧ id ≠ [] ∧ '/' ∉ id

structure Route where
  path : RoutePath
  get : Option Handler
  post : Option Handler
deriving DecidableEq

/-- A route for `GET` answers `HEAD`, too. -/
def Route.handler (self : Route) : Method → Option Handler
  | .get | .head => self.get
  | .post => self.post
  | .other => none

/-- The protected part of `router`. -/
def protectedRoutes : List Route :=
  [⟨.exact "/v1/intents", some .listIntents, some .submitIntent⟩,
    ⟨.withId "/v1/intents/", some .getIntent, none⟩,
    ⟨.exact "/v1/orders", some .listOrders, none⟩,
    ⟨.withId "/v1/orders/", some .getOrder, none⟩,
    ⟨.exact "/v1/trades", some .listTrades, none⟩,
    ⟨.exact "/v1/positions", some .listPositions, none⟩,
    ⟨.exact "/v1/cancellations", none, some .cancel⟩,
    ⟨.withId "/v1/cancellations/", some .getCancellation, none⟩,
    ⟨.exact "/v1/control/state", some .controlState, none⟩,
    ⟨.exact "/v1/control/halt", none, some .halt⟩,
    ⟨.exact "/v1/control/resume", none, some .resume⟩,
    ⟨.exact "/v1/reconciliations", none, some .reconcile⟩,
    ⟨.withId "/v1/reconciliations/", some .getReconciliation, none⟩,
    ⟨.exact "/v1/events", some .events, none⟩,
    ⟨.exact "/v1/backups", none, some .createBackup⟩,
    ⟨.withId "/v1/backups/", some .getBackup, none⟩]

def routeOf (path : String) : Option Route :=
  protectedRoutes.find? fun route => route.path.accepts path

/-- What becomes of a request at the protected routes. -/
inductive Dispatch where
  | unmatched
  | refused (failure : AuthFailure)
  | methodNotAllowed
  | runs (handler : Handler) (actor : Actor)
deriving DecidableEq

/-- The router: the layer of `require_auth` is around the handlers of every protected route. -/
def dispatch (registry : AuthRegistry) (sha256 : String → Digest) (request : HttpRequest) :
    Dispatch :=
  match routeOf request.path with
  | none => .unmatched
  | some route =>
    match requireAuth registry sha256 request with
    | .error failure => .refused failure
    | .ok actor =>
      match route.handler request.method with
      | none => .methodNotAllowed
      | some handler => .runs handler actor

end OddsfoxExecution
