import OddsfoxExecution.Store.Schema

/-!
# The identity of a database

`bind_identity` gives a new database the mode, chain, protocol and addresses it
is opened with, and lets an old one be opened only with those it has.
-/

namespace OddsfoxExecution

/-- The row of `instance_metadata`, without the time it was made. -/
structure InstanceMetadata where
  mode : Mode
  chainId : Int
  protocolVersion : Int
  signerAddress : Option String
  funderAddress : Option String
deriving DecidableEq

/-- The fields of `PolymarketConfig` that identify a database. -/
structure PolymarketIdentity where
  chainId : Nat
  expectedProtocol : Nat
  signerAddress : Option String
  funderAddress : Option String
deriving DecidableEq

def Mode.text : Mode → String
  | .paper => "paper"
  | .live => "live"

/-- `i64::try_from(polymarket.chain_id)`. -/
def PolymarketIdentity.chain (polymarket : PolymarketIdentity) : Except StoreError Int :=
  if polymarket.chainId < 2 ^ 63 then .ok polymarket.chainId
  else .error (.identityMismatch "configured chain ID exceeds SQLite integer")

/-- `bind_identity`: the row the database has afterwards. -/
def bindIdentity (mode : Mode) (polymarket : PolymarketIdentity)
    (existing : Option InstanceMetadata) : Except StoreError InstanceMetadata :=
  match existing with
  | some row =>
    if row.mode ≠ mode then
      .error (.identityMismatch ("mode is " ++ row.mode.text ++ ", requested " ++ mode.text))
    else
      match polymarket.chain with
      | .error e => .error e
      | .ok configuredChainId =>
        if row.chainId ≠ configuredChainId ∨
            row.protocolVersion ≠ polymarket.expectedProtocol then
          .error (.identityMismatch "chain or protocol changed")
        else if mode = .live ∧ (row.signerAddress ≠ polymarket.signerAddress ∨
            row.funderAddress ≠ polymarket.funderAddress) then
          .error (.identityMismatch "signer or funder changed")
        else .ok row
  | none =>
    match polymarket.chain with
    | .error e => .error e
    | .ok chainId =>
      .ok
        { mode, chainId, protocolVersion := polymarket.expectedProtocol
          signerAddress := polymarket.signerAddress
          funderAddress := polymarket.funderAddress }

/-- What an opened database agrees on with the configuration. -/
structure InstanceMetadata.Bound (row : InstanceMetadata) (mode : Mode)
    (polymarket : PolymarketIdentity) : Prop where
  sameMode : row.mode = mode
  sameChain : row.chainId = polymarket.chainId ∧ polymarket.chainId < 2 ^ 63
  sameProtocol : row.protocolVersion = polymarket.expectedProtocol
  sameAddresses : mode = .live → row.signerAddress = polymarket.signerAddress ∧
    row.funderAddress = polymarket.funderAddress

theorem bindIdentity_existing {mode : Mode} {polymarket : PolymarketIdentity}
    {row row' : InstanceMetadata} (h : bindIdentity mode polymarket (some row) = .ok row') :
    row' = row ∧ row.Bound mode polymarket := by
  simp only [bindIdentity] at h
  split at h
  · cases h
  · rename_i hmode
    unfold PolymarketIdentity.chain at h
    split at h
    · cases h
    · rename_i hchain
      split at hchain
      · rename_i hbound
        cases hchain
        split at h
        · cases h
        · rename_i hagrees
          split at h
          · cases h
          · rename_i haddresses
            cases h
            obtain ⟨hchain, hprotocol⟩ := not_or.mp hagrees
            refine ⟨rfl, not_not.mp hmode, ⟨not_not.mp hchain, hbound⟩, not_not.mp hprotocol,
              fun hlive => ?_⟩
            obtain ⟨hsigner, hfunder⟩ := not_or.mp fun hchanged => haddresses ⟨hlive, hchanged⟩
            exact ⟨not_not.mp hsigner, not_not.mp hfunder⟩
      · cases hchain

end OddsfoxExecution
