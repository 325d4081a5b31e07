import Rudis.Spec.Primitives

/-!
# `Rudis.Spec.VaultRouter`: the cross-chain flow of the vault router

A deposit locks the asset at the token bridge and records a pending operation; its shares are
credited by the acknowledgement of the remote router. A withdrawal takes the shares at once and
pays the asset out when it comes back. The bridges and the asset are foreign contracts over a
state of their own (`Externals.call`): they do not call back into the router. Every call that is
not undone is kept in `World.sent`. Events are left out.
-/

namespace Rudis.VaultRouter

def vaultRouterAddress : Address := 0x1017#160

def depositRequest : Nat := 1
def depositAcknowledgement : Nat := 2
def withdrawRequest : Nat := 3
def withdrawReturn : Nat := 4

def operationDeposit : Nat := 1
def operationWithdraw : Nat := 2
def statusPending : Nat := 1
def statusCompleted : Nat := 2

/-- A request for the remote router, with the gas of its answer. -/
structure Request (ID : Type) where
  kind : Nat
  operationId : ID
  user : Address
  amount : Nat
  gasLimit : Nat

/-- A call of a foreign contract. -/
inductive Outgoing (ID : Type) where
  | approve (spender : Address) (amount : Nat)
  | transferFrom (src dst : Address) (amount : Nat)
  | transfer (dst : Address) (amount : Nat)
  | sendAndCall (destinationDomain : Nat) (dst : Address) (amount : Nat) (extraData : Request ID)
      (gasLimit : Nat)
  | sendMessage (recipient : List UInt8) (payload : Request ID) (attributes : List Nat)

/-- The hash, the ABI decoders and the foreign contracts. -/
structure Externals (ID E : Type) where
  chainId : Nat
  /-- `keccak256` of the encoded chain id, nonce, user, kind and amount. -/
  keccak256 : Nat × Nat × Address × Nat × Nat → ID
  abiDecode : List UInt8 → Option (Nat × ID × Address × Nat)
  decodeU256 : List UInt8 → Option Nat
  decodeB256 : List UInt8 → Option B256
  call : Address → Nat → Outgoing ID → E → Result (List UInt8 × E)
  /-- The fee a bridge asks for a call, by a static call with the arguments of that call. -/
  quote : Address → Outgoing ID → E → Result (List UInt8)

/-- The configured peers. -/
structure Settings where
  bridge : Address
  asset : Address
  tokenBridge : Address
  destinationChainId : Nat
  remoteVaultRouters : Nat → Address

structure Operations (ID : Type) where
  nonce : Nat
  users : ID → Address
  amounts : ID → Nat
  kinds : ID → Nat
  statuses : ID → Nat
  pending : Nat

structure Shares where
  held : Address → Nat
  total : Nat

/-- Calls, with their target and value. -/
abbrev Sent (ID : Type) := List (Address × Nat × Outgoing ID)

/-- The router's storage and the world outside. -/
structure World (ID E : Type) where
  owner : Address
  settings : Settings
  operations : Operations ID
  shares : Shares
  outside : E
  sent : Sent ID

structure Configuration where
  asset : Address
  tokenBridge : Address
  messageBridge : Address
  destinationChainId : Nat
  destinationDomain : Nat
  remoteRouter : Address

def configuration (s : Settings) : Result Configuration := do
  throwIf (s.asset = 0) (.revert "crosschain asset not configured")
  throwIf (s.tokenBridge = 0) (.revert "crosschain token bridge not configured")
  throwIf (s.bridge = 0) (.revert "crosschain bridge not configured")
  let chain := s.destinationChainId
  throwIf (chain = 0) (.revert "invalid destination chain")
  throwIf (2 ^ 32 ≤ chain) (.revert "crosschain domain exceeds uint32")
  throwIf (s.remoteVaultRouters chain = 0)
    (.revert s!"remote vault router not configured for chain {chain}")
  return ⟨s.asset, s.tokenBridge, s.bridge, chain, chain, s.remoteVaultRouters chain⟩

/-- The interoperable address of an account: the chain reference without leading zeros. -/
def formatEvmV1 (chainId : Nat) (address : Address) : List UInt8 :=
  let word := beBytes 32 chainId
  let chainReference := if word.all (· = 0) then [0] else word.dropWhile (· = 0)
  [0, 1, 0, 0, UInt8.ofNat chainReference.length] ++ chainReference ++ 20 ::
    beBytes 20 address.toNat

def gasAttributes (gasLimit : Nat) : List Nat := if gasLimit = 0 then [] else [gasLimit]

section Calls

variable {ID E : Type} [DecidableEq ID] (X : Externals ID E)

/-! ### Configuration -/

def ensureOwner (sender : Address) : Call (World ID E) Unit := do
  let owner ← reads (·.owner)
  failIf (owner ≠ sender) (.revert "unauthorized")

def ensureNoPendingOperations : Call (World ID E) Unit := do
  let pending ← reads (·.operations.pending)
  failIf (pending ≠ 0) (.revert s!"crosschain operations pending: {pending}")

def setAsset (sender asset tokenBridge : Address) (destinationChainId : Nat) :
    Call (World ID E) Unit := do
  ensureOwner sender
  ensureNoPendingOperations
  failIf (asset = 0 ∨ tokenBridge = 0) (.revert "zero address")
  failIf (destinationChainId = 0 ∨ destinationChainId = X.chainId)
    (.revert "invalid destination chain")
  failIf (2 ^ 32 ≤ destinationChainId) (.revert "crosschain domain exceeds uint32")
  modify fun w => { w with settings := { w.settings with
    asset := asset
    tokenBridge := tokenBridge
    destinationChainId := destinationChainId } }

def setCrosschainBridge (sender bridge : Address) : Call (World ID E) Unit := do
  ensureOwner sender
  ensureNoPendingOperations
  modify fun w => { w with settings := { w.settings with bridge := bridge } }

def setRemoteVaultRouter (sender : Address) (chainId : Nat) (router : Address) :
    Call (World ID E) Unit := do
  ensureOwner sender
  ensureNoPendingOperations
  failIf (chainId = 0 ∨ chainId = X.chainId) (.revert "invalid destination chain")
  modify fun w => { w with settings := { w.settings with
    remoteVaultRouters := update w.settings.remoteVaultRouters chainId router } }

/-! ### Operations -/

variable (user : Address)

def validateAmount (amount : Nat) : Call (World ID E) Unit := do
  failIf (user = 0) (.revert "zero address")
  failIf (amount = 0) (.revert "invalid crosschain amount")

def ensureShares (required : Nat) : Call (World ID E) Unit := do
  let available ← reads (·.shares.held user)
  failIf (available < required) (.revert
    s!"insufficient crosschain shares: available={available}, required={required}")

def ensureFee (provided required : Nat) : Call (World ID E) Unit :=
  failIf (provided ≠ required)
    (.revert s!"crosschain fee mismatch: provided={provided}, required={required}")

def nextOperationId (kind amount : Nat) : Call (World ID E) ID := do
  let last ← reads (·.operations.nonce)
  let nonce := wrappingAdd 256 last 1
  modify fun w => { w with operations := { w.operations with
    nonce := nonce } }
  return X.keccak256 (X.chainId, nonce, user, kind, amount)

def recordOperation (operationId : ID) (user : Address) (amount kind : Nat) :
    Call (World ID E) Unit := do
  let ops ← reads (·.operations)
  failIf (ops.statuses operationId ≠ 0) (.revert "crosschain operation already exists")
  modify fun w => { w with operations := { ops with
    users := update ops.users operationId user
    amounts := update ops.amounts operationId amount
    kinds := update ops.kinds operationId kind
    statuses := update ops.statuses operationId statusPending
    pending := wrappingAdd 256 ops.pending 1 } }

/-- A call of a foreign contract. -/
def call (target : Address) (value : Nat) (message : Outgoing ID) :
    Call (World ID E) (List UInt8) := do
  let (ret, outside) ← query fun w => X.call target value message w.outside
  modify fun w => { w with outside := outside, sent := w.sent ++ [(target, value, message)] }
  return ret

/-- The fee for a call, and the call itself. -/
def quoteFee (bridge : Address) (message : Outgoing ID) (name : String) :
    Call (World ID E) Nat := do
  let ret ← query fun w => X.quote bridge message w.outside
  ofExcept (okOr (X.decodeU256 ret) (.revert ("undecodable sub-call return: " ++ name)))

def sendId (ret : List UInt8) (name : String) : Call (World ID E) B256 :=
  ofExcept (okOr (X.decodeB256 ret) (.revert ("undecodable sub-call return: " ++ name)))

def deposit (amount destinationGasLimit acknowledgementGasLimit value : Nat) :
    Call (World ID E) (ID × B256) := do
  validateAmount user amount
  checkpoint do
    let config ← query fun w => configuration w.settings
    let operationId ← nextOperationId X user operationDeposit amount
    let message := Outgoing.sendAndCall config.destinationDomain config.remoteRouter amount
      ⟨depositRequest, operationId, user, amount, acknowledgementGasLimit⟩ destinationGasLimit
    let requiredFee ← quoteFee X config.tokenBridge message "token bridge quoteSend"
    ensureFee value requiredFee
    recordOperation operationId user amount operationDeposit
    let _ ← call X config.asset 0 (.transferFrom user vaultRouterAddress amount)
    let _ ← call X config.asset 0 (.approve config.tokenBridge amount)
    let ret ← call X config.tokenBridge value message
    let id ← sendId X ret "token bridge sendAndCall"
    let _ ← call X config.asset 0 (.approve config.tokenBridge 0)
    return (operationId, id)

def withdraw (amount requestGasLimit returnGasLimit value : Nat) :
    Call (World ID E) (ID × B256) := do
  validateAmount user amount
  ensureShares user amount
  checkpoint do
    let config ← query fun w => configuration w.settings
    let operationId ← nextOperationId X user operationWithdraw amount
    let message := Outgoing.sendMessage (formatEvmV1 config.destinationChainId config.remoteRouter)
      ⟨withdrawRequest, operationId, user, amount, returnGasLimit⟩ (gasAttributes requestGasLimit)
    let requiredFee ← quoteFee X config.messageBridge message "ERC7786Bridge quote"
    ensureFee value requiredFee
    recordOperation operationId user amount operationWithdraw
    modify fun w => { w with shares :=
      { held := update w.shares.held user (wrappingSub 256 (w.shares.held user) amount)
        total := wrappingSub 256 w.shares.total amount } }
    let ret ← call X config.messageBridge value message
    let id ← sendId X ret "ERC7786Bridge sendMessage"
    return (operationId, id)

/-! ### Callbacks -/

def authenticateRemote (config : Configuration) (caller expectedCaller : Address)
    (sender : List UInt8) : Call (World ID E) Unit :=
  failIf (caller ≠ expectedCaller ∨
      sender ≠ formatEvmV1 config.destinationChainId config.remoteRouter)
    (.revert "invalid crosschain sender")

def validatePendingOperation (operationId : ID) (user : Address) (amount kind : Nat) :
    Call (World ID E) Unit := do
  let ops ← reads (·.operations)
  failIf (ops.statuses operationId = 0) (.revert "crosschain operation not found")
  failIf (ops.statuses operationId = statusCompleted)
    (.revert "crosschain operation already completed")
  failIf (ops.statuses operationId ≠ statusPending ∨
      ops.users operationId ≠ user ∨ ops.amounts operationId ≠ amount ∨
      ops.kinds operationId ≠ kind)
    (.revert "invalid crosschain callback")

/-- The end of both callbacks: the status write and `decrement_pending_operations`. -/
def completeOperation (operationId : ID) : Call (World ID E) Unit := do
  let ops ← reads (·.operations)
  failIf (ops.pending = 0) (.revert "invalid crosschain callback")
  modify fun w => { w with operations := { ops with
    statuses := update ops.statuses operationId statusCompleted
    pending := wrappingSub 256 ops.pending 1 } }

def decodeCallback (payload : List UInt8) : Call (World ID E) (Nat × ID × Address × Nat) :=
  ofExcept (okOr (X.abiDecode payload) (.revert "invalid crosschain callback"))

def receiveDepositAcknowledgement (caller : Address) (value : Nat) (sender payload : List UInt8) :
    Call (World ID E) Unit := do
  failIf (value ≠ 0) (.revert "non-payable function called with value")
  checkpoint do
    let config ← query fun w => configuration w.settings
    authenticateRemote config caller config.messageBridge sender
    let (kind, operationId, user, amount) ← decodeCallback X payload
    failIf (kind ≠ depositAcknowledgement) (.revert "invalid crosschain callback")
    validatePendingOperation operationId user amount operationDeposit
    modify fun w => { w with shares :=
      { held := update w.shares.held user (wrappingAdd 256 (w.shares.held user) amount)
        total := wrappingAdd 256 w.shares.total amount } }
    completeOperation operationId

def receiveWithdrawalReturn (caller : Address) (sourceDomain : Nat) (src : List UInt8)
    (amount : Nat) (extraData : List UInt8) : Call (World ID E) Unit :=
  checkpoint do
    let config ← query fun w => configuration w.settings
    failIf (sourceDomain ≠ config.destinationDomain) (.revert "invalid crosschain sender")
    authenticateRemote config caller config.tokenBridge src
    let (kind, operationId, user, declaredAmount) ← decodeCallback X extraData
    failIf (kind ≠ withdrawReturn ∨ declaredAmount ≠ amount) (.revert "invalid crosschain callback")
    validatePendingOperation operationId user amount operationWithdraw
    let _ ← call X config.asset 0 (.transfer user amount)
    completeOperation operationId

/-! ### Runs -/

/-- The calls of anyone, and what happens outside between two of them. -/
inductive Op (E : Type) where
  | deposit (user : Address) (amount destinationGasLimit acknowledgementGasLimit value : Nat)
  | withdraw (user : Address) (amount requestGasLimit returnGasLimit value : Nat)
  | acknowledgement (caller : Address) (value : Nat) (sender payload : List UInt8)
  | withdrawalReturn (caller : Address) (sourceDomain : Nat) (src : List UInt8) (amount : Nat)
      (extraData : List UInt8)
  | setAsset (sender asset tokenBridge : Address) (destinationChainId : Nat)
  | setCrosschainBridge (sender bridge : Address)
  | setRemoteVaultRouter (sender : Address) (chainId : Nat) (router : Address)
  | outside (e : E)

/-- A call, with the id of the operation it creates. -/
def Op.call : Op E → Call (World ID E) (Option ID)
  | .deposit user amount gas ackGas value =>
    (some ·.1) <$> VaultRouter.deposit X user amount gas ackGas value
  | .withdraw user amount gas returnGas value =>
    (some ·.1) <$> VaultRouter.withdraw X user amount gas returnGas value
  | .acknowledgement caller value sender payload =>
    (fun _ => none) <$> receiveDepositAcknowledgement X caller value sender payload
  | .withdrawalReturn caller domain src amount extraData =>
    (fun _ => none) <$> receiveWithdrawalReturn X caller domain src amount extraData
  | .setAsset sender asset tokenBridge chainId =>
    (fun _ => none) <$> VaultRouter.setAsset X sender asset tokenBridge chainId
  | .setCrosschainBridge sender bridge =>
    (fun _ => none) <$> VaultRouter.setCrosschainBridge sender bridge
  | .setRemoteVaultRouter sender chainId router =>
    (fun _ => none) <$> VaultRouter.setRemoteVaultRouter X sender chainId router
  | .outside e => (fun _ => none) <$> modify fun w => { w with outside := e }

end Calls

end Rudis.VaultRouter
