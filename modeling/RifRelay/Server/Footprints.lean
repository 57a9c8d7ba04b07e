import RifRelay.Server.Process

set_option autoImplicit false

/-! # What the handlers ask and write

A walk over every handler, for any family of programs: if the family has the questions and the
writes of the transaction manager, it has `sendTransaction` and the others; if it has these, the
questions that only read, and a few writes that nobody minds (`QuietWrite`), it has the requests
and most parts of a round; if it has the other writes of the rounds too (`RoundWrite`), it has
the rounds.
-/

namespace RifRelay.Server

open EventLoop TransactionManager TxStoreManager

variable {ν : Type} {α : Type} (cfg : Config)

/-- A question whose answer leaves the memory as it is. -/
def Question.isRead (q : Question) : Bool :=
  match q with
  | .acquire | .insert _ | .update _ _ | .remove _ | .broadcastTransaction _ => false
  | _ => true

theorem effect_of_isRead {ω : Type} (N : Node ν ω) {q : Question} (h : q.isRead = true)
    (m : Memory ν) (i : ℕ) (a : Except String (Answer q)) : effect N m i q a = m := by
  unfold effect
  split <;> first | rfl | cases h

/-- A question that gives no transaction to the node. -/
def Question.isSilent (q : Question) : Bool :=
  match q with
  | .broadcastTransaction _ => false
  | _ => true

theorem Question.isSilent_of_isRead {q : Question} (h : q.isRead = true) : q.isSilent = true := by
  cases q with
  | broadcastTransaction signedTx => cases h
  | _ => rfl

/-- The writes of the transaction manager. -/
inductive ManagerWrite : (Memory ν → Memory ν) → Prop
  | lift (signer : Address) (nonce : Nat) : ManagerWrite (liftNonce signer nonce)
  | count (signer : Address) : ManagerWrite (countNonce signer)
  | release : ManagerWrite releaseMutex
  | sign (s : Signature) :
      ManagerWrite (note fun r => { r with signatures := r.signatures ++ [s] })

/-- The writes of the rounds and the requests that only concern gas prices, balances and the time
of the last activity. -/
inductive QuietWrite : (Memory ν → Memory ν) → Prop
  | workerBalance (n : Nat) : QuietWrite fun m => { m with workerBalance := n }
  | gasPrice (n : Nat) : QuietWrite fun m => { m with gasPrice := n }
  | lastMined (event : Option KnownRelaysManager.EventData) :
      QuietWrite fun m => { m with lastMinedActiveTransaction := event }
  | lastRefresh (n : Nat) : QuietWrite fun m => { m with lastRefreshBlock := n }

/-- A refresh has found what a ready server needs. -/
def Findings.Sufficient (found : Findings) : Prop :=
  cfg.managerMinBalance ≤ found.managerBalance ∧ found.isRegistered = some true ∧
    ∃ balance, found.workerBalance = some balance ∧ cfg.workerMinBalance ≤ balance

/-- The other writes of the rounds. The server becomes ready only when it has found enough. -/
inductive RoundWrite : (Memory ν → Memory ν) → Prop
  | registration (f : RegistrationManager → RegistrationManager) :
      RoundWrite (RegistrationManager.modify f)
  | stakes (info : StakeInfo) : RoundWrite (note fun r => { r with stakes := r.stakes ++ [info] })
  | payout (d : SendTransactionDetails) : RoundWrite (note (RegistrationManager.notePayout d))
  | inRound (f : Round → Round) : RoundWrite (note (·.inRound f))
  | noteScanned : RoundWrite (RegistrationManager.noteScanned cfg)
  | stopPolling : RoundWrite fun m => { m with polling := false }
  | trusted : RoundWrite (RelayServer.initTrustedVerifiers cfg)
  | exit : RoundWrite fun m => { m with exited := true }
  | initialized : RoundWrite fun m => { m with initialized := true }
  | storeScan (n : Nat) : RoundWrite (RelayServer.storeScan cfg n)
  | setAlert (n : Nat) : RoundWrite (RelayServer.setAlert n)
  | noteAlert (event : KnownRelaysManager.EventData) : RoundWrite (RelayServer.noteAlert event)
  | leaveAlert (n : Nat) : RoundWrite (RelayServer.leaveAlert cfg n)
  | notReady (found : Findings) : RoundWrite (RelayServer.setReadyState false found)
  | ready (found : Findings) (h : found.Sufficient cfg) :
      RoundWrite (RelayServer.setReadyState true found)
  | begin (i : ℕ) (n : Nat) : RoundWrite (RelayServer.beginRound i n)
  | release : RoundWrite RelayServer.releaseSemaphore
  | complete : RoundWrite RelayServer.completeRound
  | reset (outcome : Outcome) (h : outcome ≠ .completed) :
      RoundWrite (RelayServer.resetRounds outcome)

section Walk

variable {K : Family (Memory ν) Question Answer}

theorem awaiting_has {f : AsyncFunction} {p : Handler ν α} (hask : K.asks (.settled f))
    (hp : K.has p) : K.has (awaiting f p) := Family.call hp fun _ => hask

/-! ## `TxStoreManager` and `TransactionManager` -/

theorem getAll_has (hread : ∀ q, q.isRead = true → K.asks q) :
    K.has (getAll : Handler ν (List StoredTransaction)) :=
  Family.next (hread _ rfl) fun _ => K.done _

theorem isActionPending_has (hread : ∀ q, q.isRead = true → K.asks q) (action : ServerAction)
    (dest : Option Address) : K.has (isActionPending action dest : Handler ν Bool) :=
  Family.next (awaiting_has (hread _ rfl) (getAll_has hread)) fun _ => K.done _

theorem polled_has (hread : ∀ q, q.isRead = true → K.asks q)
    (hwrite : ∀ f, ManagerWrite f → K.writes f) (signer : Address) :
    K.has (polled signer : Handler ν (Option Nat)) := by
  refine Family.call ?_ fun r => hread _ rfl
  apply Family.next (hread _ rfl)
  intro nonce
  exact Family.next (hwrite _ (.lift signer nonce)) fun _ => Family.next K.get fun _ => K.done _

theorem attemptEstimateGas_has (hread : ∀ q, q.isRead = true → K.asks q) (method : CallData)
    (a : Address) : K.has (attemptEstimateGas cfg method a : Handler ν Nat) :=
  Family.recover (Family.next (hread _ rfl) fun _ => K.done _) fun _ => K.done _

theorem signTransaction_has (hwrite : ∀ f, ManagerWrite f → K.writes f)
    (signer : Address) (txToSign : Transaction) (resent : Bool) :
    K.has (signTransaction cfg signer txToSign resent : Handler ν SignedTransaction) := by
  apply Family.next (Family.assert _ _)
  intro _
  exact Family.next (hwrite _ (.sign _)) fun _ => K.done _

section Silent

variable (hsilent : ∀ q, q.isSilent = true → K.asks q)
include hsilent

theorem putTx_has (tx : StoredTransaction) (updateExisting : Bool) :
    K.has (putTx cfg tx updateExisting : Handler ν Unit) := by
  apply Family.next (Family.assert _ _)
  intro _
  apply Family.next (hsilent _ rfl)
  intro existing
  split
  · exact hsilent _ rfl
  · exact hsilent _ rfl

theorem updateTransactionWithAttempt_has (txToSign : SignedTransaction) (tx : StoredTransaction)
    (currentBlock : Nat) :
    K.has (updateTransactionWithAttempt cfg txToSign tx currentBlock : Handler ν _) :=
  Family.next (awaiting_has (hsilent _ rfl) (putTx_has cfg hsilent _ _)) fun _ => K.done _

theorem removeIfConfirmed_has (blockNumber : Nat) (tx : StoredTransaction) :
    K.has (removeIfConfirmed cfg blockNumber tx : Handler ν Unit) := by
  unfold removeIfConfirmed
  apply Family.ite
  · intro _
    apply Family.next (hsilent _ rfl)
    intro receipt
    split
    · exact K.done _
    · split
      · exact K.done _
      · apply Family.ite
        · intro _
          exact awaiting_has (hsilent _ rfl)
            (awaiting_has (hsilent _ rfl) (putTx_has cfg hsilent _ _))
        · exact fun _ => awaiting_has (hsilent _ rfl) (hsilent _ rfl)
  · exact fun _ => K.done _

theorem removeConfirmedTransactions_has (blockNumber : Nat) :
    K.has (removeConfirmedTransactions cfg blockNumber : Handler ν Unit) := by
  apply Family.next (awaiting_has (hsilent _ rfl) (getAll_has fun q hq => hsilent q ?_))
  · intro sortedTxs
    exact Family.each (removeIfConfirmed_has cfg hsilent blockNumber) sortedTxs
  · exact Question.isSilent_of_isRead hq

theorem assignNonce_has (hwrite : ∀ f, ManagerWrite f → K.writes f) (d : SendTransactionDetails)
    (gasPrice : Nat) : K.has (assignNonce cfg d gasPrice : Handler ν _) := by
  apply Family.next
    (polled_has (fun q hq => hsilent q (Question.isSilent_of_isRead hq)) hwrite d.signer)
  intro nonce
  refine Family.next ?_ fun value => ?_
  · unfold encodeValue
    split
    · exact K.done _
    · exact Family.throw _
  · apply Family.next (signTransaction_has cfg hwrite _ _ _)
    intro signedTx
    apply Family.next (hwrite _ (.count d.signer))
    intro _
    exact Family.next (awaiting_has (hsilent _ rfl) (putTx_has cfg hsilent _ _)) fun _ => K.done _

end Silent

theorem chooseGasPrice_has (hread : ∀ q, q.isRead = true → K.asks q)
    (d : SendTransactionDetails) : K.has (chooseGasPrice d : Handler ν Nat) := by
  unfold chooseGasPrice
  split
  · exact K.done _
  · exact hread _ rfl

variable (hask : ∀ q, K.asks q) (hwrite : ∀ f, ManagerWrite f → K.writes f)
include hask

theorem broadcast_has (signedTx : SignedTransaction) (storedTx : StoredTransaction) :
    K.has (broadcast signedTx storedTx : Handler ν SignedTransactionDetails) :=
  Family.next (hask _) fun _ => Family.next (Family.assert _ _) fun _ => K.done _

include hwrite

theorem sendTransaction_has (d : SendTransactionDetails) :
    K.has (sendTransaction cfg d : Handler ν SignedTransactionDetails) := by
  apply Family.next (chooseGasPrice_has (fun q _ => hask q) d)
  intro gasPrice
  apply Family.next (hask _)
  intro _
  apply Family.next
    (Family.ensuring (assignNonce_has cfg (fun q _ => hask q) hwrite d gasPrice)
      (hwrite _ .release))
  exact fun _ => broadcast_has hask _ _

theorem resendTransaction_has (tx : StoredTransaction) (currentBlock : Nat)
    (newGasPrice : Doubles.Number) :
    K.has (resendTransaction cfg tx currentBlock newGasPrice : Handler ν _) := by
  apply Family.next (K.done _)
  intro gasPrice
  apply Family.next (signTransaction_has cfg hwrite _ _ _)
  intro signedTx
  apply Family.next 
    (awaiting_has (hask _) (updateTransactionWithAttempt_has cfg (fun q _ => hask q) _ _ _))
  intro storedTx
  exact Family.next (hask _) fun _ => broadcast_has hask _ _

theorem resendAll_has (currentBlock : Nat) (newGasPrice : Doubles.Number)
    (txs : List StoredTransaction) :
    K.has (resendAll cfg currentBlock newGasPrice txs : Handler ν _) := by
  induction txs with
  | nil => exact K.done _
  | cons tx rest ih =>
      apply Family.next (awaiting_has (hask _) (resendTransaction_has cfg hask hwrite _ _ _))
      intro details
      exact Family.next ih fun _ => K.done _

theorem boost_has (signer : Address) (currentBlockHeight : Nat) :
    K.has (boostUnderpricedPendingTransactionsForSigner cfg signer currentBlockHeight :
      Handler ν _) := by
  apply Family.next (awaiting_has (hask _) (Family.next (hask _) fun _ => K.done _))
  intro sortedTxs
  split
  · exact K.done _
  · apply Family.next (hask _)
    intro nonce
    apply Family.ite
    · exact fun _ => K.done _
    · intro _
      apply Family.ite
      · exact fun _ => K.done _
      · exact fun _ => resendAll_has cfg hask hwrite _ _ _

end Walk

/-! ## Quiet programs -/

/-- A family that has what the requests are made of. -/
structure Quiet (K : Family (Memory ν) Question Answer) : Prop where
  read : ∀ q, q.isRead = true → K.asks q
  quiet : ∀ f, QuietWrite f → K.writes f
  poll : ∀ signer, K.has (polled signer : Handler ν (Option Nat))
  send : ∀ d, K.has (sendTransaction cfg d : Handler ν SignedTransactionDetails)
  remove : ∀ n, K.has (removeConfirmedTransactions cfg n : Handler ν Unit)
  boost : ∀ signer n,
    K.has (boostUnderpricedPendingTransactionsForSigner cfg signer n : Handler ν _)

/-- A family that has what the transaction manager is made of. -/
theorem Quiet.of_asks {K : Family (Memory ν) Question Answer} (hask : ∀ q, K.asks q)
    (hwrite : ∀ f, ManagerWrite f → K.writes f) (hquiet : ∀ f, QuietWrite f → K.writes f) :
    Quiet cfg K where
  read q _ := hask q
  quiet := hquiet
  poll := polled_has (fun q _ => hask q) hwrite
  send := sendTransaction_has cfg hask hwrite
  remove := removeConfirmedTransactions_has cfg fun q _ => hask q
  boost := boost_has cfg hask hwrite

theorem validateInput_has {K : Family (Memory ν) Question Answer}
    (req : RelayTransactionRequest) :
    K.has (RelayServer.validateInput cfg req : Handler ν Unit) := by
  apply Family.next (Family.assert _ _)
  intro _
  apply Family.next (Family.assert _ _)
  intro _
  exact Family.next K.get fun _ => Family.assert _ _

theorem validateRequestWithVerifier_has {K : Family (Memory ν) Question Answer}
    (hread : ∀ q, q.isRead = true → K.asks q) (req : RelayTransactionRequest) :
    K.has (RelayServer.validateRequestWithVerifier cfg req : Handler ν Nat) := by
  apply Family.next K.get
  intro m
  apply Family.next (Family.assert _ _)
  intro _
  apply Family.next (Family.recover (hread _ rfl) fun _ => Family.throw _)
  intro _
  refine Family.next ?_ fun gas => ?_
  · unfold RelayServer.maxPossibleGas
    split
    · exact hread _ rfl
    · apply Family.next (hread _ rfl)
      intro estimated
      exact Family.next (Family.assert _ _) fun _ => hread _ rfl
  · apply Family.next (Family.recover (hread _ rfl) fun _ => Family.throw _)
    exact fun _ => K.done _

theorem getAllHubEventsSinceLastScan_has {K : Family (Memory ν) Question Answer}
    (hread : ∀ q, q.isRead = true → K.asks q) :
    K.has (RelayServer.getAllHubEventsSinceLastScan : Handler ν _) :=
  Family.next K.get fun _ => hread _ rfl

namespace Quiet

variable {cfg} {K : Family (Memory ν) Question Answer} (h : Quiet cfg K)
include h

theorem queryLatestEvent (name : EventName) :
    K.has (RegistrationManager.queryLatestEvent name : Handler ν _) :=
  Family.next (h.read _ rfl) fun _ => K.done _

theorem addRelayWorker (n : Nat) :
    K.has (RegistrationManager.addRelayWorker cfg n : Handler ν Word) := by
  apply Family.next (h.read _ rfl)
  intro _
  apply Family.next (awaiting_has (h.read _ rfl) (attemptEstimateGas_has cfg h.read _ _))
  intro gasLimit
  exact Family.next (awaiting_has (h.read _ rfl) (h.send _)) fun _ => K.done _

theorem registerRelay (n : Nat) :
    K.has (RegistrationManager.registerRelay cfg n : Handler ν Word) := by
  apply Family.next (h.read _ rfl)
  intro _
  apply Family.next (awaiting_has (h.read _ rfl) (attemptEstimateGas_has cfg h.read _ _))
  intro gasLimit
  exact Family.next (awaiting_has (h.read _ rfl) (h.send _)) fun _ => K.done _

theorem attemptRegistration (n : Nat) :
    K.has (RegistrationManager.attemptRegistration cfg n : Handler ν _) := by
  apply Family.next K.get
  intro m
  apply Family.ite
  · exact fun _ => K.done _
  · intro _
    apply Family.next (awaiting_has (h.read _ rfl) (isActionPending_has h.read _ _))
    intro addWorkersPending
    refine Family.next (Family.ite (fun _ => ?_) fun _ => K.done _) fun added => ?_
    · exact Family.next (awaiting_has (h.read _ rfl) (h.addRelayWorker n)) fun _ => K.done _
    · exact Family.next (h.registerRelay n) fun _ => K.done _

theorem registerIfNeeded (n : Nat) (force : Bool) :
    K.has (RegistrationManager.registerIfNeeded cfg n force : Handler ν _) := by
  apply Family.next (awaiting_has (h.read _ rfl) (Family.next K.get fun _ => K.done _))
  intro isRegistrationCorrect
  apply Family.next (awaiting_has (h.read _ rfl) (isActionPending_has h.read _ _))
  intro isRegistrationPending
  apply Family.ite
  · exact fun _ => awaiting_has (h.read _ rfl) (h.attemptRegistration n)
  · exact fun _ => K.done _

theorem refreshGasPrice : K.has (RelayServer.refreshGasPrice cfg : Handler ν Unit) := by
  apply Family.next (h.read _ rfl)
  intro gasPriceString
  apply Family.next (h.quiet _ (.gasPrice _))
  intro _
  exact Family.next K.get fun _ => Family.assert _ _

theorem updateLatestTxBlockNumber (events : List KnownRelaysManager.EventData) :
    K.has (RelayServer.updateLatestTxBlockNumber events : Handler ν _) := by
  refine Family.next (Family.whenever fun _ => h.quiet _ (.lastMined _)) fun _ => ?_
  apply Family.next K.get
  intro m
  refine Family.next (Family.whenever fun _ => ?_) fun _ => K.done _
  apply Family.next (awaiting_has (h.read _ rfl) (Family.next (h.read _ rfl) fun _ => K.done _))
  exact fun _ => h.quiet _ (.lastMined _)

theorem shouldRegisterAgain (n : Nat) :
    K.has (RelayServer.shouldRegisterAgain cfg n : Handler ν Bool) := by
  apply Family.next (awaiting_has (h.read _ rfl) (isActionPending_has h.read _ _))
  intro relayPending
  refine Family.next (Family.ite (fun _ => K.done _) fun _ => ?_) fun isPending => ?_
  · exact awaiting_has (h.read _ rfl) (isActionPending_has h.read _ _)
  · exact Family.ite (fun _ => K.done _) fun _ => Family.next K.get fun _ => K.done _

theorem boostStuckPendingTransactions (n : Nat) :
    K.has (RelayServer.boostStuckPendingTransactions cfg n : Handler ν _) := by
  apply Family.next (awaiting_has (h.read _ rfl) (h.boost _ _))
  intro manager
  exact Family.next (awaiting_has (h.read _ rfl) (h.boost _ _)) fun _ => K.done _

theorem defaultReplenishFunction (n : Nat) :
    K.has (Server.defaultReplenishFunction cfg n : Handler ν _) := by
  apply Family.next (awaiting_has (h.read _ rfl) (h.read _ rfl))
  intro managerEthBalance
  apply Family.next (awaiting_has (h.read _ rfl) (h.read _ rfl))
  intro workerBalance
  apply Family.next (h.quiet _ (.workerBalance _))
  intro _
  apply Family.next K.get
  intro m
  apply Family.ite
  · exact fun _ => K.done _
  intro _
  apply Family.next (awaiting_has (h.read _ rfl) (h.read _ rfl))
  intro managerEthBalance
  apply Family.next K.get
  intro m
  apply Family.next (awaiting_has (h.read _ rfl) (isActionPending_has h.read _ _))
  intro isReplenishPending
  apply Family.ite
  · intro _
    apply Family.next K.get
    intro m
    apply Family.ite
    · intro _
      exact Family.next (awaiting_has (h.read _ rfl) (h.send _)) fun _ => K.done _
    · exact fun _ => K.done _
  · exact fun _ => K.done _

theorem replenishServer (n : Nat) : K.has (RelayServer.replenishServer cfg n : Handler ν _) := by
  apply awaiting_has (h.read _ rfl)
  apply Family.ite
  · exact fun _ => Family.throw _
  · exact fun _ => awaiting_has (h.read _ rfl) (h.defaultReplenishFunction n)

theorem validateMaxNonce (relayMaxNonce : Int) :
    K.has (RelayServer.validateMaxNonce cfg relayMaxNonce : Handler ν Unit) :=
  Family.next (h.poll _) fun _ => Family.assert _ _

theorem createRelayTransaction
    (hreplenish : ∀ n, K.has (RelayServer.replenishServer cfg n : Handler ν _))
    (req : RelayTransactionRequest) :
    K.has (RelayServer.createRelayTransaction cfg req : Handler ν _) := by
  apply Family.next K.get
  intro m
  apply Family.next (Family.assert _ _)
  intro _
  apply Family.next (Family.whenever fun _ => h.read _ rfl)
  intro _
  apply Family.next (validateInput_has cfg req)
  intro _
  apply Family.next (awaiting_has (h.read _ rfl) (h.validateMaxNonce _))
  intro _
  apply Family.next (awaiting_has (h.read _ rfl) (validateRequestWithVerifier_has cfg h.read req))
  intro gas
  refine Family.next (awaiting_has (h.read _ rfl) ?_) fun _ => ?_
  · exact Family.recover (h.read _ rfl) fun _ => Family.throw _
  apply Family.next (h.read _ rfl)
  intro currentBlock
  apply Family.next (awaiting_has (h.read _ rfl) (h.send _))
  intro txDetails
  exact Family.next (awaiting_has (h.read _ rfl) (hreplenish _)) fun _ => K.done _

end Quiet

/-! ## The rounds -/

/-- A family that has what the rounds are made of. -/
structure Rounds (K : Family (Memory ν) Question Answer) : Prop extends Quiet cfg K where
  write : ∀ f, RoundWrite cfg f → K.writes f

theorem collect_has {K : Family (Memory ν) Question Answer}
    {f : KnownRelaysManager.EventData → Handler ν (List Word)}
    (hf : ∀ e, K.has (f e)) (events : List KnownRelaysManager.EventData) :
    K.has (RegistrationManager.collect f events) := by
  induction events with
  | nil => exact K.done _
  | cons e rest ih => exact Family.next (hf e) fun _ => Family.next ih fun _ => K.done _

namespace Rounds

variable {cfg} {K : Family (Memory ν) Question Answer} (h : Rounds cfg K)
include h

/-! ### The registration manager -/

section Registration

open RegistrationManager

theorem registrationInit : K.has (RegistrationManager.init : Handler ν Unit) := by
  apply Family.next K.get
  intro m
  refine Family.next (Family.whenever fun _ => ?_) fun _ => ?_
  · apply Family.next (awaiting_has (h.read _ rfl) (h.toQuiet.queryLatestEvent _))
    exact fun _ => h.write _ (.registration _)
  apply Family.next K.get
  intro m
  refine Family.next (Family.whenever fun _ => ?_) fun _ => ?_
  · apply Family.next (awaiting_has (h.read _ rfl) (h.toQuiet.queryLatestEvent _))
    exact fun _ => h.write _ (.registration _)
  · exact h.write _ (.registration _)

theorem refreshBalance : K.has (RegistrationManager.refreshBalance cfg : Handler ν Unit) :=
  Family.next (h.read _ rfl) fun _ => h.write _ (.registration _)

theorem refreshStake : K.has (RegistrationManager.refreshStake : Handler ν Unit) := by
  apply Family.next (h.read _ rfl)
  intro stakeInfo
  exact Family.next (h.write _ (.stakes stakeInfo)) fun _ => h.write _ (.registration _)

theorem sendBalanceToOwner (signer : Address) (n : Nat) :
    K.has (RegistrationManager.sendBalanceToOwner cfg signer n : Handler ν _) := by
  apply Family.next (h.read _ rfl)
  intro gasPrice
  apply Family.next (h.read _ rfl)
  intro balance
  apply Family.ite
  · intro _
    apply Family.next K.get
    intro m
    apply Family.next (h.write _ (.payout _))
    intro _
    exact Family.next (awaiting_has (h.read _ rfl) (h.send _)) fun _ => K.done _
  · exact fun _ => K.done _

theorem withdrawAllFunds (withdrawManager : Bool) (n : Nat) :
    K.has (RegistrationManager.withdrawAllFunds cfg withdrawManager n : Handler ν _) := by
  apply Family.next (awaiting_has (h.read _ rfl) (h.sendBalanceToOwner _ _))
  intro workers
  refine Family.next (Family.ite (fun _ => ?_) fun _ => K.done _) fun manager => ?_
  · exact awaiting_has (h.read _ rfl) (h.sendBalanceToOwner _ _)
  · exact Family.next (h.write _ .stopPolling) fun _ => K.done _

theorem handleStakeEvent (e : KnownRelaysManager.EventData) (withdrawManager : Bool) (n : Nat) :
    K.has (RegistrationManager.handleStakeEvent cfg e withdrawManager n : Handler ν _) :=
  Family.next (h.write _ (.inRound _)) fun _ =>
    awaiting_has (h.read _ rfl) (h.withdrawAllFunds _ _)

theorem handlePastEvent (n : Nat) (e : KnownRelaysManager.EventData) :
    K.has (RegistrationManager.handlePastEvent cfg n e : Handler ν _) := by
  unfold RegistrationManager.handlePastEvent
  split
  · exact Family.next (awaiting_has (h.read _ rfl) h.refreshStake) fun _ => K.done _
  · refine Family.next (awaiting_has (h.read _ rfl) h.refreshStake) fun _ => ?_
    exact Family.next (h.write _ (.registration _)) fun _ => K.done _
  · refine Family.next (awaiting_has (h.read _ rfl) h.refreshStake) fun _ => ?_
    exact awaiting_has (h.read _ rfl) (h.handleStakeEvent _ _ _)
  · exact K.done _

theorem handleDueEvent (n : Nat) (e : KnownRelaysManager.EventData) :
    K.has (RegistrationManager.handleDueEvent cfg n e : Handler ν _) := by
  unfold RegistrationManager.handleDueEvent
  split
  · exact awaiting_has (h.read _ rfl) (h.handleStakeEvent _ _ _)
  · exact K.done _

theorem handlePastEvents (events : List KnownRelaysManager.EventData) (last n : Nat)
    (force : Bool) :
    K.has (RegistrationManager.handlePastEvents cfg events last n force : Handler ν _) := by
  apply Family.next K.get
  intro m
  apply Family.next (Family.assert _ _)
  intro _
  apply Family.next (h.write _ (.inRound _))
  intro _
  apply Family.next (h.read _ rfl)
  intro decodedEvents
  apply Family.next (h.write _ (.inRound _))
  intro _
  apply Family.next (collect_has (h.handlePastEvent n) decodedEvents)
  intro withdrawn
  apply Family.next (h.write _ (.registration _))
  intro _
  apply Family.next K.get
  intro m
  apply Family.next (h.write _ (.registration _))
  intro _
  apply Family.next (collect_has (h.handleDueEvent n) _)
  intro unlocked
  apply Family.next (h.registerIfNeeded n force)
  intro registered
  exact Family.next (h.write _ .noteScanned) fun _ => K.done _

end Registration

/-! ### The server -/

section Server

open RelayServer

theorem init : K.has (RelayServer.init cfg : Handler ν Unit) := by
  apply Family.next K.get
  intro m
  apply Family.next (Family.assert _ _)
  intro _
  apply Family.next (h.write _ .trusted)
  intro _
  apply Family.next (h.read _ rfl)
  intro _
  apply Family.next (h.read _ rfl)
  intro codeLength
  refine Family.next (Family.whenever fun _ => ?_) fun _ => ?_
  · exact Family.next (h.write _ .exit) fun _ => h.read _ rfl
  apply Family.next (h.write _ (.registration _))
  intro _
  apply Family.next (awaiting_has (h.read _ rfl) h.registrationInit)
  intro _
  exact Family.next (h.read _ rfl) fun _ => h.write _ .initialized

theorem handlePastHubEvents (n : Nat) (events : List KnownRelaysManager.EventData) :
    K.has (RelayServer.handlePastHubEvents n events : Handler ν Unit) := by
  refine Family.each (fun e => ?_) events
  unfold RelayServer.handlePastHubEvent
  split
  · apply Family.next (h.write _ (.setAlert n))
    intro _
    exact Family.next (h.write _ (.noteAlert e)) fun _ => h.read _ rfl
  · exact h.read _ rfl
  · exact K.done _

variable (hreplenish : ∀ n, K.has (RelayServer.replenishServer cfg n : Handler ν _))
include hreplenish

theorem serveRegistered (n managerBalance : Nat) (hb : cfg.managerMinBalance ≤ managerBalance)
    (isRegistered : Bool) (hregistered : isRegistered = true)
    (events : List KnownRelaysManager.EventData) :
    K.has (RelayServer.serveRegistered cfg n managerBalance isRegistered events : Handler ν _) := by
  apply Family.next (awaiting_has (h.read _ rfl) (h.handlePastHubEvents n events))
  intro _
  apply Family.next (awaiting_has (h.read _ rfl) (hreplenish n))
  intro replenished
  apply Family.next (awaiting_has (h.read _ rfl) (h.read _ rfl))
  intro workerBalance
  apply Family.ite
  · intro _
    exact Family.next (h.write _ (.notReady _)) fun _ => K.done _
  · intro hlt
    have hfound : Findings.Sufficient cfg ⟨managerBalance, some isRegistered, some workerBalance⟩ :=
      ⟨hb, congrArg some hregistered, workerBalance, rfl, Nat.le_of_not_lt hlt⟩
    refine Family.next (h.write _ (.ready _ hfound)) fun _ => ?_
    exact Family.next (h.write _ (.leaveAlert n)) fun _ => K.done _

theorem handleChanges (n managerBalance : Nat) (hb : cfg.managerMinBalance ≤ managerBalance) :
    K.has (RelayServer.handleChanges cfg n managerBalance : Handler ν _) := by
  apply Family.next (awaiting_has (h.read _ rfl) (getAllHubEventsSinceLastScan_has h.read))
  intro events
  apply Family.next (awaiting_has (h.read _ rfl) (h.updateLatestTxBlockNumber events))
  intro events
  apply Family.next (awaiting_has (h.read _ rfl) (h.shouldRegisterAgain n))
  intro again
  apply Family.next K.get
  intro m
  apply Family.next (awaiting_has (h.read _ rfl) (h.handlePastEvents events _ n again))
  intro transactionHashes
  apply Family.next (awaiting_has (h.read _ rfl) (h.remove n))
  intro _
  apply Family.next (awaiting_has (h.read _ rfl) (h.boostStuckPendingTransactions n))
  intro _
  apply Family.next (h.write _ (.storeScan n))
  intro _
  apply Family.next (awaiting_has (h.read _ rfl) (Family.next K.get fun _ => K.done _))
  intro isRegistered
  apply Family.ite
  · intro _
    exact Family.next (h.write _ (.notReady _)) fun _ => K.done _
  · intro hregistered
    exact Family.next (h.serveRegistered hreplenish n managerBalance hb isRegistered
      (by simpa using hregistered) events) fun _ => K.done _

theorem worker (n : Nat) : K.has (RelayServer.worker cfg n : Handler ν _) := by
  apply Family.next K.get
  intro m
  refine Family.next (Family.whenever fun _ => awaiting_has (h.read _ rfl) h.init) fun _ => ?_
  apply Family.next K.get
  intro m
  apply Family.next (Family.assert _ _)
  intro _
  apply Family.ite
  · exact fun _ => K.done _
  intro _
  apply Family.next (h.quiet _ (.lastRefresh n))
  intro _
  apply Family.next (awaiting_has (h.read _ rfl) h.refreshGasPrice)
  intro _
  apply Family.next (awaiting_has (h.read _ rfl) h.refreshBalance)
  intro _
  apply Family.next K.get
  intro m
  apply Family.ite
  · intro _
    exact Family.next (h.write _ (.notReady _)) fun _ => K.done _
  · intro hsatisfied
    have hb : cfg.managerMinBalance ≤ m.registrationManager.balance := by
      simpa [RegistrationManager.isBalanceSatisfied] using hsatisfied
    exact awaiting_has (h.read _ rfl) (h.handleChanges hreplenish n _ hb)

theorem workerSemaphore (i : ℕ) (n : Nat) :
    K.has (RelayServer.workerSemaphore cfg i n : Handler ν Unit) := by
  apply Family.next K.get
  intro m
  apply Family.ite
  · exact fun _ => K.done _
  intro _
  apply Family.next (h.write _ (.begin i n))
  intro _
  refine Family.ensuring (Family.next ?_ fun _ => h.write _ .complete) (h.write _ .release)
  exact awaiting_has (h.read _ rfl) (h.worker hreplenish n)

theorem intervalHandler (i : ℕ) : K.has (RelayServer.intervalHandler cfg i : Handler ν Unit) := by
  refine Family.recover ?_ fun _ => h.write _ (.reset .failed (by decide))
  apply Family.next (h.read _ rfl)
  intro blockNumber
  apply Family.next K.get
  intro m
  exact Family.whenever fun _ => awaiting_has (h.read _ rfl) (h.workerSemaphore hreplenish i _)

/-! ### Requests -/

/-- All handlers. -/
theorem handler (hresend : ∀ tx n p, K.has (resendTransaction cfg tx n p : Handler ν _)) (i : ℕ)
    (c : Call) : K.has (Server.handler cfg i c : Handler ν Reply) := by
  cases c with
  | createRelayTransaction req =>
      exact Family.next (h.createRelayTransaction hreplenish req) fun _ => K.done _
  | intervalHandler => exact Family.next (h.intervalHandler hreplenish i) fun _ => K.done _
  | readyTimeout j =>
      exact Family.next (h.write _ (.reset .timedOut (by decide))) fun _ => K.done _
  | sendTransaction d => exact Family.next (h.send d) fun _ => K.done _
  | pollNonce signer => exact Family.next (h.poll signer) fun _ => K.done _
  | resendTransaction tx n p => exact Family.next (hresend tx n p) fun _ => K.done _
  | boostUnderpricedPendingTransactionsForSigner signer n =>
      exact Family.next (h.boost signer n) fun _ => K.done _
  | replenishServer n => exact Family.next (hreplenish n) fun _ => K.done _

end Server

end Rounds

/-- All handlers are in a family that has all questions and writes. -/
theorem handler_has {K : Family (Memory ν) Question Answer} (hask : ∀ q, K.asks q)
    (hwrite : ∀ f, ManagerWrite f → K.writes f) (hquiet : ∀ f, QuietWrite f → K.writes f)
    (hround : ∀ f, RoundWrite cfg f → K.writes f) (i : ℕ) (c : Call) :
    K.has (handler cfg i c : Handler ν Reply) :=
  have h : Rounds cfg K := ⟨.of_asks cfg hask hwrite hquiet, hround⟩
  h.handler h.replenishServer (resendTransaction_has cfg hask hwrite) i c

/-! ## Shapes of writes -/

/-- Another state of the transaction manager. -/
def Memory.withTransactions (m : Memory ν) (nonces : Address → Option Nat) (mutex : Option ℕ)
    (signatures : List Signature) : Memory ν :=
  { m with
    nonces := nonces, nonceMutex := mutex, record := { m.record with signatures := signatures } }

/-- The transaction manager writes nothing else. -/
theorem ManagerWrite.shape {f : Memory ν → Memory ν} (h : ManagerWrite f) (m : Memory ν) :
    ∃ nonces mutex signatures, f m = m.withTransactions nonces mutex signatures := by
  cases h with
  | lift signer nonce =>
      unfold liftNonce
      split
      · split
        · exact ⟨_, _, _, rfl⟩
        · exact ⟨_, _, _, rfl⟩
      · exact ⟨_, _, _, rfl⟩
  | count signer => exact ⟨_, _, _, rfl⟩
  | release => exact ⟨_, _, _, rfl⟩
  | sign s => exact ⟨_, _, _, rfl⟩

/-- Another state of the mutex, the database and the node. -/
def Memory.withOutside (m : Memory ν) (mutex : Option ℕ) (txstore : List StoredTransaction)
    (node : ν) : Memory ν :=
  { m with nonceMutex := mutex, txstore := txstore, node := node }

/-- An answer changes nothing else. -/
theorem effect_shape {ω : Type} (N : Node ν ω) (m : Memory ν) (i : ℕ) (q : Question)
    (answer : Except String (Answer q)) :
    ∃ mutex txstore node, effect N m i q answer = m.withOutside mutex txstore node := by
  unfold effect
  split <;> exact ⟨_, _, _, rfl⟩

end RifRelay.Server
