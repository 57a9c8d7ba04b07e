import RifRelay.Server.Memory
import Mathlib.Data.List.Sort

set_option autoImplicit false

/-! # `TxStoreManager` -/

namespace RifRelay.Server

open EventLoop

variable {ν : Type}

namespace TxStoreManager

variable (cfg : Config)

def putTx (tx : StoredTransaction) (updateExisting : Bool) : Handler ν Unit := do
  Async.assert (tx.attempts ≠ 0) ("Invalid tx:" ++ cfg.stringify tx)
  let existing ← ask (.findOne tx.nonceSigner)
  match existing, updateExisting with
  | some doc, true => ask (.update doc.txId tx)
  -- also where there is nothing to update
  | _, _ => ask (.insert tx)

def sortByNonce (txs : List StoredTransaction) : List StoredTransaction :=
  txs.insertionSort fun tx1 tx2 => tx1.nonce ≤ tx2.nonce

def getAll : Handler ν (List StoredTransaction) := do
  let txs ← ask .find
  return sortByNonce txs

def getAllBySigner (signer : Address) : Handler ν (List StoredTransaction) := do
  let txs ← ask (.findBySigner signer)
  return sortByNonce txs

/-- Remove the documents of `signer` with nonces up to `nonce`. -/
def removeTxsUntilNonce (signer : Address) (nonce : Nat) : Handler ν Unit :=
  ask (.remove ⟨nonce, signer⟩)

/-- A document is a pending action of this kind. -/
def isPending (serverAction : ServerAction) (destination : Option Address)
    (tx : StoredTransaction) : Bool :=
  tx.minedBlockNumber.isNone && tx.serverAction == serverAction &&
    destination.all fun dest => tx.to == some dest

def isActionPending (serverAction : ServerAction) (destination : Option Address) :
    Handler ν Bool := do
  let allTransactions ← awaiting .getAll getAll
  return allTransactions.any (isPending serverAction destination)

end TxStoreManager

end RifRelay.Server
