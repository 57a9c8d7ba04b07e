import RifRelay.Server.Footprints
import RifRelay.Tasks.Threads

set_option autoImplicit false

/-! # Handlers by themselves

The runs of one handler of the server (`Tasks/Threads.lean`): the database, the mutex and the
node answer it as they do in `Server/Process.lean`, and `others` is what the other handlers may
do to the memory in between.
-/

namespace RifRelay.Server

open EventLoop TransactionManager TxStoreManager

variable {ν ω α : Type} (N : Node ν ω) (i : ℕ) (others : Memory ν → Memory ν → Prop)

/-- The outside of thread `i`. -/
def outside : Surroundings (Memory ν) Question Answer where
  replies := mayReply N
  effect m := effect N m i
  others := others

instance (m : Memory ν) (q : Question) (a : Except String (Answer q))
    [∀ m q a, Decidable (N.answers m q a)] : Decidable ((outside N i others).replies m q a) :=
  match a with
  | .ok _ => inferInstanceAs (Decidable (_ ∧ (_ → _)))
  | .error _ => inferInstanceAs (Decidable (_ = _))

abbrev Exchanges : Type := List (Exchange Question Answer)

/-- The transactions that were given to the node. -/
def broadcasts (l : Exchanges) : List SignedTransaction :=
  l.filterMap fun
    | ⟨.broadcastTransaction signedTx, _⟩ => some signedTx
    | _ => none

@[simp] theorem broadcasts_append (l l' : Exchanges) :
    broadcasts (l ++ l') = broadcasts l ++ broadcasts l' := List.filterMap_append

/-- What the node is given satisfies `Good`. -/
def Gives (Good : SignedTransaction → Prop) : Exchange Question Answer → Prop
  | ⟨.broadcastTransaction signedTx, _⟩ => Good signedTx
  | _ => True

theorem Gives.of_silent {Good : SignedTransaction → Prop} {q : Question}
    (h : q.isSilent = true) (a : Except String (Answer q)) : Gives Good ⟨q, a⟩ := by
  cases q with
  | broadcastTransaction signedTx => cases h
  | _ => trivial

theorem Gives.broadcasts {Good : SignedTransaction → Prop} {l : Exchanges}
    (h : ∀ x ∈ l, Gives Good x) : ∀ tx ∈ broadcasts l, Good tx := by
  intro tx htx
  obtain ⟨⟨q, a⟩, hx, heq⟩ := List.mem_filterMap.mp htx
  cases q with
  | broadcastTransaction signedTx =>
      obtain rfl := Option.some.inj heq
      exact h _ hx
  | _ => cases heq

variable {N i others} {m : Memory ν} {P : Exchange Question Answer → Prop}

/-- What is awaited has ended before its caller goes on. -/
theorem does_awaiting {f : AsyncFunction} {p : Handler ν α} {Φ : Except String α → Memory ν → Prop}
    (hp : Does (outside N i others) p m P Φ) (hP : ∀ a, P ⟨.settled f, a⟩)
    (hothers : ∀ r m₁ m₂, Φ r m₁ → others m₁ m₂ → Φ r m₂) :
    Does (outside N i others) (awaiting f p) m P Φ := by
  refine Does.call hp fun r m₁ m₂ a m₃ hr hasked _ hresumed => ⟨hP a, ?_⟩
  have hmemory : (outside N i others).effect m₂ (.settled f) a = m₂ := by
    cases a with
    | ok a => rfl
    | error e => rfl
  rw [hmemory] at hresumed
  exact hothers r m₂ m₃ (hothers r m₁ m₂ hr hasked) hresumed

/-- A program that gives nothing to the node. -/
theorem does_silent {Good : SignedTransaction → Prop} {p : Handler ν α}
    (hp : (Family.confined (fun q : Question => q.isSilent = true) fun _ => True).has p) :
    Does (outside N i others) p m (Gives Good) fun _ _ => True :=
  (ensures_asks hp).mono fun _ _ _ h => ⟨fun x hx => .of_silent (h x hx) x.2, trivial⟩

/-! ## Signing -/

theorem signTransaction_does {W : Surroundings (Memory ν) Question Answer} (cfg : Config)
    (signer : Address) (txToSign : Transaction) (resent : Bool) :
    Does W (signTransaction cfg signer txToSign resent) m P fun r m' =>
      (∀ signedTx, r = .ok signedTx → signedTx = ⟨signer, txToSign⟩) ∧ m'.txstore = m.txstore := by
  refine does_assert (fun _ => ?_) fun _ => ?_
  · refine does_modify.mpr (does_done.mpr ⟨?_, rfl⟩)
    rintro _ ⟨⟩
    rfl
  · exact ⟨(by rintro _ ⟨⟩), rfl⟩

/-! ## Computing a run -/

/-- A node that answers what it is told to, and is not changed by anything. -/
def fixedNode (agrees : (q : Question) → Answer q → Bool) : Node Unit Unit where
  answers _ q a := agrees q a = true
  accept _ _ := ()
  moves _ _ := none

instance (agrees : (q : Question) → Answer q → Bool) (m : Memory Unit) (q : Question)
    (a : Answer q) : Decidable ((fixedNode agrees).answers m q a) :=
  inferInstanceAs (Decidable (_ = true))

/-- The answers of the database and the mutex, and those of a node. -/
def answering (node : (q : Question) → Except String (Answer q)) (m : Memory ν) :
    (q : Question) → Except String (Answer q)
  | .findOne key => .ok (m.txstore.find? (·.nonceSigner == key))
  | .find => .ok m.txstore
  | .findBySigner signer => .ok (m.txstore.filter (·.from == signer))
  | .acquire | .insert _ | .update _ _ | .remove _ | .settled _ | .sleep => .ok ()
  | q => node q

end RifRelay.Server
