import RifRelay.Server.Footprints
import RifRelay.Server.HttpServer

set_option autoImplicit false

/-! # What the root endpoint lets through

Bodies that name none of the functions in `controls` only read, so a run of the server with them
is one without them (`bodies_without_trace`). A body that names one of these functions decides
about the server: `setReadyState` makes a server ready that has seen nothing.
-/

namespace RifRelay.Server

open EventLoop TransactionManager

variable {ν ω : Type} (cfg : Config) (env : Environment) (N : Node ν ω)

/-- The functions that do more than to read. -/
def controllers : List String :=
  ["validateMaxNonce", "intervalHandler", "start", "stop", "_workerSemaphore", "fatal",
    "_initTrustedVerifiers", "init", "replenishServer", "_worker", "_refreshGasPrice",
    "_handleChanges", "_handleTransactionRejectedByRecipientEvent", "_updateLatestTxBlockNumber",
    "_boostStuckPendingTransactions", "_boostStuckTransactionsForManager",
    "_boostStuckTransactionsForWorker", "setReadyState", "emit", "removeAllListeners"]

/-- A body names a function that does more than to read. -/
def Body.Controls (body : Body) : Prop := body.method ∈ controllers

instance (body : Body) : Decidable body.Controls := inferInstanceAs (Decidable (_ ∈ _))

/-- A question whose answer changes nothing. -/
def Question.Reads (q : Question) : Prop := q.isRead = true

theorem effect_of_reads {q : Question} (h : q.Reads) (m : Memory ν) (i : ℕ)
    (answer : Except String (Answer q)) : effect N m i q answer = m :=
  effect_of_isRead N h m i answer

namespace HttpServer

theorem controls_names (i : ℕ) :
    (controls cfg env i : List (String × (Value → Option (Handler ν Result)))).map Prod.fst =
      controllers := rfl

/-! ## The functions that only read -/

/-- The programs that only ask what changes nothing, and write nothing. -/
def readers : Family (Memory ν) Question Answer := .confined Question.Reads fun _ => False

theorem readers_asks (q : Question) (h : q.isRead = true) :
    (readers : Family (Memory ν) Question Answer).asks q := Family.confined_asks.mpr h

theorem sync_has (f : Memory ν → Except String Result) : readers.has (sync f) :=
  Family.next readers.get fun m => readers.done (f m)

theorem acceptedTokens_has (verifiersToQuery : List Address) :
    readers.has (acceptedTokens verifiersToQuery : Handler ν (List (Address × List Address))) := by
  induction verifiersToQuery with
  | nil => exact readers.done _
  | cons verifier rest ih =>
      apply Family.next (readers_asks _ rfl)
      intro _
      apply Family.next (readers_asks _ rfl)
      intro tokens
      exact Family.next ih fun _ => readers.done _

theorem tokenHandler_has (verifier : Value) :
    readers.has (tokenHandler verifier : Handler ν Result) := by
  apply Family.next readers.get
  intro m
  cases verifier with
  | none => exact Family.next (acceptedTokens_has _) fun _ => readers.done _
  | some v =>
      apply Family.next (readers.done _)
      intro trusted
      cases trusted with
      | none => exact Family.throw _
      | some a => exact Family.next (acceptedTokens_has [a]) fun _ => readers.done _

theorem validateRequestWithVerifier_has (req : Value) :
    readers.has (validateRequestWithVerifier cfg env req : Handler ν Result) := by
  apply Family.next (readers.done _)
  intro verifier
  apply Family.next readers.get
  intro m
  apply Family.next (readers.done _)
  intro trusted
  split
  · exact Family.throw _
  · refine Family.next ?_ fun _ => readers.done _
    exact Server.validateRequestWithVerifier_has cfg readers_asks _
  · apply Family.next (readers.done _)
    intro _
    apply Family.next (Family.recover (readers_asks _ rfl) fun _ => Family.throw _)
    exact fun _ => Family.throw _

theorem shouldRegisterAgain_has (currentBlock : Value) :
    readers.has (shouldRegisterAgain cfg env currentBlock : Handler ν Result) := by
  apply Family.next (awaiting_has (readers_asks _ rfl) (isActionPending_has readers_asks _ _))
  intro relayPending
  refine Family.next (Family.ite (fun _ => readers.done _) fun _ => ?_) fun isPending => ?_
  · exact awaiting_has (readers_asks _ rfl) (isActionPending_has readers_asks _ _)
  · refine Family.ite (fun _ => readers.done _) fun _ => ?_
    exact Family.next readers.get fun _ => readers.done _

theorem setMaxListeners_has (n : Value) :
    readers.has (setMaxListeners n : Handler ν Result) := by
  unfold setMaxListeners
  split
  · exact Family.ite (fun _ => readers.done _) fun _ => Family.throw _
  · exact Family.throw _

theorem readers_done {α : Type} (r : Except String α) :
    (readers : Family (Memory ν) Question Answer).has (.done r) := readers.done r

/-- Make something of what a reader resolves to. -/
theorem readers_then {α : Type} {p : Handler ν α} (hp : readers.has p) (f : α → Result) :
    readers.has (p.handle (Async.next fun a => .done (.ok (f a)))) :=
  Family.next hp fun _ => readers.done _

/-- The functions in `views` only read, whatever they are given. -/
theorem views_has {f : String × (Value → Handler ν Result)} (hf : f ∈ views cfg env)
    (params : Value) : readers.has (f.2 params) := by
  revert f
  simp only [views, List.forall_mem_cons, List.not_mem_nil, false_implies, implies_true, and_true]
  -- the functions that resolve or throw at once go first
  simp only [Async.pure_eq, Async.bind_eq, Async.throw, readers_done, sync_has, withListener,
    validateViewCallSucceeds, tokenHandler_has, validateRequestWithVerifier_has,
    shouldRegisterAgain_has, setMaxListeners_has, true_and, and_true]
  refine ⟨?_, ?_, ?_, ?_⟩
  · exact readers_then (readers_asks _ rfl) _
  · exact readers_then (readers_asks _ rfl) _
  · exact readers_then (getAllHubEventsSinceLastScan_has readers_asks) _
  · exact readers_then (Family.next (readers_asks _ rfl) fun _ => readers_done _) _

/-! ## Bodies that control nothing -/

variable {cfg env}

/-- A body that controls nothing only reads, unless it names `createRelayTransaction`. -/
theorem rootHandler_has {body : Body} (hcontrols : ¬ body.Controls)
    (hother : body.method ≠ "createRelayTransaction") {i : ℕ} {p : Handler ν Result}
    (hp : rootHandler cfg env i body = some p) : readers.has p := by
  obtain ⟨func, hfunc, rfl⟩ := Option.map_eq_some_iff.mp hp
  refine readers_then ?_ _
  unfold apply at hfunc
  rw [if_neg hother] at hfunc
  cases hviews : (views cfg env : List (String × (Value → Handler ν Result))).lookup
      body.method with
  | some f =>
      rw [hviews] at hfunc
      obtain rfl := Option.some.inj hfunc
      obtain ⟨l₁, l₂, heq, _⟩ := List.lookup_eq_some_iff.mp hviews
      have hmem : (body.method, f) ∈ views cfg env := by simp [heq]
      exact views_has cfg env hmem body.params
  | none =>
      rw [hviews] at hfunc
      cases hlookup :
          (controls cfg env i : List (String × (Value → Option (Handler ν Result)))).lookup
            body.method with
      | some f =>
          obtain ⟨l₁, l₂, heq, _⟩ := List.lookup_eq_some_iff.mp hlookup
          have hmem : body.method ∈ controllers := by
            have hnames : body.method ∈ (controls cfg env i :
                List (String × (Value → Option (Handler ν Result)))).map Prod.fst := by
              simp [heq]
            rwa [controls_names] at hnames
          exact (hcontrols hmem).elim
      | none =>
          rw [hlookup] at hfunc
          obtain rfl := Option.some.inj hfunc
          exact Family.throw _

abbrev BodyVisitors (ν : Type) : Type :=
  Visitors (Call ⊕ Value) Body (Memory ν) Question Answer Result

theorem body_quiet {body : Body} (hcontrols : ¬ body.Controls)
    (hamounts : (visitors cfg env : BodyVisitors ν).amounts body = none) (i : ℕ) :
    ((visitors cfg env : BodyVisitors ν).body i body).Quiet Question.Reads := by
  have hother : body.method ≠ "createRelayTransaction" := by
    intro hmethod
    have hsome : (visitors cfg env : BodyVisitors ν).amounts body = some (.inr body.params) :=
      if_pos hmethod
    rw [hsome] at hamounts
    cases hamounts
  show ((rootHandler cfg env i body).getD _).Quiet Question.Reads
  cases hp : (rootHandler cfg env i body : Option (Handler ν Result)) with
  | none => trivial
  | some p => exact rootHandler_has hcontrols hother hp

end HttpServer

open HttpServer

variable {cfg env N}

/-- **Bodies that control nothing leave no trace.** Whatever bodies the root endpoint gets, in
whatever interleaving with the requests, the rounds and the timers of the server: if none of them
names a function that does more than to read, then the server has a run without the bodies that
reaches the same memory, apart from what was handed to `createRelayTransaction`, which the server
treats as if it had come by the endpoint `/relay`. -/
theorem bodies_without_trace {m₀ : Memory ν}
    {p : Pool ((Call ⊕ Value) ⊕ Body) (Memory ν) Question Answer ((Reply ⊕ Result) ⊕ Result)}
    (hrun : Run (httpServer cfg env N) Anyhow m₀ p)
    (hbodies : ∀ body ∈ Visitors.visits p.shared.log, ¬ body.Controls) :
    ∃ p', Run (relayServer cfg env N) Anyhow m₀ p' ∧ p'.shared.memory = p.shared.memory ∧
      Without (visitors cfg env) Question.Reads p p' := by
  obtain ⟨p', hrun', hwithout⟩ := run_without (relayServer cfg env N) (visitors cfg env)
    Question.Reads (fun m i q answer h => effect_of_reads N h m i answer) hrun
    fun i body hmem hamounts => body_quiet (hbodies body hmem) hamounts i
  exact ⟨p', hrun', congrArg Shared.memory hwithout.shared, hwithout⟩

/-! ## Bodies that take control -/

/-- An environment that makes numbers of numbers only. -/
def plainEnvironment : Environment where
  networkId := 33
  toNumber
    | some (.number x) => some x
    | _ => none
  parseInt
    | some (.number x) => some x.floor
    | _ => none
  toText
    | some (.string s) => s
    | _ => ""
  read _ := none

instance (params : Value) :
    Decidable ((relayRequests plainConfig plainEnvironment :
      Visitors Call Value (Memory Unit) Question Answer Result).admits params) := isTrue trivial

instance (body : Body) :
    Decidable ((visitors plainConfig plainEnvironment : BodyVisitors Unit).admits body) :=
  inferInstanceAs (Decidable (_ = true))

instance (x : Shared (Call ⊕ Value) (Memory Unit) Question Answer (Reply ⊕ Result))
    (c : Call ⊕ Value) :
    Decidable ((relayServer plainConfig plainEnvironment anyNode).calls x c) :=
  inferInstanceAs (Decidable (((server plainConfig anyNode).opened _).calls x c))

instance (x : Shared (Call ⊕ Value) (Memory Unit) Question Answer (Reply ⊕ Result))
    (q : Question) (answer : Except String (Answer q)) :
    Decidable ((relayServer plainConfig plainEnvironment anyNode).replies x q answer) :=
  inferInstanceAs (Decidable (((server plainConfig anyNode).opened _).replies x q answer))

abbrev HttpPool : Type :=
  Pool ((Call ⊕ Value) ⊕ Body) (Memory Unit) Question Answer ((Reply ⊕ Result) ⊕ Result)

instance (x : Shared ((Call ⊕ Value) ⊕ Body) (Memory Unit) Question Answer
    ((Reply ⊕ Result) ⊕ Result)) (c : (Call ⊕ Value) ⊕ Body) :
    Decidable ((httpServer plainConfig plainEnvironment anyNode).calls x c) :=
  inferInstanceAs (Decidable (((relayServer plainConfig plainEnvironment anyNode).opened _).calls
    x c))

instance (x : Shared ((Call ⊕ Value) ⊕ Body) (Memory Unit) Question Answer
    ((Reply ⊕ Result) ⊕ Result)) (q : Question) (answer : Except String (Answer q)) :
    Decidable ((httpServer plainConfig plainEnvironment anyNode).replies x q answer) :=
  inferInstanceAs (Decidable (((relayServer plainConfig plainEnvironment anyNode).opened _).replies
    x q answer))

/-- Answers of a node. -/
def visitedAnswer : (q : Question) → Except String (Answer q)
  | .getBalance _ _ => .ok 50
  | .getTransactionCount _ => .ok 3
  | .settled _ => .ok ()
  | _ => .error "no answer"

/-- What has the shape of a request for a call, with texts that no contract call can read. -/
def wordsRequest : Json :=
  let texts (names : List String) : Json := .object (names.map fun name => (name, .string name))
  .object
    [("relayRequest", .object
      [("request", texts ["relayHub", "from", "to", "value", "gas", "nonce", "data",
        "tokenContract", "tokenAmount", "tokenGas"]),
       ("relayData", texts ["gasPrice", "domainSeparator", "relayWorker", "callForwarder",
        "callVerifier"])]),
     ("metadata", .object
      [("relayHubAddress", .string ""), ("relayMaxNonce", .number 1), ("signature", .string "")])]

example : validateInputTypes (some wordsRequest) = .ok () ∧
    request plainEnvironment (some wordsRequest) = none := by decide

/-- Three bodies, one of which asks for a balance while a nonce is polled, and one of which hands
words to `createRelayTransaction`. -/
def visitedSchedule : List (Move ((Call ⊕ Value) ⊕ Body) Question Answer Unit) :=
  [.call 0 (.inr ⟨none, "getWorkerBalance", none⟩), .resume 0,
    .call 1 (.inl (.inl (.pollNonce 0x22)))] ++
    Move.turns 1 visitedAnswer 2 ++
    [.call 2 (.inr ⟨none, "nothing", none⟩), .resume 2,
      .call 3 (.inr ⟨none, "createRelayTransaction", some wordsRequest⟩), .resume 3,
      .reply 0 visitedAnswer, .resume 0]

theorem visitedSchedule_plays :
    ((Pool.start (.fresh plainConfig [] [] ())).play
      (httpServer plainConfig plainEnvironment anyNode) Anyhow visitedSchedule).isSome = true := by
  decide +kernel

def visitedServer : HttpPool := Option.get _ visitedSchedule_plays

theorem bodies_without_trace_visitedServer :
    ∃ p', Run (relayServer plainConfig plainEnvironment anyNode) Anyhow
        (.fresh plainConfig [] [] ()) p' ∧
      p'.shared.memory = visitedServer.shared.memory ∧
      Without (visitors plainConfig plainEnvironment) Question.Reads visitedServer p' :=
  bodies_without_trace (Run.of_isSome visitedSchedule_plays) (by decide +kernel)

/-- A body that declares the server ready. -/
def takeoverSchedule : List (Move ((Call ⊕ Value) ⊕ Body) Question Answer Unit) :=
  [.call 0 (.inr ⟨none, "setReadyState", some (.bool true)⟩), .resume 0]

theorem takeoverSchedule_plays :
    ((Pool.start (.fresh plainConfig [] [] ())).play
      (httpServer plainConfig plainEnvironment anyNode) Anyhow takeoverSchedule).isSome = true := by
  decide +kernel

/-- A run of a system that nothing moves from outside has done nothing as long as its log is
empty. -/
theorem run_of_log_nil {m₀ : Memory Unit}
    {p : Pool (Call ⊕ Value) (Memory Unit) Question Answer (Reply ⊕ Result)}
    (hrun : Run (relayServer cfg env anyNode) Anyhow m₀ p) (hlog : p.shared.log = []) :
    p.shared.memory = m₀ ∧ ∀ i, p.threads i = none := by
  induction hrun with
  | start => exact ⟨rfl, fun _ => rfl⟩
  | @step p q _ hstep _ ih =>
      have hbefore : p.shared.log = [] := List.prefix_nil.mp (hlog ▸ hstep.log_prefix)
      obtain ⟨hmemory, hthreads⟩ := ih hbefore
      cases hstep with
      | call i c _ _ =>
          exact (List.append_ne_nil_of_right_ne_nil _ (List.cons_ne_nil _ _) hlog).elim
      | reply i c q k answer hthread _ => cases (hthreads i).symm.trans hthread
      | resume i c t hthread => cases (hthreads i).symm.trans hthread
      | outside w s hmoves => cases hmoves
      | restart s _ => exact (List.append_ne_nil_of_right_ne_nil _ (List.cons_ne_nil _ _) hlog).elim

/-- The memory that a body has left need not be one that the server comes to without it. -/
theorem setReadyState_takes_control :
    ¬ ∀ p : HttpPool, Run (httpServer plainConfig plainEnvironment anyNode) Anyhow
          (.fresh plainConfig [] [] ()) p →
        ∃ p', Run (relayServer plainConfig plainEnvironment anyNode) Anyhow
            (.fresh plainConfig [] [] ()) p' ∧
          p'.shared = (visitors plainConfig plainEnvironment).without p.shared := by
  intro hall
  obtain ⟨p', hrun', hshared⟩ := hall _ (Run.of_isSome takeoverSchedule_plays)
  have hlog : p'.shared.log = [] := by
    rw [hshared]
    decide +kernel
  have hready : p'.shared.memory.ready = true := by
    rw [hshared]
    decide +kernel
  rw [(run_of_log_nil hrun' hlog).1] at hready
  cases hready

end RifRelay.Server
