import RifRelay.Server.Footprints
import RifRelay.Server.Scanner

set_option autoImplicit false

/-! # The server is a scanner

In every run of the server on a chain, whatever else it does at the same time, the rounds of
the worker do what a scanner does (`run_scans`). While a thread has the semaphore, it is the one
that is in a phase of a round (`Holding`), and the others change nothing that the scanner
sees (`scanning`).
-/

namespace RifRelay.Server

open EventLoop KnownRelaysManager TransactionManager

/-! ## What the scanner sees -/

def watch (m : Memory Chain) : Watch where
  chain := m.node
  lastScannedBlock := m.lastScannedBlock
  initialized := m.initialized
  registrationManager := m.registrationManager
  rounds := m.record.rounds
  stakes := m.record.stakes
  payouts := m.record.payouts

/-- A write that the scanner does not see, and that leaves the semaphore alone. -/
def Silent (f : Memory Chain → Memory Chain) : Prop :=
  ∀ m, watch (f m) = watch m ∧ (f m).workerSemaphoreOn = m.workerSemaphoreOn

theorem ManagerWrite.silent {f : Memory Chain → Memory Chain} (h : ManagerWrite f) : Silent f := by
  intro m
  obtain ⟨nonces, mutex, signatures, heq⟩ := h.shape m
  rw [heq]
  exact ⟨rfl, rfl⟩

theorem QuietWrite.silent {f : Memory Chain → Memory Chain} (h : QuietWrite f) : Silent f := by
  cases h <;> exact fun _ => ⟨rfl, rfl⟩

variable (cfg : Config) (steady : Bool)

/-- A server on a chain. -/
abbrev chainServer : System Call (Memory Chain) Question Answer Reply (List EventData) :=
  server cfg (chainNode cfg.managerAddress steady)

theorem effect_silent (i : ℕ) (q : Question) (a : Except String (Answer q)) (m : Memory Chain) :
    watch ((chainServer cfg steady).effect m i q a) = watch m ∧
      ((chainServer cfg steady).effect m i q a).workerSemaphoreOn = m.workerSemaphoreOn := by
  change watch (effect (chainNode cfg.managerAddress steady) m i q a) = watch m ∧
    (effect (chainNode cfg.managerAddress steady) m i q a).workerSemaphoreOn = _
  unfold effect
  split <;> exact ⟨rfl, rfl⟩

/-! ## Running calls -/

theorem running_snoc (log : Log) (e : EventLoop.Event Call Question Answer Reply) :
    running (log ++ [e]) =
      match e with
      | .called i c => (i, c) :: running log
      | .ended i _ => (running log).filter (·.1 ≠ i)
      | .restarted => []
      | _ => running log := by
  unfold running
  rw [List.foldl_append]
  rfl

/-- A call goes on whatever the other threads do. -/
theorem mem_running_snoc {log : Log} {e : EventLoop.Event Call Question Answer Reply} {i j : ℕ}
    {c : Call} (h : (i, c) ∈ running log) (he : e.thread = some j) (hne : j ≠ i) :
    (i, c) ∈ running (log ++ [e]) := by
  rw [running_snoc]
  cases e with
  | called k c' => exact List.mem_cons_of_mem _ h
  | ended k r =>
      obtain rfl := Option.some.inj he
      exact List.mem_filter.mpr ⟨h, by simpa using hne.symm⟩
  | restarted => cases he
  | _ => exact h

/-- A thread that runs has left entries. -/
theorem own_of_mem_running {log : Log} {i : ℕ} {c : Call} (h : (i, c) ∈ running log) :
    own i log ≠ [] := by
  induction log using List.reverseRecOn with
  | nil => cases h
  | append_singleton log e ih =>
      have hold : (i, c) ∈ running log → own i (log ++ [e]) ≠ [] := by
        intro hmem hnil
        rw [own_append] at hnil
        exact ih hmem (List.append_eq_nil_iff.mp hnil).1
      rw [running_snoc] at h
      cases e with
      | called j c' =>
          rcases List.mem_cons.mp h with heq | hmem
          · obtain ⟨rfl, -⟩ := Prod.mk.inj heq
            rw [own_snoc_self rfl]
            exact List.append_ne_nil_of_right_ne_nil _ (List.cons_ne_nil _ _)
          · exact hold hmem
      | ended j r => exact hold (List.mem_filter.mp h).1
      | restarted => cases h
      | _ => exact hold h

/-! ## The discipline -/

/-- The scanner is in a phase of a round only while a thread has the semaphore, and this thread
runs the worker. A thread leaves alone the chain, and the semaphore of another one with what the
scanner sees. -/
def scanning : Discipline Call (Memory Chain) Question Answer Reply where
  meets := Anyhow
  inv x := ∃ φ, Scanned cfg steady (watch x.memory) φ ∧
    (x.memory.workerSemaphoreOn = none → φ = .idle) ∧
      ∀ i, x.memory.workerSemaphoreOn = some i → (i, .intervalHandler) ∈ running x.log
  acts i x y := y.memory.node = x.memory.node ∧ ∀ j, j ≠ i →
    (x.memory.workerSemaphoreOn = some j →
      y.memory.workerSemaphoreOn = some j ∧ watch y.memory = watch x.memory) ∧
      (y.memory.workerSemaphoreOn = some j → x.memory.workerSemaphoreOn = some j)
  ends _ _ := True

variable {cfg steady} {i : ℕ} {φ : Phase} {x : State Chain} {s : Memory Chain}

/-- A block is mined, between rounds if the server is steady. -/
theorem chainServer_moves {events : List EventData} {m : Memory Chain}
    (h : (chainServer cfg steady).moves x events = some m) :
    ∃ c, x.memory.node.mine cfg.managerAddress events = some c ∧ m = x.memory.setNode c ∧
      (steady = true → ∀ j, (j, Call.intervalHandler) ∉ running x.log) := by
  obtain ⟨c, hmoves, rfl⟩ := Option.map_eq_some_iff.mp h
  obtain ⟨hidle, hmine⟩ := Option.ite_none_left_eq_some.mp hmoves
  refine ⟨c, hmine, rfl, fun hs j hj => hidle ?_⟩
  rw [hs, Bool.true_and]
  exact List.any_eq_true.mpr ⟨_, hj, rfl⟩

/-- Thread `i` waits in a phase of its round. -/
def Waiting (i : ℕ) (φ : Phase) (cfg : Config) (steady : Bool) (x : State Chain) : Prop :=
  x.memory.workerSemaphoreOn = some i ∧ Scanned cfg steady (watch x.memory) φ ∧
    (i, .intervalHandler) ∈ running x.log

/-- Nothing but the chain is different. -/
def Watch.SameBut (w w' : Watch) : Prop := w' = { w with chain := w'.chain }

/-- While a thread waits in its round, the chain grows at most. -/
theorem waiting_stable (i : ℕ) (φ : Phase) (w : Watch) (R : Chain → Prop)
    (hR : ∀ c c' events, c.Sound cfg.managerAddress → R c →
      c.mine cfg.managerAddress events = some c' → R c') :
    Stable (chainServer cfg steady) (scanning cfg steady) i fun x =>
      Waiting i φ cfg steady x ∧ w.SameBut (watch x.memory) ∧ R x.memory.node := by
  rintro x y ⟨⟨hsem, hscanned, hrunning⟩, hsame, hchain⟩ _ _ _ hstep
  cases hstep with
  | thread j s e hne hthread hacts =>
      obtain ⟨hsem', hwatch⟩ := (hacts.2 i hne.symm).1 hsem
      have hnode : s.node = x.memory.node := congrArg Watch.chain hwatch
      refine ⟨⟨hsem', ?_, mem_running_snoc hrunning hthread hne⟩, ?_, ?_⟩
      · rw [hwatch]
        exact hscanned
      · rw [hwatch]
        exact hsame
      · change R s.node
        rw [hnode]
        exact hchain
  | outside events s hmoves =>
      obtain ⟨c, hmine, rfl, hidle⟩ := chainServer_moves hmoves
      refine ⟨⟨hsem, ?_, hrunning⟩, ?_, hR _ c events hscanned.sound hchain hmine⟩
      · exact hscanned.step _ _ _ _
          (.mine _ _ events c (fun hs => absurd hrunning (hidle hs i)) hmine)
      · unfold Watch.SameBut at hsame ⊢
        calc watch (x.memory.setNode c) = { watch x.memory with chain := c } := rfl
          _ = { w with chain := c } := by rw [hsame]

/-- Thread `i` is in a phase of its round: it was resumed in `x`, and the memory is `s` by now. -/
structure Holding (i : ℕ) (φ : Phase) (cfg : Config) (steady : Bool) (x : State Chain)
    (s : Memory Chain) : Prop where
  others : ∀ j, j ≠ i → x.memory.workerSemaphoreOn ≠ some j
  semaphore : s.workerSemaphoreOn = some i
  node : s.node = x.memory.node
  scanned : Scanned cfg steady (watch s) φ
  running : (i, .intervalHandler) ∈ running x.log

theorem Waiting.holding (h : Waiting i φ cfg steady x) : Holding i φ cfg steady x x.memory where
  others _ hj heq := hj (Option.some.inj (heq.symm.trans h.1))
  semaphore := h.1
  node := rfl
  scanned := h.2.1
  running := h.2.2

/-- A thread that has the semaphore may stop in any phase. -/
theorem Holding.keeps (h : Holding i φ cfg steady x s)
    {e : EventLoop.Event Call Question Answer Reply}
    (he : (i, .intervalHandler) ∈ Server.running (x.log ++ [e])) :
    EventLoop.Keeps (scanning cfg steady) i x (x.snoc s e) := by
  refine ⟨⟨φ, h.scanned, fun hnone => ?_, fun j hj => ?_⟩,
    h.node, fun j hj => ⟨fun hother => ?_, fun hother => ?_⟩⟩
  · have habsurd := h.semaphore.symm.trans hnone
    cases habsurd
  · obtain rfl := Option.some.inj (h.semaphore.symm.trans hj)
    exact he
  · exact absurd hother (h.others j hj)
  · exact absurd (Option.some.inj (h.semaphore.symm.trans hother)).symm hj

/-- An answer that the node has given when the chain had a block from `lo` on, or an error. -/
def Told (manager : Address) (lo : Nat) (q : Question) (a : Except String (Answer q))
    (c : Chain) : Prop :=
  match a with
  | .ok v => forNode q = true →
      ∃ h, lo ≤ h ∧ h ≤ c.blockNumber ∧ (c.back h).answers manager q v
  | .error _ => cannotFail q = false

theorem Told.mine {manager : Address} {lo : Nat} {q : Question} {a : Except String (Answer q)}
    {c c' : Chain} {events : List EventData} (h : Told manager lo q a c)
    (hmine : c.mine manager events = some c') : Told manager lo q a c' := by
  cases a with
  | error e => exact h
  | ok v =>
      intro hq
      obtain ⟨b, hlo, hb, hanswer⟩ := h hq
      have hnumber := (Chain.mine_eq manager hmine).1
      refine ⟨b, hlo, by omega, ?_⟩
      rwa [Chain.back_mine hmine hb]

theorem Told.of_reply {y : State Chain} {lo : Nat} {q : Question} {a : Except String (Answer q)}
    (hsound : y.memory.node.Sound cfg.managerAddress) (hlo : lo ≤ y.memory.node.blockNumber)
    (h : (chainServer cfg steady).replies y q a) :
    Told cfg.managerAddress lo q a y.memory.node := by
  cases a with
  | error e => exact h
  | ok v =>
      intro hq
      refine ⟨_, hlo, Nat.le_refl _, ?_⟩
      rw [Chain.back_self hsound]
      exact h.2 hq

/-- **One question of a round.** The thread stays in its phase, the scanner has at most seen
blocks being mined, and the answer is of a moment in between. -/
theorem wp_holding {α : Type} {q : Question}
    {k : Except String (Answer q) → Handler Chain α}
    {Φ : Except String α → State Chain → Memory Chain → Prop} (h : Holding i φ cfg steady x s)
    (hnext : ∀ z a, Holding i φ cfg steady z z.memory → (watch s).SameBut (watch z.memory) →
      Told cfg.managerAddress s.node.blockNumber q a z.memory.node →
        wp (chainServer cfg steady) (scanning cfg steady) i (k a) Φ z z.memory) :
    wp (chainServer cfg steady) (scanning cfg steady) i (.ask q k) Φ x s := by
  have hrunning : ∀ {y : State Chain} {e : EventLoop.Event Call Question Answer Reply},
      (i, .intervalHandler) ∈ running y.log → running (y.log ++ [e]) = running y.log →
        (i, .intervalHandler) ∈ running (y.log ++ [e]) := by
    intro y e hy heq
    rwa [heq]
  refine wp_ask
    (fun y => Waiting i φ cfg steady y ∧ (watch s).SameBut (watch y.memory) ∧
      s.node.blockNumber ≤ y.memory.node.blockNumber)
    (fun a y => Waiting i φ cfg steady y ∧ (watch s).SameBut (watch y.memory) ∧
      Told cfg.managerAddress s.node.blockNumber q a y.memory.node)
    (waiting_stable i φ (watch s) (fun c => s.node.blockNumber ≤ c.blockNumber) ?_)
    (fun a => waiting_stable i φ (watch s) (Told cfg.managerAddress s.node.blockNumber q a) ?_)
    ?_ ?_ ?_
  · intro c c' events _ hle hmine
    rw [(Chain.mine_eq _ hmine).1]
    exact Nat.le_succ_of_le hle
  · exact fun c c' events _ htold hmine => htold.mine hmine
  · intro _
    have he := hrunning (e := .asked i q) h.running (running_snoc _ _)
    exact ⟨h.keeps he, ⟨h.semaphore, h.scanned, he⟩, rfl, Nat.le_refl _⟩
  · rintro y a ⟨hwaiting, hsame, hle⟩ _ hreplies _
    have he := hrunning (e := .answered i q a) hwaiting.2.2 (running_snoc _ _)
    obtain ⟨hwatch, hsem⟩ := effect_silent cfg steady i q a y.memory
    have hholding : Holding i φ cfg steady y ((chainServer cfg steady).effect y.memory i q a) :=
      ⟨hwaiting.holding.others, hsem.trans hwaiting.1, congrArg Watch.chain hwatch,
        hwatch ▸ hwaiting.2.1, hwaiting.2.2⟩
    refine ⟨hholding.keeps he, ⟨hholding.semaphore, hholding.scanned, he⟩, ?_, ?_⟩
    · change (watch s).SameBut (watch ((chainServer cfg steady).effect y.memory i q a))
      rw [hwatch]
      exact hsame
    · change Told cfg.managerAddress s.node.blockNumber q a
        (watch ((chainServer cfg steady).effect y.memory i q a)).chain
      rw [hwatch]
      exact .of_reply hwaiting.2.1.sound hle hreplies
  · exact fun z a hz _ => hnext z a hz.1.holding hz.2.1 hz.2.2

/-! ## The other threads -/

/-- Thread `i` has not the semaphore, and it may stop: it was resumed in `x`, and the memory is
`s` by now. -/
structure Loose (cfg : Config) (steady : Bool) (i : ℕ) (x : State Chain) (s : Memory Chain) :
    Prop where
  semaphore : s.workerSemaphoreOn ≠ some i
  keeps : ∀ e : EventLoop.Event Call Question Answer Reply, e.thread = some i →
    EventLoop.Keeps (scanning cfg steady) i x (x.snoc s e)

theorem loose_stable (i : ℕ) : Stable (chainServer cfg steady) (scanning cfg steady) i
    fun x => x.memory.workerSemaphoreOn ≠ some i := by
  intro x y hx _ _ _ hstep
  cases hstep with
  | thread j s e hne hthread hacts => exact fun hy => hx ((hacts.2 i hne.symm).2 hy)
  | outside events s hmoves =>
      obtain ⟨c, -, rfl, -⟩ := chainServer_moves hmoves
      exact hx

/-- A thread without the semaphore may stop at once. -/
theorem Loose.of_inv (hinv : (scanning cfg steady).inv x)
    (hnot : x.memory.workerSemaphoreOn ≠ some i) : Loose cfg steady i x x.memory where
  semaphore := hnot
  keeps e he := by
    obtain ⟨φ, hscanned, hidle, hrunning⟩ := hinv
    refine ⟨⟨φ, hscanned, hidle, fun j hj => ?_⟩, rfl,
      fun j hj => ⟨fun hother => ⟨hother, rfl⟩, fun hother => hother⟩⟩
    refine mem_running_snoc (hrunning j hj) he fun heq => hnot ?_
    rw [heq]
    exact hj

theorem Loose.silent {s' : Memory Chain} (h : Loose cfg steady i x s) (hwatch : watch s' = watch s)
    (hsem : s'.workerSemaphoreOn = s.workerSemaphoreOn) : Loose cfg steady i x s' where
  semaphore := fun heq => h.semaphore (hsem.symm.trans heq)
  keeps e he := by
    obtain ⟨⟨φ, hscanned, hidle, hrunning⟩, hnode, hacts⟩ := h.keeps e he
    refine ⟨⟨φ, hwatch ▸ hscanned, fun hnone => hidle (hsem.symm.trans hnone),
      fun j hj => hrunning j (hsem.symm.trans hj)⟩, (congrArg Watch.chain hwatch).trans hnode,
      fun j hj => ⟨fun hother => ?_, fun hother => (hacts j hj).2 (hsem.symm.trans hother)⟩⟩
    obtain ⟨hkept, hsame⟩ := (hacts j hj).1 hother
    exact ⟨hsem.trans hkept, hwatch.trans hsame⟩

/-- The threads without the semaphore do no harm as long as their writes are silent. -/
theorem loose_harmless (i : ℕ) : Harmless (chainServer cfg steady) (scanning cfg steady) i
    (fun _ => True) Silent (fun x => x.memory.workerSemaphoreOn ≠ some i)
    (Loose cfg steady i) where
  stable := loose_stable i
  resumed _ hx hinv := .of_inv hinv hx
  written _ s f hB hf := hB.silent (hf s).1 (hf s).2
  asked _ _ q hB _ _ := ⟨hB.keeps (.asked i q) rfl, hB.semaphore⟩
  answered x q a hx hinv _ _ _ := by
    obtain ⟨hwatch, hsem⟩ := effect_silent cfg steady i q a x.memory
    have hloose := (Loose.of_inv hinv hx).silent hwatch hsem
    exact ⟨hloose.keeps (.answered i q a) rfl, hloose.semaphore⟩

/-- What is confined to silent writes, such as the whole of the transaction manager. -/
theorem silent_quiet (cfg : Config) :
    Quiet cfg (Family.confined (fun _ => True) Silent : Family (Memory Chain) Question Answer) :=
  .of_asks cfg (fun _ => Family.confined_asks.mpr trivial)
    (fun _ hf => Family.confined_writes.mpr hf.silent)
    fun _ hf => Family.confined_writes.mpr hf.silent

/-! ## Parts of a round -/

/-- What the scanner does not see leaves the thread in its phase. -/
theorem Holding.silent {s' : Memory Chain} (h : Holding i φ cfg steady x s)
    (hwatch : watch s' = watch s) (hsem : s'.workerSemaphoreOn = s.workerSemaphoreOn) :
    Holding i φ cfg steady x s' where
  others := h.others
  semaphore := hsem.trans h.semaphore
  node := (congrArg Watch.chain hwatch).trans h.node
  scanned := hwatch ▸ h.scanned
  running := h.running

theorem holding_harmless (i : ℕ) (φ : Phase) :
    Harmless (chainServer cfg steady) (scanning cfg steady) i (fun _ => True) Silent
      (Waiting i φ cfg steady) (Holding i φ cfg steady) where
  stable x y hx hinv hinv' hmeets hstep :=
    (waiting_stable i φ (watch x.memory) (fun _ => True) (fun _ _ _ _ _ _ => trivial) x y
      ⟨hx, rfl, trivial⟩ hinv hinv' hmeets hstep).1
  resumed _ hx _ := hx.holding
  written x s f hB hf := hB.silent (hf s).1 (hf s).2
  asked x s q hB _ _ := by
    have he : (i, .intervalHandler) ∈ running (x.log ++ [.asked i q]) := by
      rw [running_snoc]
      exact hB.running
    exact ⟨hB.keeps he, hB.semaphore, hB.scanned, he⟩
  answered x q a hx _ _ _ _ := by
    obtain ⟨hwatch, hsem⟩ := effect_silent cfg steady i q a x.memory
    have he : (i, .intervalHandler) ∈ running (x.log ++ [.answered i q a]) := by
      rw [running_snoc]
      exact hx.2.2
    have hholding := hx.holding.silent hwatch hsem
    exact ⟨hholding.keeps he, hholding.semaphore, hholding.scanned, he⟩

/-- The thread is in a phase in which its round may end. -/
def MayEnd (cfg : Config) (steady : Bool) (i : ℕ) (x : State Chain) (s : Memory Chain) : Prop :=
  ∃ φ, Holding i φ cfg steady x s ∧ (watch s).mayEnd cfg φ

/-- What comes of a part of a round: `Ψ` of its value, or the round may end. -/
def After {α : Type} (cfg : Config) (steady : Bool) (i : ℕ)
    (Ψ : α → State Chain → Memory Chain → Prop) (r : Except String α) (x : State Chain)
    (s : Memory Chain) : Prop :=
  match r with
  | .ok a => Ψ a x s
  | .error _ => MayEnd cfg steady i x s

theorem Watch.mayEnd_of_canFail {w : Watch} (h : φ.canFail = true) : w.mayEnd cfg φ := by
  cases φ with
  | stored b events => cases h
  | alerting b rest => cases h
  | _ => exact h

/-- An assertion that one more question does not disturb. -/
def Persists (cfg : Config) (steady : Bool) (i : ℕ) (Ψ : State Chain → Memory Chain → Prop) :
    Prop :=
  ∀ x s, Ψ x s → ∃ φ, Holding i φ cfg steady x s ∧
    ∀ z, Holding i φ cfg steady z z.memory → (watch s).SameBut (watch z.memory) → Ψ z z.memory

theorem holding_persists : Persists cfg steady i (Holding i φ cfg steady) :=
  fun _ _ h => ⟨φ, h, fun _ hz _ => hz⟩

theorem mayEnd_persists : Persists cfg steady i (MayEnd cfg steady i) := by
  rintro x s ⟨φ, hholding, hend⟩
  refine ⟨φ, hholding, fun z hz hsame => ⟨φ, hz, ?_⟩⟩
  have hreg : (watch z.memory).registrationManager = (watch s).registrationManager := by
    rw [hsame]
  unfold Watch.mayEnd at hend ⊢
  rw [hreg]
  exact hend

section Parts

variable {α β : Type} {Ψ : α → State Chain → Memory Chain → Prop}
  {Ψ' : β → State Chain → Memory Chain → Prop}

theorem wp_next {p : Handler Chain α} {f : α → Handler Chain β}
    (hp : wp (chainServer cfg steady) (scanning cfg steady) i p (After cfg steady i Ψ) x s)
    (hf : ∀ a y t, Ψ a y t →
      wp (chainServer cfg steady) (scanning cfg steady) i (f a) (After cfg steady i Ψ') y t) :
    wp (chainServer cfg steady) (scanning cfg steady) i (p.handle (Async.next f))
      (After cfg steady i Ψ') x s := by
  rw [wp_handle]
  refine wp_mono (fun r y t hr => ?_) p hp
  cases r with
  | ok a => exact hf a y t hr
  | error e => exact hr

theorem wp_get_next {f : Memory Chain → Handler Chain β}
    {Φ : Except String β → State Chain → Memory Chain → Prop} :
    wp (chainServer cfg steady) (scanning cfg steady) i (Async.get.handle (Async.next f)) Φ x s ↔
      wp (chainServer cfg steady) (scanning cfg steady) i (f s) Φ x s := Iff.rfl

theorem wp_modify_next {g : Memory Chain → Memory Chain} {f : Unit → Handler Chain β}
    {Φ : Except String β → State Chain → Memory Chain → Prop} :
    wp (chainServer cfg steady) (scanning cfg steady) i ((Async.modify g).handle (Async.next f))
      Φ x s ↔ wp (chainServer cfg steady) (scanning cfg steady) i (f ()) Φ x (g s) := Iff.rfl

/-- Waiting for a part of the round. -/
theorem wp_awaiting {f : AsyncFunction} {p : Handler Chain α}
    (hp : wp (chainServer cfg steady) (scanning cfg steady) i p (After cfg steady i Ψ) x s)
    (hΨ : ∀ a, Persists cfg steady i (Ψ a)) :
    wp (chainServer cfg steady) (scanning cfg steady) i (awaiting f p)
      (After cfg steady i Ψ) x s := by
  unfold awaiting Async.call
  rw [wp_handle]
  refine wp_mono (fun r y t hr => ?_) p hp
  cases r with
  | ok a =>
      obtain ⟨φ, hholding, hkeeps⟩ := hΨ a y t hr
      exact wp_holding hholding fun z _ hz hsame _ => hkeeps z hz hsame
  | error e =>
      obtain ⟨φ, hholding, hkeeps⟩ := mayEnd_persists y t hr
      exact wp_holding hholding fun z _ hz hsame _ => hkeeps z hz hsame

/-- A question in a phase in which the round may fail, unless the question cannot fail. -/
theorem wp_question {q : Question} {Ψ : Answer q → State Chain → Memory Chain → Prop}
    (h : Holding i φ cfg steady x s)
    (hfail : cannotFail q = false → φ.canFail = true)
    (hΨ : ∀ z v, Holding i φ cfg steady z z.memory → (watch s).SameBut (watch z.memory) →
      Told cfg.managerAddress s.node.blockNumber q (.ok v) z.memory.node → Ψ v z z.memory) :
    wp (chainServer cfg steady) (scanning cfg steady) i (ask q) (After cfg steady i Ψ) x s := by
  refine wp_holding h fun z a hz hsame htold => ?_
  cases a with
  | ok v => exact hΨ z v hz hsame htold
  | error e => exact ⟨φ, hz, Watch.mayEnd_of_canFail (hfail htold)⟩

/-- A silent part of the round. -/
theorem wp_silent {p : Handler Chain α}
    (hp : (Family.confined (fun _ => True) Silent : Family (Memory Chain) Question Answer).has p)
    (hend : ∀ w : Watch, w.mayEnd cfg φ) (h : Holding i φ cfg steady x s) :
    wp (chainServer cfg steady) (scanning cfg steady) i p
      (After cfg steady i fun _ => Holding i φ cfg steady) x s := by
  refine wp_confined (holding_harmless i φ) hp (fun r y t hB => ?_) h
  cases r with
  | ok a => exact hB
  | error e => exact ⟨φ, hB, hend _⟩

/-- What the thread writes is a step of the scanner. -/
theorem Holding.step {s' : Memory Chain} {φ' : Phase} (h : Holding i φ cfg steady x s)
    (hsem : s'.workerSemaphoreOn = s.workerSemaphoreOn) (hnode : s'.node = s.node)
    (hstep : Scan cfg steady (watch s) φ (watch s') φ') : Holding i φ' cfg steady x s' where
  others := h.others
  semaphore := hsem.trans h.semaphore
  node := hnode.trans h.node
  scanned := h.scanned.step _ _ _ _ hstep
  running := h.running

end Parts

end RifRelay.Server
