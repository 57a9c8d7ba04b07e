import RifRelay.Contracts.Penalties

set_option autoImplicit false

/-! # How often an offence is punished

Every report that goes through records a transaction that was not recorded. So the reports
over a set of transactions are fewer than the transactions, in whatever order and nesting
they are made, since a contract that is called as a hub may report again before the first
report has returned. The argument is a relation between two moments of a run (`Grows`) that
every message keeps: the reports over a set that have gone through in between are at most as
many as the transactions of the set that were recorded in between, the first one not counted.
-/

namespace RifRelay

open CallMachine

namespace Penalizer

/-! ## Counting recorded transactions -/

/-- When the second of two elements gets a property, the count without the first grows. -/
theorem card_filter_pair {α : Type*} {S : Finset α} {p q : α → Prop} [DecidablePred p]
    [DecidablePred q] (hpq : ∀ a, p a → q a) {a b : α} (hab : a ≠ b) (ha : a ∈ S) (hb : b ∈ S)
    (hqa : q a) (hqb : q b) (hnot : ¬ p a ∨ ¬ p b) :
    ((S.filter p).card - 1) + 1 ≤ (S.filter q).card - 1 := by
  have hmema : a ∈ S.filter q := Finset.mem_filter.mpr ⟨ha, hqa⟩
  have hmemb : b ∈ S.filter q := Finset.mem_filter.mpr ⟨hb, hqb⟩
  have htwo : 1 < (S.filter q).card := Finset.one_lt_card.mpr ⟨a, hmema, b, hmemb, hab⟩
  have hmore : (S.filter p).card < (S.filter q).card := by
    apply Finset.card_lt_card
    rw [Finset.ssubset_iff_of_subset (Finset.monotone_filter_right S fun a _ => hpq a)]
    rcases hnot with h | h
    · exact ⟨a, hmema, fun hmem => h (Finset.mem_filter.mp hmem).2⟩
    · exact ⟨b, hmemb, fun hmem => h (Finset.mem_filter.mp hmem).2⟩
  omega

section Counts

variable {χ : Type}

/-- The answer tells of a report to the penalizer at `P` that went through, over two signed
transactions (an unsigned one and a signature each) as `about` demands. -/
def succeeds (P : Address) (about : Bytes × Bytes → Bytes × Bytes → Bool)
    (a : Msg × Except Revert Bytes) : Bool :=
  match a with
  | (⟨_, _, self, _, _, .penalizeRepeatedNonce unsignedTx1 signature1 unsignedTx2 signature2 _,
      _⟩, .ok _) => self == P && about (unsignedTx1, signature1) (unsignedTx2, signature2)
  | _ => false

/-- How many reports went through. -/
def successes (P : Address) (about : Bytes × Bytes → Bytes × Bytes → Bool) (c : ChainConf χ) :
    Nat :=
  c.answers.countP (succeeds P about)

/-- Both transactions are in the set, whatever their signatures. -/
def within (S : Finset Bytes) (tx₁ tx₂ : Bytes × Bytes) : Bool :=
  decide (tx₁.1 ∈ S) && decide (tx₂.1 ∈ S)

/-- The penalizer at `P` has recorded the transaction. -/
def IsRecorded (E : Env) (P : Address) (w : World χ) (unsignedTx : Bytes) : Prop :=
  (w.penalizers P).penalizedTransactions (E.keccak256 unsignedTx) = true

instance (E : Env) (P : Address) (w : World χ) : DecidablePred (IsRecorded E P w) :=
  fun _ => inferInstanceAs (Decidable (_ = true))

/-- How many transactions of the set are recorded. -/
def recordedOf (E : Env) (P : Address) (S : Finset Bytes) (w : World χ) : Nat :=
  (S.filter (IsRecorded E P w)).card

theorem recordedOf_le (E : Env) (P : Address) (S : Finset Bytes) (w : World χ) :
    recordedOf E P S w ≤ S.card := Finset.card_filter_le _ _

theorem succeeds_error (P : Address) (about : Bytes × Bytes → Bytes × Bytes → Bool) (msg : Msg)
    (e : Revert) : succeeds P about (msg, .error e) = false := by
  unfold succeeds
  split
  · next h => cases h
  · rfl

theorem succeeds_other {P : Address} {msg : Msg} (h : msg.self ≠ P)
    (about : Bytes × Bytes → Bytes × Bytes → Bool) (r : Except Revert Bytes) :
    succeeds P about (msg, r) = false := by
  unfold succeeds
  split
  · next heq =>
      obtain ⟨rfl, -⟩ := Prod.mk.inj heq
      simp only [Bool.and_eq_false_iff, beq_eq_false_iff_ne]
      exact Or.inl h
  · rfl

theorem successes_answered (P : Address) (about : Bytes × Bytes → Bytes × Bytes → Bool)
    (c : ChainConf χ) (msg : Msg) (r : Except Revert Bytes) :
    successes P about (c.answered msg r) =
      successes P about c + if succeeds P about (msg, r) = true then 1 else 0 := by
  rw [successes, Conf.answered_answers, List.countP_append, List.countP_singleton]
  rfl

end Counts

/-! ## Between two moments -/

section Grows

variable {χ : Type} {E : Env} {P : Address}

/-- From `c` to `c'` no record is lost, and the reports over a set that went through are at
most as many as the records that were added, the first one not counted. -/
structure Grows (E : Env) (P : Address) (c c' : ChainConf χ) : Prop where
  kept : ∀ tx, IsRecorded E P c.state tx → IsRecorded E P c'.state tx
  count : ∀ S, successes P (within S) c' + (recordedOf E P S c.state - 1) ≤
    successes P (within S) c + (recordedOf E P S c'.state - 1)

namespace Grows

variable {c c' c'' : ChainConf χ}

theorem refl (c : ChainConf χ) : Grows E P c c := ⟨fun _ h => h, fun _ => Nat.le_refl _⟩

theorem trans (h : Grows E P c c') (h' : Grows E P c' c'') : Grows E P c c'' where
  kept := fun tx hc => h'.kept tx (h.kept tx hc)
  count := by
    intro S
    have h₁ := h.count S
    have h₂ := h'.count S
    omega

/-- The same record and the same successes. -/
theorem congr (h : Grows E P c c') (hrecord : c''.state.penalizers P = c'.state.penalizers P)
    (hanswers : ∀ S, successes P (within S) c'' = successes P (within S) c') :
    Grows E P c c'' where
  kept := by
    intro tx hc
    unfold IsRecorded
    rw [hrecord]
    exact h.kept tx hc
  count := by
    intro S
    have hsame : recordedOf E P S c''.state = recordedOf E P S c'.state := by
      refine congrArg Finset.card (Finset.filter_congr fun tx _ => ?_)
      rw [IsRecorded, IsRecorded, hrecord]
    rw [hanswers S, hsame]
    exact h.count S

theorem answered (h : Grows E P c c') {msg : Msg} {r : Except Revert Bytes}
    (hr : ∀ about, succeeds P about (msg, r) = false) : Grows E P c (c'.answered msg r) := by
  refine h.congr rfl fun S => ?_
  rw [successes_answered, hr]
  rfl

end Grows

theorem recordedOf_mono {w w' : World χ} (h : ∀ tx, IsRecorded E P w tx → IsRecorded E P w' tx)
    (S : Finset Bytes) : recordedOf E P S w ≤ recordedOf E P S w' :=
  Finset.card_le_card (Finset.monotone_filter_right S fun tx _ => h tx)

/-- A report that goes through: its checks have passed at `c₁`, the records it writes leave
`w₂`, and its call leads to `c₃`. -/
theorem Grows.report {c c₁ c₃ : ChainConf χ} {w₂ : World χ} {msg : Msg} {ret : Bytes}
    {unsignedTx1 signature1 unsignedTx2 signature2 : Bytes} {hub : Address}
    (hdata : msg.data = .penalizeRepeatedNonce unsignedTx1 signature1 unsignedTx2 signature2 hub)
    (hself : msg.self = P) (h₁ : Grows E P c c₁)
    (hnot : ¬ IsRecorded E P c₁.state unsignedTx1 ∨ ¬ IsRecorded E P c₁.state unsignedTx2)
    (hne : unsignedTx1 ≠ unsignedTx2)
    (hkept : ∀ tx, IsRecorded E P c₁.state tx → IsRecorded E P w₂ tx)
    (hrecorded : IsRecorded E P w₂ unsignedTx1 ∧ IsRecorded E P w₂ unsignedTx2)
    (h₃ : Grows E P (c₁.put w₂) c₃) :
    Grows E P c (c₃.answered msg (.ok ret)) where
  kept := fun tx hc => h₃.kept tx (hkept tx (h₁.kept tx hc))
  count := by
    intro S
    have hbefore := h₁.count S
    have hafter := h₃.count S
    have hcounts : successes P (within S) (c₁.put w₂) = successes P (within S) c₁ := rfl
    rw [Conf.put_state] at hafter
    rw [successes_answered, Conf.answered_state]
    have hsucceeds : succeeds P (within S) (msg, .ok ret) =
        within S (unsignedTx1, signature1) (unsignedTx2, signature2) := by
      obtain ⟨kind, sender, self, codeAddress, value, data, tx⟩ := msg
      obtain rfl : data = _ := hdata
      obtain rfl : self = P := hself
      simp [succeeds]
    rw [hsucceeds]
    by_cases hin : unsignedTx1 ∈ S ∧ unsignedTx2 ∈ S
    · have hpair : (recordedOf E P S c₁.state - 1) + 1 ≤ recordedOf E P S w₂ - 1 :=
        card_filter_pair hkept hne hin.1 hin.2 hrecorded.1 hrecorded.2 hnot
      rw [if_pos (by simp [within, hin])]
      omega
    · have hmono := recordedOf_mono hkept S
      rw [if_neg (by simpa [within] using hin)]
      omega

end Grows

/-! ## Runs -/

section Runs

variable {χ : Type} {E : Env} {O : Outside E χ} {w₀ : World χ} {P : Address} {creation : Bytes}

/-- The report has recorded a transaction that was not recorded. -/
def RecordsNew (E : Env) (P : Address) (msg : Msg) (c c' : ChainConf χ) : Prop :=
  ∀ unsignedTx1 signature1 unsignedTx2 signature2 hub,
    msg.data = .penalizeRepeatedNonce unsignedTx1 signature1 unsignedTx2 signature2 hub →
      ∃ tx, (tx = unsignedTx1 ∨ tx = unsignedTx2) ∧ ¬ IsRecorded E P c.state tx ∧
        IsRecorded E P c'.state tx

/-- What holds at every moment of a run. -/
structure Counting (E : Env) (w₀ : World χ) (P : Address) (c : ChainConf χ) : Prop where
  kept : CodeKept E w₀ (· = P) c.state
  grows : Grows E P (Conf.start w₀) c

/-- What every message does. -/
def countSpec (E : Env) (w₀ : World χ) (P : Address) : Spec (World χ) Msg Revert Bytes where
  pre msg c := Addressed (· = P) msg ∧ Counting E w₀ P c
  post msg r c c' := CodeKept E w₀ (· = P) c'.state ∧ Grows E P c c' ∧
    ((∃ ret, r = .ok ret) → msg.self = P → RecordsNew E P msg c c')

theorem Counting.next {c c' : ChainConf χ} (h : Counting E w₀ P c)
    (hkept : CodeKept E w₀ (· = P) c'.state) (hgrows : Grows E P c c') : Counting E w₀ P c' :=
  ⟨hkept, h.grows.trans hgrows⟩

theorem Grows.entered {c : ChainConf χ} {msg : Msg} {s : World χ}
    (henter : enter msg c.state = some s) : Grows E P c (c.entered msg s) := by
  obtain ⟨b, rfl, -⟩ := enter_frame henter
  exact (Grows.refl c).congr rfl fun _ => rfl

/-- **The frame of the penalizer.** -/
theorem count_frame {c : ChainConf χ} {msg : Msg} {s : World χ} (hi : Counting E w₀ P c)
    (hself : msg.self = P) (henter : enter msg c.state = some s) :
    wp (countSpec E w₀ P) (code E msg)
      (fun ret c' => (countSpec E w₀ P).post msg (.ok ret) c (c'.answered msg (.ok ret)))
      (c.entered msg s) := by
  subst hself
  have hkept : CodeKept E w₀ (· = msg.self) s := hi.kept.enter henter
  have hentered : Grows E msg.self c (c.entered msg s) := Grows.entered henter
  unfold code
  split
  · next unsignedTx1 signature1 unsignedTx2 signature2 hub hdata =>
      simp only [penalizeRepeatedNonce, relayManagerOnly, callIsRelayManagerStaked, callFunction,
        Prog.bind_eq, Prog.pure_eq, wp_bind, wp_nonPayable, wp_require, wp_bubble, wp_orRevert,
        wp_get, wp_assert, wp_send, wp_ret, wp_penalizer_modifyStorage]
      intro _ _
      refine ⟨⟨Addressed.staticcallTo _ msg hub _, hi.next hkept hentered⟩, ?_⟩
      rintro r c₁ ⟨hkept₁, hgrows₁, -⟩ ret rfl staked _ _
      refine wp_checkOffence fun a hfree hne _ => ?_
      -- what the two writes leave is called `w₂`
      let w₂ : World χ := c₁.state.setPenalizer msg.self
        (((c₁.state.penalizers msg.self).record (E.keccak256 unsignedTx1)).record
          (E.keccak256 unsignedTx2))
      have hbefore : Grows E msg.self c c₁ := hentered.trans hgrows₁
      have hmore : ∀ tx, IsRecorded E msg.self c₁.state tx → IsRecorded E msg.self w₂ tx := by
        intro tx htx
        unfold IsRecorded at htx ⊢
        simp only [w₂, World.setPenalizer, Function.update_self, record]
        by_cases h₂ : E.keccak256 tx = E.keccak256 unsignedTx2
        · rw [h₂, Function.update_self]
        · rw [Function.update_of_ne h₂]
          by_cases h₁ : E.keccak256 tx = E.keccak256 unsignedTx1
          · rw [h₁, Function.update_self]
          · rw [Function.update_of_ne h₁]
            exact htx
      have hboth : IsRecorded E msg.self w₂ unsignedTx1 ∧ IsRecorded E msg.self w₂ unsignedTx2 := by
        unfold IsRecorded
        simp only [w₂, World.setPenalizer, Function.update_self, record, and_true]
        by_cases h₂ : E.keccak256 unsignedTx1 = E.keccak256 unsignedTx2
        · rw [h₂, Function.update_self]
        · rw [Function.update_of_ne h₂, Function.update_self]
      have hnot : ¬ IsRecorded E msg.self c₁.state unsignedTx1 ∨
          ¬ IsRecorded E msg.self c₁.state unsignedTx2 := by
        unfold IsRecorded
        rw [Bool.not_eq_true, Bool.not_eq_true]
        exact hfree
      -- one success more, and one of the two transactions is newly recorded
      have hgrows₂ : Grows E msg.self c₁ (c₁.put w₂) := by
        refine ⟨hmore, fun S => ?_⟩
        have hmono := recordedOf_mono hmore S
        show successes _ _ c₁ + _ ≤ _ + (recordedOf E msg.self S w₂ - 1)
        omega
      have hput : (c₁.put (c₁.state.setPenalizer msg.self
          ((c₁.state.penalizers msg.self).record (E.keccak256 unsignedTx1)))).put
            ((c₁.state.setPenalizer msg.self ((c₁.state.penalizers msg.self).record
                (E.keccak256 unsignedTx1))).setPenalizer msg.self
              (((c₁.state.setPenalizer msg.self ((c₁.state.penalizers msg.self).record
                (E.keccak256 unsignedTx1))).penalizers msg.self).record
                (E.keccak256 unsignedTx2))) = c₁.put w₂ := by
        simp [w₂, World.setPenalizer]
      rw [Conf.put_state, hput]
      refine ⟨⟨Addressed.callTo _ msg hub 0 _,
        (hi.next hkept₁ hbefore).next (hkept₁.congr rfl) hgrows₂⟩, ?_⟩
      rintro r c₃ ⟨hkept₃, hgrows₃, -⟩ ret' rfl
      refine ⟨hkept₃, hbefore.report hdata rfl hnot hne hmore hboth hgrows₃, fun _ _ => ?_⟩
      intro u₁ s₁ u₂ s₂ hub' hdata'
      rw [hdata] at hdata'
      injection hdata' with hu₁ hs₁ hu₂ hs₂ hhub
      subst hu₁ hu₂
      rcases hnot with hnot | hnot
      · exact ⟨_, Or.inl rfl, fun h => hnot (hbefore.kept _ h), hgrows₃.kept _ hboth.1⟩
      · exact ⟨_, Or.inr rfl, fun h => hnot (hbefore.kept _ h), hgrows₃.kept _ hboth.2⟩
  · exact trivial

theorem count_meets (hcode : w₀.code P = some ⟨.penalizer, creation⟩) :
    Meets (machine E O) (countSpec E w₀ P) where
  fail := by
    rintro msg e c ⟨-, hi⟩
    refine ⟨hi.kept, (Grows.refl c).answered (fun about => succeeds_error P about msg e), ?_⟩
    rintro ⟨ret, hret⟩
    cases hret
  code := by
    rintro msg c s ⟨haddress, hi⟩ henter
    have hhascode : ∀ a, a = P → w₀.code a ≠ none := by
      rintro a rfl
      simp [hcode]
    by_cases hself : msg.self = P
    · have hrun : codeOf E O msg s = code E msg := by
        obtain ⟨b, rfl, -⟩ := enter_frame henter
        rw [codeOf, haddress.codeAddress hself, hself, hi.kept.code _ rfl, hcode]
        rfl
      show wp _ (codeOf E O msg s) _ _
      rw [hrun]
      exact count_frame hi hself henter
    · refine wp_mono _ ?_ _ _ (wp_foreign (J := fun c' => CodeKept E w₀ (· = P) c'.state ∧
        Grows E P c c') ?_ ?_ ?_ _ ⟨hi.kept.enter henter, Grows.entered henter⟩)
      · rintro ret c' ⟨hkept, hgrows⟩
        exact ⟨hkept, hgrows.answered (fun about => succeeds_other hself about _),
          fun _ h => absurd h hself⟩
      · rintro c' w ⟨hkept, hgrows⟩ hw
        exact ⟨hkept.write hhascode (fun h => absurd h hself) hw,
          hgrows.congr (hw.penalizers P (Ne.symm hself)) fun _ => rfl⟩
      · rintro m c' hm ⟨hkept, hgrows⟩
        exact ⟨Addressed.of_local hself hm, hi.next hkept hgrows⟩
      · rintro m r c₁ c₂ - ⟨-, hgrows⟩ ⟨hkept, hgrows', -⟩
        exact ⟨hkept, hgrows.trans hgrows'⟩

theorem count_keeps (hcode : w₀.code P = some ⟨.penalizer, creation⟩)
    (hcodeless : ∀ a, E.codeless a = true → w₀.code a = none) :
    Keeps E O w₀ (fun _ => countSpec E w₀ P) (fun _ c => Counting E w₀ P c) where
  meets := fun _ => count_meets hcode
  start := fun _ => ⟨⟨fun _ _ => rfl, hcodeless⟩, Grows.refl _⟩
  wait := fun _ _ _ _ hi => hi
  write := by
    intro b c msg s hi hself hw
    have hhascode : ∀ a, a = P → w₀.code a ≠ none := by
      rintro a rfl
      simp [hcode]
    have hne : msg.self ≠ P := hi.kept.not_codeless hhascode hself
    exact ⟨hi.kept.write hhascode (fun h => absurd h hne) hw,
      hi.grows.congr (hw.penalizers P (Ne.symm hne)) fun _ => rfl⟩
  call := fun b c tx hi _ _ => ⟨⟨fun _ => rfl, fun _ => CallKind.noConfusion⟩, hi⟩
  back := fun b c tx r c' hi _ _ hpost => hi.next hpost.1 hpost.2.1

theorem counting_point (hcode : w₀.code P = some ⟨.penalizer, creation⟩)
    (hcodeless : ∀ a, E.codeless a = true → w₀.code a = none) {b : Word} {point : Option Msg}
    {c : ChainConf χ} (hc : Point E O w₀ b point c) : Counting E w₀ P c := by
  rcases hc.of_keeps (count_keeps hcode hcodeless) with ⟨-, hi⟩ | ⟨-, -, -, -, -, hi⟩
  · exact hi
  · exact hi

/-- From an empty record, the reports that went through are fewer than the transactions. -/
theorem Counting.successes_le {c : ChainConf χ} (h : Counting E w₀ P c)
    (hempty : ∀ txHash, (w₀.penalizers P).penalizedTransactions txHash = false) (S : Finset Bytes) :
    successes P (within S) c ≤ S.card - 1 := by
  have hcount := h.grows.count S
  have hnone : recordedOf E P S w₀ = 0 := by
    rw [recordedOf, Finset.card_eq_zero, Finset.filter_eq_empty_iff]
    intro tx _ htx
    rw [IsRecorded, hempty] at htx
    cases htx
  have hle := recordedOf_le E P S c.state
  have hzero : successes P (within S) (Conf.start w₀) = 0 := rfl
  rw [Conf.start_state, hnone, hzero] at hcount
  omega

theorem successes_mono {c : ChainConf χ} {about about' : Bytes × Bytes → Bytes × Bytes → Bool}
    (h : ∀ tx₁ tx₂, about tx₁ tx₂ = true → about' tx₁ tx₂ = true) :
    successes P about c ≤ successes P about' c := by
  refine List.countP_mono_left fun a _ ha => ?_
  unfold succeeds at ha ⊢
  split at ha
  · rw [Bool.and_eq_true] at ha ⊢
    exact ⟨ha.1, h _ _ ha.2⟩
  · cases ha

/-- Both signed transactions are in the set. -/
def bothIn (T : Finset (Bytes × Bytes)) (tx₁ tx₂ : Bytes × Bytes) : Bool :=
  decide (tx₁ ∈ T) && decide (tx₂ ∈ T)

/-- The pair, in one order or the other. -/
def isPair (unsignedTx1 unsignedTx2 : Bytes) (tx₁ tx₂ : Bytes × Bytes) : Bool :=
  (tx₁.1 == unsignedTx1 && tx₂.1 == unsignedTx2) || (tx₁.1 == unsignedTx2 && tx₂.1 == unsignedTx1)

/-- **Penalty count.** At every point of every run of a penalizer:

* a report that goes through from here records a transaction that is not recorded;
* fewer reports over signed transactions of a set have gone through than there are
  transactions in the set;
* no pair has been reported twice, in either order. -/
theorem penalty_count (hfresh : Fresh w₀ P)
    (hcodeless : ∀ a, E.codeless a = true → w₀.code a = none) {b : Word} {point : Option Msg}
    {c : ChainConf χ} (hc : Point E O w₀ b point c) :
    (∀ depth static g msg ret, Addressed (· = P) msg → msg.self = P →
      (exec (machine E O) depth static g msg c).value = .ok ret →
      RecordsNew E P msg c (exec (machine E O) depth static g msg c).conf) ∧
    (∀ T, successes P (bothIn T) c ≤ T.card - 1) ∧
    ∀ unsignedTx1 unsignedTx2, successes P (isPair unsignedTx1 unsignedTx2) c ≤ 1 := by
  obtain ⟨creation, hcode⟩ := hfresh.code
  have hcounting := counting_point hcode hcodeless hc
  refine ⟨?_, ?_, ?_⟩
  · intro depth static g msg ret haddress hself hok
    exact (exec_spec (count_meets hcode) depth static g msg c ⟨haddress, hcounting⟩).2.2
      ⟨ret, hok⟩ hself
  · intro T
    have hforget : successes P (bothIn T) c ≤ successes P (within (T.image Prod.fst)) c := by
      apply successes_mono
      intro tx₁ tx₂ h
      simp only [bothIn, within, Bool.and_eq_true, decide_eq_true_eq] at h ⊢
      exact ⟨Finset.mem_image_of_mem _ h.1, Finset.mem_image_of_mem _ h.2⟩
    have hcount := hcounting.successes_le hfresh.record (T.image Prod.fst)
    have hcard : (T.image Prod.fst).card ≤ T.card := Finset.card_image_le
    omega
  · intro unsignedTx1 unsignedTx2
    have hforget : successes P (isPair unsignedTx1 unsignedTx2) c ≤
        successes P (within {unsignedTx1, unsignedTx2}) c := by
      apply successes_mono
      intro tx₁ tx₂ h
      simp only [isPair, within, Bool.or_eq_true, Bool.and_eq_true, beq_iff_eq, decide_eq_true_eq,
        Finset.mem_insert, Finset.mem_singleton] at h ⊢
      rcases h with ⟨h₁, h₂⟩ | ⟨h₁, h₂⟩
      · exact ⟨Or.inl h₁, Or.inr h₂⟩
      · exact ⟨Or.inr h₁, Or.inl h₂⟩
    have hcount := hcounting.successes_le hfresh.record {unsignedTx1, unsignedTx2}
    have hcard : ({unsignedTx1, unsignedTx2} : Finset Bytes).card ≤ 2 := Finset.card_le_two
    omega

/-! The conflicting transactions of `worker`, reported by `0x0d`. -/

def reportedRun : ChainConf Unit :=
  (pairTx 0x0d 12 0xbb 0 (report 0xaa 0x0d).data).run pairEnv pretender 8 staked

theorem reportedRun_settled : Settled pairEnv pretender pairWorld 12 reportedRun :=
  staked_settled.call (pairTx 0x0d 12 0xbb 0 (report 0xaa 0x0d).data) 8 (by decide) (by decide)

/-- The report has gone through, as the only one over the two transactions. -/
theorem penalty_count_run :
    successes 0xbb (bothIn {(plainTx.encode, plainSignature), (dataTx.encode, dataSignature)})
      reportedRun ≤ 2 - 1 ∧
    successes 0xbb (isPair plainTx.encode dataTx.encode) reportedRun = 1 := by
  have hcount := penalty_count pairWorld_penalizer pairWorld_hub.codeless
    (Point.settled reportedRun_settled)
  refine ⟨?_, by decide +kernel⟩
  have hle := hcount.2.1 {(plainTx.encode, plainSignature), (dataTx.encode, dataSignature)}
  have hcard : ({(plainTx.encode, plainSignature), (dataTx.encode, dataSignature)} :
      Finset (Bytes × Bytes)).card ≤ 2 := Finset.card_le_two
  omega

end Runs

end Penalizer

end RifRelay
