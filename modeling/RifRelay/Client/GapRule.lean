import RifRelay.Client.SmartWalletDiscovery
import Mathlib.Data.Finset.Card
import Mathlib.Tactic.IntervalCases

set_option autoImplicit false

/-! # What wallet discovery finds

`keyAccounts` is what the gap rule promises for a key: the accounts that can be reached, each with
the wallets that can be reached. The loops end with it as long as the derived addresses are
distinct.

* `walletLoop_ends`, `keyLoop_ends` — the loops over the wallets and over the accounts;
* `discoverKeys_ends` — the loop over the keys stops at the first one with nothing in it;
* `discovery_finds` — the three functions.
-/

namespace RifRelay

open Loops GapScans

namespace SmartWalletDiscovery

variable (env : Environment) (config : DiscoveryConfig)

/-! ## The gap rule -/

def walletActive (currentAddress : Text) (walletIndex : ℕ) : Bool :=
  env.searchTrx (currentSWAddress env config currentAddress walletIndex)

/-- The active wallets of an account that can be reached, in order. -/
noncomputable def walletsOf (currentAddress : Text) : List Text :=
  (reachable config.sWalletGap (walletActive env config currentAddress)).map
    (currentSWAddress env config currentAddress)

/-- An account is active if its address or one of its discovered wallets has activity. -/
noncomputable def accountActive (addressOf : ℕ → Text) (index : ℕ) : Bool :=
  env.searchTrx (addressOf index) || !(walletsOf env config (addressOf index)).isEmpty

noncomputable def accountOf (currentAddress : Text) : DiscoveredAccount :=
  ⟨currentAddress, walletsOf env config currentAddress⟩

/-- The active accounts of a key that can be reached, in order. -/
noncomputable def keyAccounts (addressOf : ℕ → Text) : List DiscoveredAccount :=
  (reachable config.eoaGap (accountActive env config addressOf)).map fun index =>
    accountOf env config (addressOf index)

/-! ## The derived addresses -/

/-- An address that is derived from a key: of an account, or of one of its wallets. -/
inductive Place
  | eoa (index : ℕ)
  | wallet (index walletIndex : ℕ)
deriving Inhabited, DecidableEq

namespace Place

def index : Place → ℕ
  | eoa index => index
  | wallet index _ => index

def address (addressOf : ℕ → Text) : Place → Text
  | eoa index => addressOf index
  | wallet index walletIndex => currentSWAddress env config (addressOf index) walletIndex

/-- The places to which a search can get when `active` has `env.active.card` members. -/
def Visited : Place → Prop
  | eoa index => index < (env.active.card + 1) * (config.eoaGap + 1)
  | wallet index walletIndex =>
      index < (env.active.card + 1) * (config.eoaGap + 1) ∧
        walletIndex < (env.active.card + 1) * (config.sWalletGap + 1)

end Place

/-- The addresses derived from a key are distinct, and none of an account is the zero address,
which stands for no account. -/
structure Distinct (addressOf : ℕ → Text) : Prop where
  apart : ∀ p q : Place, p.Visited env config → q.Visited env config →
    p.address env config addressOf = q.address env config addressOf → p = q
  nonzero : ∀ index < (env.active.card + 1) * (config.eoaGap + 1),
    addressOf index ≠ Constants.ZERO_ADDRESS

/-- The addresses derived from all the keys that are supplied are distinct. -/
structure AllDistinct (keyOf : ℕ → Option (ℕ → Text)) : Prop where
  each : ∀ k ≤ env.active.card, ∀ addressOf, keyOf k = some addressOf →
    Distinct env config addressOf
  apart : ∀ k ≤ env.active.card, ∀ l ≤ env.active.card, ∀ addressOf addressOf',
    keyOf k = some addressOf → keyOf l = some addressOf' →
    ∀ p q : Place, p.Visited env config → q.Visited env config →
      p.address env config addressOf = q.address env config addressOf' → k = l

variable {env config} {addressOf : ℕ → Text} {index : ℕ}

theorem mem_active_of_search {t : Text} (h : env.searchTrx t = true) : t ∈ env.active :=
  of_decide_eq_true h

/-- Few wallets of an account are active. -/
theorem few_wallets (h : Distinct env config addressOf)
    (hindex : index < (env.active.card + 1) * (config.eoaGap + 1)) :
    Few config.sWalletGap (walletActive env config (addressOf index)) env.active.card := by
  refine few_of_injOn (f := currentSWAddress env config (addressOf index)) ?_ ?_
  · intro v hv w hw heq
    have hplace := h.apart (.wallet index v) (.wallet index w) ⟨hindex, hv.1⟩ ⟨hindex, hw.1⟩ heq
    cases hplace
    rfl
  · intro w _ hactive
    exact mem_active_of_search hactive

/-- An account that is active has an active place. -/
theorem exists_place (h : Distinct env config addressOf)
    (hindex : index < (env.active.card + 1) * (config.eoaGap + 1))
    (hactive : accountActive env config addressOf index = true) :
    ∃ p : Place, p.index = index ∧ p.Visited env config ∧
      p.address env config addressOf ∈ env.active := by
  rw [accountActive, Bool.or_eq_true] at hactive
  rcases hactive with hown | hwallets
  · exact ⟨.eoa index, rfl, hindex, mem_active_of_search hown⟩
  · have hne : walletsOf env config (addressOf index) ≠ [] := by
      intro hnil
      rw [hnil] at hwallets
      cases hwallets
    obtain ⟨t, ht⟩ := List.exists_mem_of_ne_nil _ hne
    obtain ⟨w, hw, rfl⟩ := List.mem_map.mp ht
    have hfew := few_wallets h hindex
    exact ⟨.wallet index w, rfl, ⟨hindex, lt_of_mem_reachable hfew hw⟩,
      mem_active_of_search (active_of_mem hw)⟩

/-- Few accounts of a key are active. -/
theorem few_accounts (h : Distinct env config addressOf) :
    Few config.eoaGap (accountActive env config addressOf) env.active.card := by
  have hplaces : ∀ n, n < (env.active.card + 1) * (config.eoaGap + 1) →
      accountActive env config addressOf n = true →
      ∃ p : Place, p.index = n ∧ p.Visited env config ∧
        p.address env config addressOf ∈ env.active := fun n hn hactive =>
    exists_place h hn hactive
  choose! place hindex hvisited hmem using hplaces
  refine few_of_injOn (f := fun n => (place n).address env config addressOf) ?_ hmem
  intro n hn k hk heq
  have hplace := h.apart _ _ (hvisited n hn.1 hn.2) (hvisited k hk.1 hk.2) heq
  rw [← hindex n hn.1 hn.2, ← hindex k hk.1 hk.2, hplace]

/-! ## The loop over the wallets -/

/-- The loop over the wallets on its way, from a count and a gap of its accounts. -/
structure WalletsScanned (env : Environment) (config : DiscoveryConfig) (currentAddress : Text)
    (count gap : ℕ) (s : WalletLoop) : Prop where
  scanned : Scanned config.sWalletGap (walletActive env config currentAddress) s.currentSWGap
    s.walletIndex
  inside : s.walletIndex ≤ (env.active.card + 1) * (config.sWalletGap + 1)
  swAccounts : s.swAccounts = ((List.range s.walletIndex).filter
    (walletActive env config currentAddress)).map (currentSWAddress env config currentAddress)
  total : s.totalSWTrxCount = count + s.swAccounts.length
  currentGap : s.currentGap = if s.swAccounts = [] then gap else 0

variable {currentAddress : Text} {count gap : ℕ}

theorem WalletsScanned.start :
    WalletsScanned env config currentAddress count gap ⟨[], count, gap, 0, 0⟩ where
  scanned := .start
  inside := Nat.zero_le _
  swAccounts := rfl
  total := rfl
  currentGap := rfl

theorem WalletsScanned.step {s : WalletLoop}
    (h : WalletsScanned env config currentAddress count gap s)
    (hgap : s.currentSWGap ≤ config.sWalletGap)
    (hindex : s.walletIndex < (env.active.card + 1) * (config.sWalletGap + 1)) :
    WalletsScanned env config currentAddress count gap
      (walletTurn env config currentAddress s) := by
  have hscan := h.scanned.step hgap
  have htotal := h.total
  by_cases hactive : walletActive env config currentAddress s.walletIndex = true
  · rw [if_pos hactive] at hscan
    have hturn : walletTurn env config currentAddress s =
        { swAccounts := s.swAccounts ++ [currentSWAddress env config currentAddress s.walletIndex]
          totalSWTrxCount := s.totalSWTrxCount + 1
          currentGap := 0
          currentSWGap := 0
          walletIndex := s.walletIndex + 1 } := if_pos hactive
    rw [hturn]
    refine ⟨hscan, hindex, ?_, ?_, ?_⟩
    · show s.swAccounts ++ _ = _
      rw [h.swAccounts, range_succ_filter, if_pos hactive, List.map_append]
      rfl
    · show s.totalSWTrxCount + 1 = _
      rw [List.length_append, List.length_singleton]
      omega
    · exact (if_neg (List.append_ne_nil_of_right_ne_nil _ (List.cons_ne_nil _ _))).symm
  · rw [if_neg hactive] at hscan
    have hturn : walletTurn env config currentAddress s =
        { s with currentSWGap := s.currentSWGap + 1, walletIndex := s.walletIndex + 1 } :=
      if_neg hactive
    rw [hturn]
    refine ⟨hscan, hindex, ?_, htotal, h.currentGap⟩
    show s.swAccounts = _
    rw [range_succ_filter, if_neg hactive, List.append_nil]
    exact h.swAccounts

theorem walletIndex_walletTurn (s : WalletLoop) :
    (walletTurn env config currentAddress s).walletIndex = s.walletIndex + 1 := by
  simp only [walletTurn]
  split <;> rfl

/-- **The loop over the wallets** finds the wallets of the account. -/
theorem walletLoop_ends (hfew : Few config.sWalletGap (walletActive env config currentAddress)
    env.active.card) (count gap : ℕ) :
    ∃ w, Ends (walletLoop env config currentAddress ⟨[], count, gap, 0, 0⟩) w ∧
      w.swAccounts = walletsOf env config currentAddress ∧
      w.totalSWTrxCount = count + w.swAccounts.length ∧
      w.currentGap = if w.swAccounts = [] then gap else 0 := by
  have hloop : ∃ w, Ends (walletLoop env config currentAddress ⟨[], count, gap, 0, 0⟩) w ∧
      WalletsScanned env config currentAddress count gap w ∧
      decide (w.currentSWGap ≤ config.sWalletGap) = false := by
    refine while_ends _ (fun s => (env.active.card + 1) * (config.sWalletGap + 1) - s.walletIndex)
      (fun s hs hcond => ?_) WalletsScanned.start
    have hgap := of_decide_eq_true hcond
    have hindex := hs.scanned.inside hgap hfew hs.inside
    refine ⟨_, ends_pure _, hs.step hgap hindex, ?_⟩
    rw [walletIndex_walletTurn]
    omega
  obtain ⟨w, hloop, hw, hstop⟩ := hloop
  refine ⟨w, hloop, ?_, hw.total, hw.currentGap⟩
  have hgap := of_decide_eq_false hstop
  rw [hw.swAccounts, hw.scanned.found (Nat.lt_of_not_le hgap)]
  rfl

/-! ## The loop over the accounts of a key -/

/-- What a turn does with an account that is active. -/
theorem turnEnd_active {s : KeyLoop} {w : WalletLoop} {total : ℕ}
    (hnonzero : currentAddress ≠ Constants.ZERO_ADDRESS)
    (hactive : env.searchTrx currentAddress = true ∨ w.swAccounts ≠ []) :
    (turnEnd currentAddress
      (if env.searchTrx currentAddress then currentAddress else Constants.ZERO_ADDRESS) total s
      w).accounts = s.accounts ++ [⟨currentAddress, w.swAccounts⟩] := by
  by_cases hown : env.searchTrx currentAddress = true
  · simp only [turnEnd, if_pos hown, hnonzero, and_false, if_false, ne_eq, not_false_eq_true,
      true_or, if_true]
  · have hlength : 0 < w.swAccounts.length :=
      List.length_pos_of_ne_nil (hactive.resolve_left hown)
    simp only [turnEnd, if_neg hown, hlength, and_true, if_true, or_true]

theorem turnEnd_quiet {s : KeyLoop} {w : WalletLoop} {total : ℕ}
    (hown : env.searchTrx currentAddress ≠ true) (hwallets : w.swAccounts = []) :
    (turnEnd currentAddress
      (if env.searchTrx currentAddress then currentAddress else Constants.ZERO_ADDRESS) total s
      w).accounts = s.accounts := by
  simp only [turnEnd, if_neg hown, hwallets, List.length_nil, Nat.lt_irrefl, false_and, if_false,
    ne_eq, not_true_eq_false, or_false]

/-- The loop over the accounts of a key on its way. -/
structure KeyScanned (env : Environment) (config : DiscoveryConfig) (addressOf : ℕ → Text)
    (accounts : List DiscoveredAccount) (s : KeyLoop) : Prop where
  scanned : Scanned config.eoaGap (accountActive env config addressOf) s.currentGap s.index
  inside : s.index ≤ (env.active.card + 1) * (config.eoaGap + 1)
  accounts : s.accounts = accounts ++ ((List.range s.index).filter
    (accountActive env config addressOf)).map fun index => accountOf env config (addressOf index)
  counts : s.totalTrxCount = 0 ∧ s.totalSWTrxCount = 0 ↔
    (List.range s.index).filter (accountActive env config addressOf) = []

variable {accounts : List DiscoveredAccount}

theorem KeyScanned.start : KeyScanned env config addressOf accounts (keyStart accounts) where
  scanned := .start
  inside := Nat.zero_le _
  accounts := (List.append_nil _).symm
  counts := ⟨fun _ => rfl, fun _ => ⟨rfl, rfl⟩⟩

theorem accountActive_iff : accountActive env config addressOf index = true ↔
    env.searchTrx (addressOf index) = true ∨ walletsOf env config (addressOf index) ≠ [] := by
  rw [accountActive, Bool.or_eq_true, Bool.not_eq_true', List.isEmpty_eq_false_iff]

/-- A turn of the loop over the accounts. -/
theorem keyTurn_ends {s : KeyLoop} (hkey : Distinct env config addressOf)
    (h : KeyScanned env config addressOf accounts s) (hgap : s.currentGap ≤ config.eoaGap)
    (hindex : s.index < (env.active.card + 1) * (config.eoaGap + 1)) :
    ∃ t, Ends (keyTurn env config addressOf s) t ∧ KeyScanned env config addressOf accounts t ∧
      t.index = s.index + 1 := by
  obtain ⟨w, hends, hwallets, htotal, hcurrent⟩ := walletLoop_ends (few_wallets hkey hindex)
    s.totalSWTrxCount (if env.searchTrx (addressOf s.index) then 0 else s.currentGap + 1)
  refine ⟨_, hends.bind (ends_pure _), ?_, rfl⟩
  have hscan := h.scanned.step hgap
  have hcounts := h.counts
  have hnonzero := hkey.nonzero s.index hindex
  -- an active account ends the gap, and any other makes it longer
  by_cases hactive : accountActive env config addressOf s.index = true
  · rw [if_pos hactive] at hscan
    have hcases := accountActive_iff.mp hactive
    rw [← hwallets] at hcases
    refine ⟨?_, hindex, ?_, ?_⟩
    · have hzero : w.currentGap = 0 := by
        rw [hcurrent]
        rcases hcases with hown | hne
        · rw [if_pos hown, ite_self]
        · exact if_neg hne
      show Scanned _ _ w.currentGap _
      rw [hzero]
      exact hscan
    · rw [turnEnd_active hnonzero hcases, h.accounts, hwallets]
      show _ = accounts ++ ((List.range (s.index + 1)).filter _).map _
      rw [range_succ_filter, if_pos hactive, List.map_append, List.append_assoc]
      rfl
    · show (if _ then _ else _) = 0 ∧ w.totalSWTrxCount = 0 ↔
        (List.range (s.index + 1)).filter _ = []
      rw [range_succ_filter, if_pos hactive]
      refine iff_of_false ?_ (List.append_ne_nil_of_right_ne_nil _ (List.cons_ne_nil _ _))
      rintro ⟨htrx, hsw⟩
      rcases hcases with hown | hne
      · rw [if_pos hown] at htrx
        cases htrx
      · have hlength := List.length_pos_of_ne_nil hne
        omega
  · rw [if_neg hactive] at hscan
    have hown : env.searchTrx (addressOf s.index) ≠ true := fun hown =>
      hactive (accountActive_iff.mpr (.inl hown))
    have hnil : walletsOf env config (addressOf s.index) = [] := by
      by_contra hne
      exact hactive (accountActive_iff.mpr (.inr hne))
    rw [← hwallets] at hnil
    rw [hnil, if_pos rfl, if_neg hown] at hcurrent
    refine ⟨?_, hindex, ?_, ?_⟩
    · show Scanned _ _ w.currentGap _
      rw [hcurrent]
      exact hscan
    · rw [turnEnd_quiet hown hnil, h.accounts]
      show _ = accounts ++ ((List.range (s.index + 1)).filter _).map _
      rw [range_succ_filter, if_neg hactive, List.append_nil]
    · show (if _ then _ else _) = 0 ∧ w.totalSWTrxCount = 0 ↔
        (List.range (s.index + 1)).filter _ = []
      rw [range_succ_filter, if_neg hactive, List.append_nil, if_neg hown, htotal, hnil]
      exact hcounts

/-- **The loop over the accounts** finds the accounts of the key, and counts nothing if and only if
it finds nothing. -/
theorem keyLoop_ends (hkey : Distinct env config addressOf) (accounts : List DiscoveredAccount) :
    ∃ k, Ends (keyLoop env config addressOf (keyStart accounts)) k ∧
      k.accounts = accounts ++ keyAccounts env config addressOf ∧
      (k.totalTrxCount = 0 ∧ k.totalSWTrxCount = 0 ↔ keyAccounts env config addressOf = []) := by
  have hloop : ∃ k, Ends (keyLoop env config addressOf (keyStart accounts)) k ∧
      KeyScanned env config addressOf accounts k ∧
      decide (k.currentGap ≤ config.eoaGap) = false := by
    refine while_ends _ (fun s => (env.active.card + 1) * (config.eoaGap + 1) - s.index)
      (fun s hs hcond => ?_) KeyScanned.start
    have hgap := of_decide_eq_true hcond
    have hindex := hs.scanned.inside hgap (few_accounts hkey) hs.inside
    obtain ⟨t, hends, ht, hnext⟩ := keyTurn_ends hkey hs hgap hindex
    refine ⟨t, hends, ht, ?_⟩
    rw [hnext]
    omega
  obtain ⟨k, hloop, hk, hstop⟩ := hloop
  have hfound := hk.scanned.found (Nat.lt_of_not_le (of_decide_eq_false hstop))
  refine ⟨k, hloop, ?_, ?_⟩
  · rw [hk.accounts, hfound]
    rfl
  · rw [hk.counts, hfound, keyAccounts, List.map_eq_nil_iff]

/-! ## The loop over the keys -/

/-- The key is supplied and something is found in it. -/
def FoundIn (env : Environment) (config : DiscoveryConfig) (keyOf : ℕ → Option (ℕ → Text))
    (k : ℕ) : Prop :=
  ∃ addressOf, keyOf k = some addressOf ∧ keyAccounts env config addressOf ≠ []

/-- `K` is the first key that is not supplied or in which nothing is found. -/
def LastKey (env : Environment) (config : DiscoveryConfig) (keyOf : ℕ → Option (ℕ → Text))
    (K : ℕ) : Prop :=
  (∀ k < K, FoundIn env config keyOf k) ∧ ¬ FoundIn env config keyOf K

/-- What is found in the first `K` keys. -/
noncomputable def keysAccounts (env : Environment) (config : DiscoveryConfig)
    (keyOf : ℕ → Option (ℕ → Text)) (K : ℕ) : List DiscoveredAccount :=
  (List.range K).flatMap fun k => (keyOf k).elim [] (keyAccounts env config)

variable {keyOf : ℕ → Option (ℕ → Text)} {k K : ℕ}

theorem keysAccounts_succ (h : keyOf K = some addressOf) :
    keysAccounts env config keyOf (K + 1) =
      keysAccounts env config keyOf K ++ keyAccounts env config addressOf := by
  unfold keysAccounts
  rw [List.range_succ, List.flatMap_append, List.flatMap_singleton, h]
  rfl

/-- A key in which something is found has an active place. -/
theorem FoundIn.place (hkeys : AllDistinct env config keyOf) (hk : k ≤ env.active.card)
    (h : FoundIn env config keyOf k) : ∃ addressOf, keyOf k = some addressOf ∧
      ∃ p : Place, p.Visited env config ∧ p.address env config addressOf ∈ env.active := by
  obtain ⟨addressOf, hsome, hne⟩ := h
  have hkey := hkeys.each k hk addressOf hsome
  obtain ⟨account, haccount⟩ := List.exists_mem_of_ne_nil _ hne
  obtain ⟨index, hindex, -⟩ := List.mem_map.mp haccount
  obtain ⟨p, -, hvisited, hmem⟩ := exists_place hkey
    (lt_of_mem_reachable (few_accounts hkey) hindex) (active_of_mem hindex)
  exact ⟨addressOf, hsome, p, hvisited, hmem⟩

/-- There are no more such keys than active addresses. -/
theorem found_le (hkeys : AllDistinct env config keyOf)
    (h : ∀ k < K, FoundIn env config keyOf k) : K ≤ env.active.card := by
  by_contra hK
  have hplaces : ∀ k, k < env.active.card + 1 → ∃ t ∈ env.active, ∃ addressOf,
      keyOf k = some addressOf ∧ ∃ p : Place, p.Visited env config ∧
        p.address env config addressOf = t := by
    intro k hk
    obtain ⟨addressOf, hsome, p, hvisited, hmem⟩ :=
      (h k (by omega)).place hkeys (Nat.le_of_lt_succ hk)
    exact ⟨_, hmem, addressOf, hsome, p, hvisited, rfl⟩
  choose! t hmem ha using hplaces
  have hcard : (Finset.range (env.active.card + 1)).card ≤ env.active.card := by
    refine Finset.card_le_card_of_injOn t (fun k hk => hmem k (List.mem_range.mp hk))
      fun k hk l hl heq => ?_
    have hk' : k < env.active.card + 1 := List.mem_range.mp hk
    have hl' : l < env.active.card + 1 := List.mem_range.mp hl
    obtain ⟨addressOf, hsome, p, hp, hpk⟩ := ha k hk'
    obtain ⟨addressOf', hsome', q, hq, hql⟩ := ha l hl'
    exact hkeys.apart k (by omega) l (by omega) addressOf addressOf' hsome hsome' p q hp hq
      (hpk.trans (heq.trans hql.symm))
  rw [Finset.card_range] at hcard
  omega

/-- The loop over the keys on its way. -/
structure KeysScanned (env : Environment) (config : DiscoveryConfig)
    (keyOf : ℕ → Option (ℕ → Text)) (accounts : List DiscoveredAccount) (s : Discovery) : Prop where
  found : ∀ k < s.currentAccount, FoundIn env config keyOf k
  accounts : s.accounts = accounts ++ keysAccounts env config keyOf s.currentAccount
  ended : s.ended = true → ¬ FoundIn env config keyOf s.currentAccount

theorem KeysScanned.start : KeysScanned env config keyOf accounts ⟨accounts, false, 0⟩ where
  found k hk := (Nat.not_lt_zero k hk).elim
  accounts := (List.append_nil _).symm
  ended h := by cases h

/-- A turn ends the loop, or it goes on to the next key. -/
theorem discoverTurn_ends {s : Discovery} (hkeys : AllDistinct env config keyOf)
    (h : KeysScanned env config keyOf accounts s) :
    ∃ t, Ends (fun fuel =>
        match keyOf s.currentAccount with
        | none => some { s with ended := true }
        | some addressOf =>
            (keyLoop env config addressOf (keyStart s.accounts) fuel).bind fun k =>
              some (discoveryEnd s k)) t ∧ KeysScanned env config keyOf accounts t ∧
      (t.ended = true ∧ t.currentAccount = s.currentAccount ∨
        t.ended = false ∧ t.currentAccount = s.currentAccount + 1) := by
  cases hkey : keyOf s.currentAccount with
  | none =>
      refine ⟨{ s with ended := true }, ends_pure _, ⟨h.found, h.accounts, fun _ => ?_⟩,
        .inl ⟨rfl, rfl⟩⟩
      rintro ⟨addressOf, hsome, -⟩
      rw [hkey] at hsome
      cases hsome
  | some addressOf =>
      have hcurrent := found_le hkeys h.found
      obtain ⟨k, hends, haccounts, hcounts⟩ :=
        keyLoop_ends (hkeys.each s.currentAccount hcurrent addressOf hkey) s.accounts
      refine ⟨discoveryEnd s k, hends.bind (ends_pure _), ?_⟩
      by_cases hnil : keyAccounts env config addressOf = []
      · have hend : discoveryEnd s k = ⟨k.accounts, true, s.currentAccount⟩ :=
          if_pos (hcounts.mpr hnil)
        rw [hend]
        refine ⟨⟨h.found, ?_, fun _ => ?_⟩, .inl ⟨rfl, rfl⟩⟩
        · show k.accounts = _
          rw [haccounts, hnil, List.append_nil, h.accounts]
        · rintro ⟨addressOf', hsome, hne⟩
          obtain rfl : addressOf = addressOf' := Option.some.inj (hkey.symm.trans hsome)
          exact hne hnil
      · have hend : discoveryEnd s k = ⟨k.accounts, false, s.currentAccount + 1⟩ :=
          if_neg fun hzero => hnil (hcounts.mp hzero)
        rw [hend]
        refine ⟨⟨fun l hl => ?_, ?_, fun hfalse => by cases hfalse⟩, .inr ⟨rfl, rfl⟩⟩
        · by_cases hlast : l < s.currentAccount
          · exact h.found l hlast
          · obtain rfl : l = s.currentAccount := Nat.le_antisymm (Nat.le_of_lt_succ hl)
              (Nat.le_of_not_lt hlast)
            exact ⟨addressOf, hkey, hnil⟩
        · show k.accounts = _
          rw [haccounts, h.accounts, keysAccounts_succ hkey, List.append_assoc]

/-- **The loop over the keys** stops at the first one that is not supplied or has nothing in it. -/
theorem discoverKeys_ends (hkeys : AllDistinct env config keyOf)
    (accounts : List DiscoveredAccount) :
    ∃ K s, LastKey env config keyOf K ∧
      Ends (discoverKeys env config keyOf ⟨accounts, false, 0⟩) s ∧
      s.accounts = accounts ++ keysAccounts env config keyOf K := by
  have hloop : ∃ s, Ends (discoverKeys env config keyOf ⟨accounts, false, 0⟩) s ∧
      KeysScanned env config keyOf accounts s ∧ (!s.ended) = false := by
    refine while_ends _
      (fun s => (env.active.card + 1 - s.currentAccount) + if s.ended then 0 else 1)
      (fun s hs hcond => ?_) KeysScanned.start
    have hcurrent := found_le hkeys hs.found
    have hgoing : s.ended = false := by rwa [Bool.not_eq_true'] at hcond
    obtain ⟨t, hends, ht, hnext⟩ := discoverTurn_ends hkeys hs
    refine ⟨t, hends, ht, ?_⟩
    have hbound := found_le hkeys ht.found
    show env.active.card + 1 - t.currentAccount + (if t.ended then 0 else 1) <
      env.active.card + 1 - s.currentAccount + if s.ended then 0 else 1
    rw [hgoing]
    rcases hnext with ⟨hended, hsame⟩ | ⟨hended, hsame⟩
    · rw [hended, hsame]
      exact Nat.lt_succ_self _
    · rw [hended, hsame, if_neg Bool.false_ne_true]
      omega
  obtain ⟨s, hends, hs, hstop⟩ := hloop
  rw [Bool.not_eq_false'] at hstop
  exact ⟨s.currentAccount, s, ⟨hs.found, hs.ended hstop⟩, hends, hs.accounts⟩

/-! ## The three functions -/

theorem discoverAccountsFromExtendedPublicKeys_ends {keys : List Text}
    (hkeys : ∀ extPubKey ∈ keys, Distinct env config (extendedKeyAddress env extPubKey))
    (accounts : List DiscoveredAccount) :
    Ends (discoverAccountsFromExtendedPublicKeys env config accounts keys) (accounts ++
      keys.flatMap fun extPubKey => keyAccounts env config (extendedKeyAddress env extPubKey)) := by
  induction keys generalizing accounts with
  | nil =>
      rw [List.flatMap_nil, List.append_nil]
      exact ends_pure accounts
  | cons extPubKey rest ih =>
      obtain ⟨k, hends, haccounts, -⟩ := keyLoop_ends (hkeys extPubKey List.mem_cons_self) accounts
      have hrest := ih (fun key hkey => hkeys key (List.mem_cons_of_mem _ hkey)) k.accounts
      rw [List.flatMap_cons, ← List.append_assoc, ← haccounts]
      exact hends.bind hrest

/-- What is found in the keys that a reader supplies. -/
theorem keysAccounts_readKey (accountReader : Option (ℕ → Option Text)) (K : ℕ) :
    keysAccounts env config (readKey env accountReader) K =
      ((List.range K).filterMap (accountReader.getD getAccountExtendedPublicKey)).flatMap
        fun extPubKey => keyAccounts env config (extendedKeyAddress env extPubKey) := by
  unfold keysAccounts
  induction List.range K with
  | nil => rfl
  | cons k rest ih =>
      rw [List.flatMap_cons, ih, List.filterMap_cons, readKey]
      cases accountReader.getD getAccountExtendedPublicKey k with
      | none => rfl
      | some extPubKey => rfl

/-- **Wallet discovery** finds what the gap rule promises: each function ends, and adds to the
accounts, for every key it visits, the accounts of the key. -/
theorem discovery_finds (env : Environment) (config : DiscoveryConfig)
    (accounts : List DiscoveredAccount) :
    (∀ mnemonic password hdRootKey,
      getRootExtKeyFromMnemonic env mnemonic password config.mnemonicLanguage = .ok hdRootKey →
      AllDistinct env config (fun k => some (mnemonicAddress env config hdRootKey k)) →
      ∃ K, LastKey env config (fun k => some (mnemonicAddress env config hdRootKey k)) K ∧
        Ends (discoverAccountsFromMnemonic env config accounts mnemonic password)
          (.ok (accounts ++ (List.range K).flatMap fun k =>
            keyAccounts env config (mnemonicAddress env config hdRootKey k)))) ∧
    (∀ extendedPublicKeys,
      (∀ extPubKey ∈ extendedPublicKeys,
        Distinct env config (extendedKeyAddress env extPubKey)) →
      Ends (discoverAccountsFromExtendedPublicKeys env config accounts extendedPublicKeys)
        (accounts ++ extendedPublicKeys.flatMap fun extPubKey =>
          keyAccounts env config (extendedKeyAddress env extPubKey))) ∧
    ∀ accountReader : Option (ℕ → Option Text),
      AllDistinct env config (readKey env accountReader) →
      ∃ K, LastKey env config (readKey env accountReader) K ∧
        Ends (discoverAccounts env config accounts accountReader)
          (accounts ++ ((List.range K).filterMap
            (accountReader.getD getAccountExtendedPublicKey)).flatMap fun extPubKey =>
              keyAccounts env config (extendedKeyAddress env extPubKey)) := by
  refine ⟨fun mnemonic password hdRootKey hroot hkeys => ?_, fun keys hkeys => ?_,
    fun accountReader hkeys => ?_⟩
  · obtain ⟨K, s, hlast, hends, haccounts⟩ := discoverKeys_ends hkeys accounts
    refine ⟨K, hlast, ?_⟩
    have hfunction : discoverAccountsFromMnemonic env config accounts mnemonic password =
        fun fuel => (discoverKeys env config
          (fun k => some (mnemonicAddress env config hdRootKey k)) ⟨accounts, false, 0⟩ fuel).bind
            fun s => some (.ok s.accounts) := by
      funext fuel
      rw [discoverAccountsFromMnemonic, hroot]
    have hresult : s.accounts = accounts ++ (List.range K).flatMap fun k =>
        keyAccounts env config (mnemonicAddress env config hdRootKey k) := haccounts
    rw [hfunction, ← hresult]
    exact hends.bind (ends_pure _)
  · exact discoverAccountsFromExtendedPublicKeys_ends hkeys accounts
  · obtain ⟨K, s, hlast, hends, haccounts⟩ := discoverKeys_ends hkeys accounts
    refine ⟨K, hlast, ?_⟩
    rw [← keysAccounts_readKey, ← haccounts]
    exact hends.bind (ends_pure _)

/-! ## A search with two keys -/

/-- A key of a small tree: of the root, of an account, or of an address. -/
inductive TreeKey
  | root
  | account (account : ℕ)
  | address (account index : ℕ)
deriving DecidableEq

def treePaths : List (Text × TreeKey) :=
  [("m/44'/137'/0'/0/0".toList, .address 0 0),
    ("m/44'/137'/0'/0/1".toList, .address 0 1),
    ("m/44'/137'/1'/0/0".toList, .address 1 0),
    ("m/44'/137'/1'/0/1".toList, .address 1 1)]

def treeAccounts : List ((ℕ × ℕ) × Address) :=
  [((0, 0), 0x018f141adb1f6410d393c51de743f17436eed231),
    ((0, 1), 0x10340c72db9828ef218cc1ff18dd080f2a75cb15),
    ((1, 0), 0x0de4e70378d0d67a9977c419e7e275bc31b5c1c6),
    ((1, 1), 0x6e300e0b9a3c99065355b0d3248c57cd730e71cd)]

def treeExtendedKeys : List Text :=
  ["xpub6EGiHgUnuGnzzVGucP1psTHr3yxe92iKB7HAKwQCjPdppUDAnrZgRjc4".toList ++
      "GU9pT2sYi15NRMRmo5fY6mnD93eDgJkY6Ri76c5oDEthWuksZoR".toList,
    "xpub6FFpmNjumSuZfLKLHvtpH4Ltv1cLE1kgg13CybzTRp8niaEHs3fJUVJe".toList ++
      "K9YDnsQdVRisp2QriTAwCdAhNzzjyA2476LQ6dTLrb8K3dKP7VW".toList]

def treeMnemonic : Text :=
  "test test test test test test test test test test test junk".toList

def treeText (account index : ℕ) : Text :=
  Hex.text (addressBytes ((treeAccounts.lookup (account, index)).getD 0))

abbrev treeKeys : KeyLibrary where
  HDKey := TreeKey
  Seed := Text
  wordlist _ := ["junk".toList, "test".toList]
  validateMnemonic mnemonic _ := mnemonic == treeMnemonic
  mnemonicToSeedSync mnemonic _ := mnemonic
  fromMasterSeed _ := .root
  fromExtendedKey extPubKey := .account (treeExtendedKeys.idxOf extPubKey)
  derivePath _ path := (treePaths.lookup path).getD .root
  deriveChild key index :=
    match key with
    | .account account => .address account index
    | _ => .root
  getAddressString key :=
    match key with
    | .address account index => treeText account index
    | _ => []

def treeCode : Word := 0xf8b07b083341d3a7667e38718918d301f47d62f82d8186f4ccd7ed7424a64ef3

/-- A wallet with the hashes of its salt, of its `create2` string and of the text of its address. -/
structure TreeWallet where
  account : Address
  walletIndex : Word
  salt : Word
  hash : Word
  checksum : Word

def treeWallets : List TreeWallet :=
  [⟨0x018f141adb1f6410d393c51de743f17436eed231, 0,
      0x522cb3f989e505a4d557331e41103506184606cce933f0d59201972c01829274,
      0xc8ee7f865c3121fef5992a4ea8f1f2b854c0801419d2a561222c35f2b58be246,
      0x765260019f5399f2b3d334711f99b54177168480a8e05c64dfd180bedc55a7c7⟩,
    ⟨0x018f141adb1f6410d393c51de743f17436eed231, 1,
      0x513fc4d1e9b9c1131a2b8474b298c9c6e40679473b12f3bdf3f93f4bd3c92a48,
      0x43517b1864ec33a8e625ece468a737823dea847aec4cb64528033bb33df7e31d,
      0x7118c2a86717c0b9fe5a4b56b26bbfdf9a765b4a7d31af402af8680740293e06⟩,
    ⟨0x10340c72db9828ef218cc1ff18dd080f2a75cb15, 0,
      0x71f3879bae65c61319ab16788cfd026b9769ad9f6bc239cb8b093998d591c52d,
      0x6ea2d34a21ba540d87a029bf696c5c57598a8f93edfd353eaa05a6bc96e3609f,
      0xb0d816799a147c663136a28c1e2eb766d15588728d576e5898bb78e5402a205c⟩,
    ⟨0x10340c72db9828ef218cc1ff18dd080f2a75cb15, 1,
      0x9e680881b69c104706fb70e6c024c4b39745beb3e73fbd3adb0e36e0a71e6742,
      0x905e31d11b1c72bf3444dedbc19a0087cfe700d952f2301edc2a4365c44bd5d1,
      0x6a129d4f518e691bc1c526c3798d1dabc39b82f75466c3cebbb66ce9b542ba84⟩,
    ⟨0x0de4e70378d0d67a9977c419e7e275bc31b5c1c6, 0,
      0x4f09ccdcb7ea837d7f003482b7cb376479d518072428fcdfc5fbd6aa9704dcf5,
      0x2d31c1aac5201acc09e11cfa32f63811e30aa21cc6dce4a73cb9ff28345f8a2b,
      0xfb78b5187880f8ff59b09c957c6187a5df360ba823d410a552b5b5a325e4716c⟩,
    ⟨0x0de4e70378d0d67a9977c419e7e275bc31b5c1c6, 1,
      0x485adc9d4e0e8a94889b3c4c582ad274bbff5c3689c218260931a5b97a7a1d5e,
      0x769264db28fcd85fd94c01b0eb6be6afa3f0c744ed8afd5f84edf0567a83ca72,
      0xe870633a9375216192aa129c70ebde3cd367e5a62b90406c177955e527a56204⟩,
    ⟨0x6e300e0b9a3c99065355b0d3248c57cd730e71cd, 0,
      0xc8aa479a4f57b2d0468daeea88ba95baa6d6cd5f8372c537eecfaceea7c18fc2,
      0x06651aef329a4cf7806ef37078cb9917d97725d8cc621ddaf7cb36c77e426597,
      0x572c5a441ea72a752eb386ca6ce00d3297a5878155a8056a57e82deee3e35684⟩,
    ⟨0x6e300e0b9a3c99065355b0d3248c57cd730e71cd, 1,
      0x2d16a7165a0b4d46d6975b204719bfe9de0ff88910779453adaef59b0e0c6143,
      0x38eaf8c299557cb1501fad313117e6df2348093d52c704df029a5552bbf64ea2,
      0x90e5ed703ce6bdf36199a5e8499cb57033e07035e9bc76661bcfd7afecb1afbe⟩]

def treeSalt (a : Address) (walletIndex : Word) : Bytes :=
  addressBytes a ++ (addressBytes 0 ++ wordBytes walletIndex)

def treeString (salt : Word) : Bytes :=
  0xff :: (addressBytes 0xfa ++ (wordBytes salt ++ wordBytes treeCode))

/-- The hashes of the strings of which a wallet needs them. -/
def treeKeccak (b : Bytes) : Word :=
  let salts := treeWallets.map fun w => (treeSalt w.account w.walletIndex, w.salt)
  let strings := treeWallets.map fun w => (treeString w.salt, w.hash)
  let texts := treeWallets.map fun w =>
    (textBytes (String.ofList (Hex.write (addressBytes (wordAddress w.hash)))), w.checksum)
  ((salts ++ (strings ++ texts)).lookup b).getD 0

/-- The wallet of the first account of the first key is active, and nothing else. -/
def treeEnv : Environment where
  keys := treeKeys
  web3 := Web3Utils.ofKeccak treeKeccak
  keccak256 _ := Hex.text (wordBytes treeCode)
  getCreationBytecode _ := "0x6001600155".toList
  getChainId := 30
  active := {"0xa8f1f2b854c0801419D2a561222C35f2b58bE246".toList}

def treeConfig : DiscoveryConfig := .new
  { eoaGap := some 0, sWalletGap := some 0, factory := Hex.text (addressBytes 0xfa),
    isCustomWallet := false }

def treePlaces : List Place :=
  [.eoa 0, .eoa 1, .wallet 0 0, .wallet 0 1, .wallet 1 0, .wallet 1 1]

theorem mem_treePlaces {p : Place} (h : p.Visited treeEnv treeConfig) : p ∈ treePlaces := by
  cases p with
  | eoa index =>
      have hlt : index < 2 := h
      interval_cases index <;> decide
  | wallet index walletIndex =>
      have hlt : index < 2 := h.1
      have hlt' : walletIndex < 2 := h.2
      interval_cases index <;> interval_cases walletIndex <;> decide

/-- The address at a place. -/
def treeValue (k : ℕ) : Place → Address
  | .eoa index => (treeAccounts.lookup (k, index)).getD 0
  | .wallet index walletIndex => wordAddress (treeKeccak (treeString (treeKeccak
      (treeSalt ((treeAccounts.lookup (k, index)).getD 0) (BitVec.ofNat 256 walletIndex)))))

theorem treeValue_apart : ∀ k ∈ [0, 1], ∀ l ∈ [0, 1], ∀ p ∈ treePlaces, ∀ q ∈ treePlaces,
    treeValue k p = treeValue l q → k = l ∧ p = q := by
  decide +kernel

theorem treeValue_nonzero : ∀ k ∈ [0, 1], ∀ index ∈ [0, 1], treeValue k (.eoa index) ≠ 0 := by
  decide +kernel

theorem tree_names : ∀ k ∈ [0, 1], ∀ index ∈ [0, 1],
    treeEnv.web3.isAddress (treeText k index) = true := by
  decide +kernel

/-- The keys are those of the tree. -/
def OfTree (addressOf : ℕ → ℕ → Text) : Prop :=
  ∀ k ∈ [0, 1], ∀ index ∈ [0, 1], addressOf k index = treeText k index

instance (addressOf : ℕ → ℕ → Text) : Decidable (OfTree addressOf) :=
  inferInstanceAs (Decidable (∀ _ ∈ _, _))

variable {ofTree : ℕ → ℕ → Text} {l : ℕ} {p q : Place}

theorem address_treeText (k index : ℕ) :
    Hex.address (treeText k index) = some (treeValue k (.eoa index)) :=
  Hex.address_text _

theorem tree_documented : treeEnv.web3.Documented treeKeccak :=
  Web3Utils.ofKeccak_documented treeKeccak

theorem tree_recoverer : treeEnv.web3.Names Constants.ZERO_ADDRESS 0 :=
  ⟨by decide +kernel, by decide +kernel⟩

theorem tree_factory : treeEnv.web3.Names (Hex.text (addressBytes 0xfa)) 0xfa :=
  ⟨by decide +kernel, Hex.address_text 0xfa⟩

theorem currentSWAddress_tree (t : Text) (walletIndex : ℕ) :
    currentSWAddress treeEnv treeConfig t walletIndex = calculateAddress treeEnv.web3
      [.address t, .address Constants.ZERO_ADDRESS, .uint256 walletIndex]
      (Hex.text (addressBytes 0xfa)) (Hex.text (wordBytes treeCode)) 30 := by
  have hplain : ¬ treeConfig.isCustomWallet = true := Bool.false_ne_true
  rw [currentSWAddress, if_neg hplain, calculateSmartWalletAddress]
  rfl

theorem address_treeWallet (hk : k ∈ [0, 1]) (hindex : index ∈ [0, 1]) (w : Word) :
    Hex.address (currentSWAddress treeEnv treeConfig (treeText k index) w.toNat) =
      some (treeValue k (.wallet index w.toNat)) := by
  have howner : treeEnv.web3.Names (treeText k index) (treeValue k (.eoa index)) :=
    ⟨tree_names k hk index hindex, address_treeText k index⟩
  have hlast : packAll treeEnv.web3.isAddress [.uint256 w.toNat] = some (wordBytes w ++ []) :=
    packAll_cons (pack_uint256 w) rfl
  have hsalt := packAll_cons (pack_address howner)
    (packAll_cons (pack_address tree_recoverer) hlast)
  have hne : addressBytes (treeValue k (.eoa index)) ++ (addressBytes 0 ++ (wordBytes w ++ [])) ≠
      [] := by
    intro hnil
    have hlength := congrArg List.length hnil
    rw [List.length_append, length_addressBytes, List.length_nil] at hlength
    omega
  have haddress := calculateAddress_eq tree_documented hsalt hne tree_factory
    (Hex.word_text treeCode) 30
  rw [List.append_nil] at haddress
  have hvalue : treeValue k (.wallet index w.toNat) = wordAddress (treeKeccak (treeString
      (treeKeccak (treeSalt (treeValue k (.eoa index)) w)))) := by
    show wordAddress (treeKeccak (treeString (treeKeccak
      (treeSalt (treeValue k (.eoa index)) (BitVec.ofNat 256 w.toNat))))) = _
    rw [BitVec.ofNat_toNat, BitVec.setWidth_eq]
  rw [currentSWAddress_tree, haddress, hvalue, treeString, treeSalt]

theorem OfTree.value (h : OfTree ofTree) (hk : k ∈ [0, 1]) (hp : p ∈ treePlaces) :
    Hex.address (p.address treeEnv treeConfig (ofTree k)) = some (treeValue k p) := by
  have hzero : 0 ∈ [0, 1] := List.mem_cons_self
  have hone : 1 ∈ [0, 1] := List.mem_cons_of_mem _ List.mem_cons_self
  have heoa : ∀ index ∈ [0, 1], Hex.address ((Place.eoa index).address treeEnv treeConfig
      (ofTree k)) = some (treeValue k (.eoa index)) := by
    intro index hindex
    rw [Place.address, h k hk index hindex]
    exact address_treeText k index
  have hwallet : ∀ index ∈ [0, 1], ∀ w : Word, Hex.address ((Place.wallet index w.toNat).address
      treeEnv treeConfig (ofTree k)) = some (treeValue k (.wallet index w.toNat)) := by
    intro index hindex w
    rw [Place.address, h k hk index hindex]
    exact address_treeWallet hk hindex w
  simp only [treePlaces, List.mem_cons, List.not_mem_nil, or_false] at hp
  rcases hp with rfl | rfl | rfl | rfl | rfl | rfl
  · exact heoa 0 hzero
  · exact heoa 1 hone
  · exact hwallet 0 hzero 0
  · exact hwallet 0 hzero 1
  · exact hwallet 1 hone 0
  · exact hwallet 1 hone 1

theorem OfTree.apart (h : OfTree ofTree) (hk : k ∈ [0, 1]) (hl : l ∈ [0, 1])
    (hp : p.Visited treeEnv treeConfig) (hq : q.Visited treeEnv treeConfig)
    (heq : p.address treeEnv treeConfig (ofTree k) = q.address treeEnv treeConfig (ofTree l)) :
    k = l ∧ p = q := by
  have hp' := mem_treePlaces hp
  have hq' := mem_treePlaces hq
  have hvalue := h.value hk hp'
  rw [heq, h.value hl hq'] at hvalue
  exact treeValue_apart k hk l hl p hp' q hq' (Option.some.inj hvalue).symm

theorem OfTree.distinct (h : OfTree ofTree) (hk : k ∈ [0, 1]) :
    Distinct treeEnv treeConfig (ofTree k) where
  apart p q hp hq heq := (h.apart hk hk hp hq heq).2
  nonzero index hindex hzero := by
    have hmem : index ∈ [0, 1] := by
      have hlt : index < 2 := hindex
      interval_cases index <;> decide
    have hvalue := address_treeText k index
    rw [← h k hk index hmem, hzero] at hvalue
    have hread : Hex.address Constants.ZERO_ADDRESS = some 0 := by decide +kernel
    exact treeValue_nonzero k hk index hmem (Option.some.inj (hvalue.symm.trans hread))

theorem OfTree.allDistinct (h : OfTree ofTree) {keyOf : ℕ → Option (ℕ → Text)}
    (hkeys : ∀ k ∈ [0, 1], keyOf k = some (ofTree k)) : AllDistinct treeEnv treeConfig keyOf := by
  have hmem : ∀ k ≤ treeEnv.active.card, k ∈ [0, 1] := by
    intro k hk
    have hlt : k < 2 := Nat.lt_succ_of_le hk
    interval_cases k <;> decide
  constructor
  · intro k hk address hsome
    rw [hkeys k (hmem k hk)] at hsome
    obtain rfl := Option.some.inj hsome
    exact h.distinct (hmem k hk)
  · intro k hk l hl address address' hsome hsome' p q hp hq heq
    rw [hkeys k (hmem k hk)] at hsome
    rw [hkeys l (hmem l hl)] at hsome'
    obtain rfl := Option.some.inj hsome
    obtain rfl := Option.some.inj hsome'
    exact (h.apart (hmem k hk) (hmem l hl) hp hq heq).1

theorem ofTree_mnemonic : OfTree (mnemonicAddress treeEnv treeConfig TreeKey.root) := by
  decide +kernel

theorem treeExtendedKeys_nodup : treeExtendedKeys.Nodup := by decide +kernel

theorem ofTree_extended :
    OfTree fun k => extendedKeyAddress treeEnv ((treeExtendedKeys[k]?).getD []) := by
  intro k hk index _
  have hlt : k < treeExtendedKeys.length := by
    rw [List.mem_cons, List.mem_singleton] at hk
    show k < 2
    omega
  have hkey : treeExtendedKeys.idxOf ((treeExtendedKeys[k]?).getD []) = k := by
    rw [List.getElem?_eq_getElem hlt]
    exact treeExtendedKeys_nodup.idxOf_getElem k hlt
  show treeText (treeExtendedKeys.idxOf ((treeExtendedKeys[k]?).getD [])) index = treeText k index
  rw [hkey]

/-- From one mnemonic and from its extended keys. -/
theorem discovery_finds_tree :
    (∃ K, LastKey treeEnv treeConfig
        (fun k => some (mnemonicAddress treeEnv treeConfig TreeKey.root k)) K ∧
      Ends (discoverAccountsFromMnemonic treeEnv treeConfig [] treeMnemonic none)
        (.ok ([] ++ (List.range K).flatMap fun k =>
          keyAccounts treeEnv treeConfig (mnemonicAddress treeEnv treeConfig TreeKey.root k)))) ∧
    Ends (discoverAccountsFromExtendedPublicKeys treeEnv treeConfig [] treeExtendedKeys)
      ([] ++ treeExtendedKeys.flatMap fun extPubKey =>
        keyAccounts treeEnv treeConfig (extendedKeyAddress treeEnv extPubKey)) ∧
    ∃ K, LastKey treeEnv treeConfig (readKey treeEnv (some fun k => treeExtendedKeys[k]?)) K ∧
      Ends (discoverAccounts treeEnv treeConfig [] (some fun k => treeExtendedKeys[k]?))
        ([] ++ ((List.range K).filterMap fun k => treeExtendedKeys[k]?).flatMap fun extPubKey =>
          keyAccounts treeEnv treeConfig (extendedKeyAddress treeEnv extPubKey)) := by
  obtain ⟨hmnemonic, hextended, hreader⟩ := discovery_finds treeEnv treeConfig []
  refine ⟨hmnemonic treeMnemonic none TreeKey.root rfl ?_, hextended treeExtendedKeys ?_,
    hreader (some fun k => treeExtendedKeys[k]?) ?_⟩
  · exact ofTree_mnemonic.allDistinct fun k _ => rfl
  · intro extPubKey hmem
    obtain ⟨k, hk, rfl⟩ := List.getElem_of_mem hmem
    have hmem : k ∈ [0, 1] := by
      have hlt : k < 2 := hk
      interval_cases k <;> decide
    have hkey := ofTree_extended.distinct hmem
    rwa [List.getElem?_eq_getElem hk] at hkey
  · refine ofTree_extended.allDistinct fun k hk => ?_
    have hlt : k < treeExtendedKeys.length := by
      rw [List.mem_cons, List.mem_singleton] at hk
      show k < 2
      omega
    show (treeExtendedKeys[k]?).map _ = _
    rw [List.getElem?_eq_getElem hlt]
    rfl

end SmartWalletDiscovery

end RifRelay
