import RifRelay.Client.PingRaces

set_option autoImplicit false

/-! # The next relay

`RelaySelectionManager.selectNextRelay` races the remaining relays in slices until one answers.
Who wins or fails is removed from the remaining relays. With preferred relays only, the slices
are taken by an index that goes forward by the size of each slice that has failed, although this
slice was removed; so the slice after it is passed over, and the call may return nothing while
relays remain that were never pinged (`passed_over`). `selection_exhaustive` says what holds of
every sequence of calls, and when nothing is passed over.
-/

namespace RifRelay

open KnownRelaysManager

namespace RelaySelectionManager

/-! ## The code -/

structure RelayInfo where
  pingResponse : PingResponse
  relayInfo : RelayRegisteredEventInfo
deriving DecidableEq

/-- The part of the configuration that selection reads, with `onlyPreferredRelays` of the
transaction. -/
structure Config where
  sliceSize : Nat
  onlyPreferredRelays : Bool
  pingFilter : PingFilter

/-- The state of a `RelaySelectionManager`. -/
structure Manager where
  remainingRelays : List (List RelayInfoUrl)
  isInitialized : Bool
  errors : Errors
deriving DecidableEq

/-- What the outside answers while one slice is raced: how the pings settle before the result is
handled, and the registrations of a manager. -/
structure Pings where
  settlements : List Settlement
  registered : Address → Except String (List RelayRegisteredEventInfo)

abbrev Result : Type := Except String (Option RelayInfo)

/-- After `init`. -/
def init (preferredRelayers sortedRelays : List RelayInfoUrl) : Manager :=
  ⟨[preferredRelayers, sortedRelays], true, []⟩

def notInitialized : String := "init() not called"

def getPreferredRelaysNextSlice (cfg : Config) (index : Nat) (m : Manager) :
    Except String (List RelayInfoUrl) :=
  if m.isInitialized = false then .error notInitialized
  else
    match m.remainingRelays with
    | [] => .ok []
    | preferred :: _ =>
        if index + 1 ≤ preferred.length then
          let relays := preferred.drop index
          let bulkSize := min cfg.sliceSize relays.length
          .ok (relays.take bulkSize)
        else .ok []

/-- The first slice that is not empty. -/
def firstSlice (sliceSize : Nat) : List (List RelayInfoUrl) → List RelayInfoUrl
  | [] => []
  | relays :: rest =>
      let bulkSize := min sliceSize relays.length
      let slice := relays.take bulkSize
      if slice.length = 0 then firstSlice sliceSize rest else slice

def getNextSlice (cfg : Config) (m : Manager) : Except String (List RelayInfoUrl) :=
  if m.isInitialized = false then .error notInitialized
  else .ok (firstSlice cfg.sliceSize m.remainingRelays)

def handleRaceResults (m : Manager) (raceResult : RaceResult) : Manager :=
  { m with
    errors := raceResult.errors.foldl (fun errors entry => errors.set entry.1 entry.2) m.errors
    remainingRelays := m.remainingRelays.map fun relays =>
      (relays.filter fun eventInfo =>
        some eventInfo.relayUrl ≠ raceResult.winner.map (·.relayInfo.relayUrl)).filter
          fun eventInfo => eventInfo.relayUrl ∉ raceResult.errors.map Prod.fst }

/-- The relay that has won, with its registration. -/
def winnerInfo (pings : Pings) (winner : PartialRelayInfo) : Result :=
  match winner.relayInfo.relayManager with
  | some relayManager =>
      .ok (some ⟨winner.pingResponse, ⟨relayManager, winner.relayInfo.relayUrl⟩⟩)
  | none =>
      match pings.registered winner.pingResponse.relayManagerAddress with
      | .error e => .error e
      | .ok [relayInfo] =>
          .ok (some
            ⟨winner.pingResponse, { relayInfo with relayUrl := winner.relayInfo.relayUrl }⟩)
      | .ok _ => .error "Could not find register event for the winning preferred relay"

/-- None while the race is going on. Every ping settles at most once. -/
def nextRelayInternal (cfg : Config) (relays : List RelayInfoUrl) (pings : Pings) (m : Manager) :
    Option (Result × Manager) :=
  if (pings.settlements.map Prod.fst).Subperm relays then
    (raceToSuccess cfg.pingFilter relays pings.settlements).map fun raceResult =>
      match raceResult.winner with
      | none => (.ok none, handleRaceResults m raceResult)
      | some winner => (winnerInfo pings winner, handleRaceResults m raceResult)
  else none

/-- The loop, for the pings of the successive slices. -/
def selectLoop (cfg : Config) (getSlice : Nat → Manager → Except String (List RelayInfoUrl)) :
    List Pings → Nat → Manager → Option (Result × Manager)
  | [], index, m =>
      match getSlice index m with
      | .error e => some (.error e, m)
      | .ok slice => if slice.length = 0 then some (.ok none, m) else none
  | pings :: rest, index, m =>
      match getSlice index m with
      | .error _ => none
      | .ok slice =>
          if slice.length = 0 then none
          else
            match nextRelayInternal cfg slice pings m with
            | none => none
            | some (.ok none, m') => selectLoop cfg getSlice rest (index + slice.length) m'
            | some (result, m') => if rest.isEmpty then some (result, m') else none

/-- What a call returns, if these are the pings that it makes. -/
def selectNextRelay (cfg : Config) (pings : List Pings) (m : Manager) :
    Option (Result × Manager) :=
  if cfg.onlyPreferredRelays = true then
    selectLoop cfg (getPreferredRelaysNextSlice cfg) pings 0 m
  else selectLoop cfg (fun _ => getNextSlice cfg) pings 0 m

/-! ## Sequences of calls -/

structure Call where
  before : Manager
  pings : List Pings
  result : Result

/-- The pings that settled during the call. -/
def Call.settlements (call : Call) : List Settlement := call.pings.flatMap Pings.settlements

/-- The URL of the relay that the call returned. -/
def Call.returned (call : Call) : Option String :=
  match call.result with
  | .ok (some relay) => some relay.relayInfo.relayUrl
  | _ => none

/-- Successive calls. -/
inductive Calls (cfg : Config) (m₀ : Manager) : List Call → Manager → Prop
  | start : Calls cfg m₀ [] m₀
  | call {calls : List Call} {m m' : Manager} (h : Calls cfg m₀ calls m) (pings : List Pings)
      (result : Result) (hcall : selectNextRelay cfg pings m = some (result, m')) :
      Calls cfg m₀ (calls ++ [⟨m, pings, result⟩]) m'

/-- The relays that may be used. -/
def eligible (cfg : Config) (preferred registered : List RelayInfoUrl) : List RelayInfoUrl :=
  if cfg.onlyPreferredRelays = true then preferred else preferred ++ registered

/-- The relay was returned by one of the calls, or a ping of it has failed. -/
def Spent (cfg : Config) (calls : List Call) (url : String) : Prop :=
  ∃ call ∈ calls, call.returned = some url ∨
    ∃ ping ∈ call.settlements, ping.1.relayUrl = url ∧
      (failure cfg.pingFilter ping).isSome = true

/-- Who wins the race: the first relay that answers. -/
def Pings.winner (cfg : Config) (pings : Pings) : Option PartialRelayInfo :=
  pings.settlements.findSome? (success cfg.pingFilter)

/-- The registration of every preferred relay that wins a race is found. -/
def Call.Registered (cfg : Config) (call : Call) : Prop :=
  ∀ pings ∈ call.pings, ∀ winner, pings.winner cfg = some winner →
    winner.relayInfo.relayManager = none →
      ∃ relayInfo, pings.registered winner.pingResponse.relayManagerAddress = .ok [relayInfo]

/-- With preferred relays only, they fit into one slice, or one that is pinged answers. -/
def Call.Covers (cfg : Config) (call : Call) : Prop :=
  cfg.onlyPreferredRelays = true →
    (∀ relays ∈ call.before.remainingRelays.head?, relays.length ≤ cfg.sliceSize) ∨
      ∃ ping ∈ call.settlements, (success cfg.pingFilter ping).isSome = true

/-! ## Slices -/

section Slices

variable {cfg : Config} {m : Manager}

theorem firstSlice_cons (sliceSize : Nat) (relays : List RelayInfoUrl)
    (rest : List (List RelayInfoUrl)) : firstSlice sliceSize (relays :: rest) =
      if (relays.take (min sliceSize relays.length)).length = 0 then firstSlice sliceSize rest
      else relays.take (min sliceSize relays.length) := rfl

theorem firstSlice_mem {sliceSize : Nat} {lists : List (List RelayInfoUrl)} {r : RelayInfoUrl}
    (h : r ∈ firstSlice sliceSize lists) : ∃ relays ∈ lists, r ∈ relays := by
  induction lists with
  | nil => cases h
  | cons relays lists ih =>
      rw [firstSlice_cons] at h
      split at h
      · obtain ⟨relays', hmem, hr⟩ := ih h
        exact ⟨relays', List.mem_cons_of_mem _ hmem, hr⟩
      · exact ⟨relays, List.mem_cons_self, List.mem_of_mem_take h⟩

/-- An empty slice means that nothing is left. -/
theorem firstSlice_empty {sliceSize : Nat} (hsize : 1 ≤ sliceSize)
    {lists : List (List RelayInfoUrl)} (h : (firstSlice sliceSize lists).length = 0) :
    ∀ relays ∈ lists, relays = [] := by
  induction lists with
  | nil => simp
  | cons relays lists ih =>
      rw [firstSlice_cons] at h
      split at h
      · next hempty =>
          rw [List.forall_mem_cons]
          refine ⟨?_, ih h⟩
          rw [List.length_take] at hempty
          exact List.length_eq_zero_iff.mp (by omega)
      · next hne => exact absurd h hne

theorem getPreferredRelaysNextSlice_mem {index : Nat} {slice : List RelayInfoUrl}
    (h : getPreferredRelaysNextSlice cfg index m = .ok slice) {r : RelayInfoUrl} (hr : r ∈ slice) :
    ∃ relays ∈ m.remainingRelays, r ∈ relays := by
  unfold getPreferredRelaysNextSlice at h
  split at h
  · cases h
  · split at h
    · obtain rfl := Except.ok.inj h
      cases hr
    · next preferred rest hlists =>
        split at h
        · obtain rfl := Except.ok.inj h
          exact ⟨preferred, by rw [hlists]; simp, List.mem_of_mem_drop (List.mem_of_mem_take hr)⟩
        · obtain rfl := Except.ok.inj h
          cases hr

end Slices

/-! ## One race -/

section OneRace

variable {cfg : Config} {m m' : Manager} {relays : List RelayInfoUrl} {pings : Pings}
  {result : Result}

/-- A ping of the URL has failed. -/
def FailedIn (cfg : Config) (pings : List Pings) (url : String) : Prop :=
  ∃ p ∈ pings, ∃ ping ∈ p.settlements, ping.1.relayUrl = url ∧
    (failure cfg.pingFilter ping).isSome = true

/-- The relay has won a race by the answer to a ping, and the result is made of it. -/
def WonIn (cfg : Config) (pings : List Pings) (result : Result) (relay : RelayInfoUrl) : Prop :=
  ∃ p ∈ pings, ∃ ping ∈ p.settlements, ∃ winner, ping.1 = relay ∧
    success cfg.pingFilter ping = some winner ∧ p.winner cfg = some winner ∧
      result = winnerInfo p winner

/-- The remaining relays are those whose URLs are not gone. -/
def Manager.Keeps (m m' : Manager) (gone : String → Bool) : Prop :=
  m'.isInitialized = m.isInitialized ∧
    m'.remainingRelays = m.remainingRelays.map fun relays =>
      relays.filter fun relay => !gone relay.relayUrl

theorem Manager.Keeps.trans {m'' : Manager} {gone gone' : String → Bool} (h : m.Keeps m' gone)
    (h' : m'.Keeps m'' gone') : m.Keeps m'' fun url => gone url || gone' url := by
  refine ⟨h'.1.trans h.1, ?_⟩
  rw [h'.2, h.2, List.map_map]
  apply List.map_congr_left
  intro relays _
  show (relays.filter _).filter _ = _
  rw [List.filter_filter]
  apply List.filter_congr
  intro relay _
  rw [Bool.not_or, Bool.and_comm]

/-- What handling the result of a race removes. -/
def gone (raceResult : RaceResult) (url : String) : Bool :=
  decide (some url = raceResult.winner.map (·.relayInfo.relayUrl)) ||
    decide (url ∈ raceResult.errors.map Prod.fst)

theorem handleRaceResults_keeps (raceResult : RaceResult) :
    m.Keeps (handleRaceResults m raceResult) (gone raceResult) := by
  refine ⟨rfl, ?_⟩
  apply List.map_congr_left
  intro relays _
  rw [List.filter_filter]
  apply List.filter_congr
  intro relay _
  simp only [gone, Bool.not_or, decide_not]
  exact Bool.and_comm _ _

/-- **One race.** Who fails or wins is gone. Either all relays have failed and nothing is
returned, or the result is made of one that has answered. -/
theorem nextRelayInternal_spec (h : nextRelayInternal cfg relays pings m = some (result, m')) :
    ∃ out, m.Keeps m' out ∧
      (∀ url, out url = true → FailedIn cfg [pings] url ∨
        ∃ relay, relay.relayUrl = url ∧ WonIn cfg [pings] result relay) ∧
      ((result = .ok none ∧ (∀ ping ∈ pings.settlements, success cfg.pingFilter ping = none) ∧
          ∀ relay ∈ relays, out relay.relayUrl = true) ∨
        ∃ relay ∈ relays, WonIn cfg [pings] result relay ∧ out relay.relayUrl = true) := by
  unfold nextRelayInternal at h
  split at h
  · next hsent =>
      obtain ⟨raceResult, hrace, hresult⟩ := Option.map_eq_some_iff.mp h
      obtain ⟨hwinner, herrors, hall⟩ := raceToSuccess_some hsent hrace
      have hkeys : ∀ url, url ∈ raceResult.errors.map Prod.fst ↔
          ∃ ping ∈ pings.settlements, ping.1.relayUrl = url ∧
            (failure cfg.pingFilter ping).isSome = true := by
        intro url
        rw [herrors]
        exact (race_errors _ _ _).2 url
      have hfailed : ∀ url, url ∈ raceResult.errors.map Prod.fst → FailedIn cfg [pings] url := by
        intro url hurl
        obtain ⟨ping, hping, hname, hfailure⟩ := (hkeys url).mp hurl
        exact ⟨pings, by simp, ping, hping, hname, hfailure⟩
      -- without a winner all of the slice has failed; a winner is gone from the lists too
      cases hcase : raceResult.winner with
      | none =>
          rw [hcase] at hresult hwinner
          obtain ⟨rfl, rfl⟩ := Prod.mk.inj hresult
          refine ⟨gone raceResult, handleRaceResults_keeps raceResult, ?_, Or.inl ⟨rfl, ?_, ?_⟩⟩
          · intro url hurl
            simp only [gone, hcase, Option.map_none, reduceCtorEq, decide_false, Bool.false_or,
              decide_eq_true_eq] at hurl
            exact Or.inl (hfailed url hurl)
          · exact List.findSome?_eq_none_iff.mp hwinner.symm
          · intro relay hrelay
            obtain ⟨ping, hping, rfl, hfailure⟩ := hall hcase relay hrelay
            simp only [gone, Bool.or_eq_true, decide_eq_true_eq]
            exact Or.inr ((hkeys _).mpr ⟨ping, hping, rfl, hfailure⟩)
      | some winner =>
          rw [hcase] at hresult hwinner
          obtain ⟨rfl, rfl⟩ := Prod.mk.inj hresult
          obtain ⟨ping, hping, hsuccess⟩ := List.exists_of_findSome?_eq_some hwinner.symm
          have hrelay : ping.1 = winner.relayInfo := (success_eq hsuccess).1.symm
          have hwon : WonIn cfg [pings] (winnerInfo pings winner) winner.relayInfo :=
            ⟨pings, by simp, ping, hping, winner, hrelay, hsuccess, hwinner.symm, rfl⟩
          refine ⟨gone raceResult, handleRaceResults_keeps raceResult, ?_, Or.inr ?_⟩
          · intro url hurl
            simp only [gone, hcase, Option.map_some, Option.some.injEq, Bool.or_eq_true,
              decide_eq_true_eq] at hurl
            rcases hurl with rfl | hurl
            · exact Or.inr ⟨winner.relayInfo, rfl, hwon⟩
            · exact Or.inl (hfailed url hurl)
          · refine ⟨winner.relayInfo, ?_, hwon, ?_⟩
            · rw [← hrelay]
              exact hsent.subset (List.mem_map_of_mem hping)
            · simp [gone, hcase]
  · cases h

theorem winnerInfo_ne (pings : Pings) (winner : PartialRelayInfo) :
    winnerInfo pings winner ≠ .ok none := by
  unfold winnerInfo
  split
  · simp
  · split <;> simp

/-- A race that is won does not end in nothing. -/
theorem WonIn.ne_none {pings : List Pings} {relay : RelayInfoUrl}
    (h : WonIn cfg pings result relay) : result ≠ .ok none := by
  obtain ⟨p, -, ping, -, winner, -, -, -, rfl⟩ := h
  exact winnerInfo_ne p winner

/-- What is returned has the URL and the answer of the relay that has won. -/
theorem winnerInfo_ok {winner : PartialRelayInfo} {relay : RelayInfo}
    (h : winnerInfo pings winner = .ok (some relay)) :
    relay.relayInfo.relayUrl = winner.relayInfo.relayUrl ∧
      relay.pingResponse = winner.pingResponse := by
  unfold winnerInfo at h
  split at h
  · obtain rfl := Option.some.inj (Except.ok.inj h)
    exact ⟨rfl, rfl⟩
  · split at h
    · cases h
    · obtain rfl := Option.some.inj (Except.ok.inj h)
      exact ⟨rfl, rfl⟩
    · cases h

end OneRace

/-! ## One call -/

section OneCall

variable {cfg : Config} {m m' : Manager} {pings : List Pings} {result : Result} {index : Nat}
  {getSlice : Nat → Manager → Except String (List RelayInfoUrl)}

/-- What a call does. -/
structure Selected (cfg : Config) (getSlice : Nat → Manager → Except String (List RelayInfoUrl))
    (m : Manager) (pings : List Pings) (result : Result) (m' : Manager) (out : String → Bool) :
    Prop where
  kept : m.Keeps m' out
  spent : ∀ url, out url = true → FailedIn cfg pings url ∨
    ∃ relay, relay.relayUrl = url ∧ WonIn cfg pings result relay
  ended : (result = .ok none ∧
      (∀ p ∈ pings, ∀ ping ∈ p.settlements, success cfg.pingFilter ping = none) ∧
      ∃ index slice, getSlice index m' = .ok slice ∧ slice.length = 0) ∨
    ∃ relays ∈ m.remainingRelays, ∃ relay ∈ relays, WonIn cfg pings result relay ∧
      out relay.relayUrl = true

theorem FailedIn.mono {pings' : List Pings} {url : String} (h : FailedIn cfg pings url)
    (hsub : ∀ p ∈ pings, p ∈ pings') : FailedIn cfg pings' url := by
  obtain ⟨p, hp, hrest⟩ := h
  exact ⟨p, hsub p hp, hrest⟩

theorem WonIn.mono {pings' : List Pings} {relay : RelayInfoUrl} (h : WonIn cfg pings result relay)
    (hsub : ∀ p ∈ pings, p ∈ pings') : WonIn cfg pings' result relay := by
  obtain ⟨p, hp, hrest⟩ := h
  exact ⟨p, hsub p hp, hrest⟩

/-- **The loop**, over slices of the remaining relays. -/
theorem selectLoop_spec
    (hmem : ∀ index m slice, getSlice index m = .ok slice → ∀ relay ∈ slice,
      ∃ relays ∈ m.remainingRelays, relay ∈ relays)
    (hok : ∀ index m, m.isInitialized = true → ∃ slice, getSlice index m = .ok slice)
    (hinit : m.isInitialized = true)
    (h : selectLoop cfg getSlice pings index m = some (result, m')) :
    ∃ out, Selected cfg getSlice m pings result m' out := by
  induction pings generalizing index m with
  | nil =>
      -- no race was run, so the slice was empty
      obtain ⟨slice, hslice⟩ := hok index m hinit
      rw [selectLoop, hslice] at h
      simp only at h
      split at h
      · next hempty =>
          obtain ⟨rfl, rfl⟩ := Prod.mk.inj (Option.some.inj h)
          refine ⟨fun _ => false, ⟨rfl, by simp⟩, fun _ h => Bool.noConfusion h, Or.inl ?_⟩
          exact ⟨rfl, by simp, index, slice, hslice, hempty⟩
      · cases h
  | cons p rest ih =>
      obtain ⟨slice, hslice⟩ := hok index m hinit
      rw [selectLoop, hslice] at h
      simp only at h
      split at h
      · cases h
      · cases hnext : nextRelayInternal cfg slice p m with
        | none =>
            rw [hnext] at h
            cases h
        | some next =>
            obtain ⟨r, m₁⟩ := next
            rw [hnext] at h
            obtain ⟨out, hkeeps, hout, hend⟩ := nextRelayInternal_spec hnext
            have hfirst : ∀ q ∈ [p], q ∈ p :: rest := by simp
            rcases hend with ⟨rfl, hnone, -⟩ | ⟨relay, hrelay, hwon, hgone⟩
            · -- the whole slice has failed, so the loop goes on
              obtain ⟨out', hkept, hspent, hended⟩ := ih (hkeeps.1.trans hinit) h
              have hlater : ∀ q ∈ rest, q ∈ p :: rest := fun q hq => List.mem_cons_of_mem p hq
              refine ⟨fun url => out url || out' url, hkeeps.trans hkept, ?_, ?_⟩
              · intro url hurl
                rw [Bool.or_eq_true] at hurl
                rcases hurl with hurl | hurl
                · rcases hout url hurl with hfailed | ⟨relay, -, hwon⟩
                  · exact Or.inl (hfailed.mono hfirst)
                  · exact absurd rfl hwon.ne_none
                · rcases hspent url hurl with hfailed | ⟨relay, hname, hwon⟩
                  · exact Or.inl (hfailed.mono hlater)
                  · exact Or.inr ⟨relay, hname, hwon.mono hlater⟩
              · rcases hended with ⟨hresult, hno, hlast⟩ | hended
                · refine Or.inl ⟨hresult, ?_, hlast⟩
                  rw [List.forall_mem_cons]
                  exact ⟨hnone, hno⟩
                · obtain ⟨relays, hrelays, relay, hrelay, hwon, hgone⟩ := hended
                  refine Or.inr ?_
                  rw [hkeeps.2] at hrelays
                  obtain ⟨relays₀, hrelays₀, rfl⟩ := List.mem_map.mp hrelays
                  refine ⟨relays₀, hrelays₀, relay, List.mem_of_mem_filter hrelay,
                    hwon.mono hlater, ?_⟩
                  show (out relay.relayUrl || out' relay.relayUrl) = true
                  rw [hgone, Bool.or_true]
            -- a relay has won, so the loop returns
            · have hne : r ≠ .ok none := hwon.ne_none
              have hreturn : (if rest.isEmpty then some (r, m₁) else none) = some (result, m') := by
                match r, hne with
                | .error e, _ => exact h
                | .ok (some x), _ => exact h
                | .ok none, hne => exact absurd rfl hne
              split at hreturn
              · obtain ⟨rfl, rfl⟩ := Prod.mk.inj (Option.some.inj hreturn)
                obtain ⟨relays, hrelays, hin⟩ := hmem index m slice hslice relay hrelay
                refine ⟨out, hkeeps, ?_,
                  Or.inr ⟨relays, hrelays, relay, hin, hwon.mono hfirst, hgone⟩⟩
                intro url hurl
                rcases hout url hurl with hfailed | ⟨relay', hname, hwon'⟩
                · exact Or.inl (hfailed.mono hfirst)
                · exact Or.inr ⟨relay', hname, hwon'.mono hfirst⟩
              · cases hreturn

/-- The slices of the mode that is configured. -/
def sliceOf (cfg : Config) : Nat → Manager → Except String (List RelayInfoUrl) :=
  if cfg.onlyPreferredRelays = true then getPreferredRelaysNextSlice cfg
  else fun _ => getNextSlice cfg

theorem selectNextRelay_eq :
    selectNextRelay cfg pings m = selectLoop cfg (sliceOf cfg) pings 0 m := by
  unfold selectNextRelay sliceOf
  split <;> rfl

theorem sliceOf_mem {slice : List RelayInfoUrl} (h : sliceOf cfg index m = .ok slice) :
    ∀ relay ∈ slice, ∃ relays ∈ m.remainingRelays, relay ∈ relays := by
  intro relay hrelay
  unfold sliceOf at h
  split at h
  · exact getPreferredRelaysNextSlice_mem h hrelay
  · simp only [getNextSlice] at h
    split at h
    · cases h
    · obtain rfl := Except.ok.inj h
      exact firstSlice_mem hrelay

theorem sliceOf_ok (hinit : m.isInitialized = true) : ∃ slice, sliceOf cfg index m = .ok slice := by
  unfold sliceOf
  split
  · unfold getPreferredRelaysNextSlice
    rw [if_neg (by simp [hinit])]
    split
    · exact ⟨_, rfl⟩
    · split
      · exact ⟨_, rfl⟩
      · exact ⟨_, rfl⟩
  · exact ⟨_, if_neg (by simp [hinit])⟩

/-- **What a call does.** -/
theorem selectNextRelay_spec (hinit : m.isInitialized = true)
    (h : selectNextRelay cfg pings m = some (result, m')) :
    ∃ out, Selected cfg (sliceOf cfg) m pings result m' out := by
  rw [selectNextRelay_eq] at h
  exact selectLoop_spec (fun _ _ _ hslice => sliceOf_mem hslice) (fun _ _ hm => sliceOf_ok hm)
    hinit h

/-- All relays: a call that returns nothing has left nothing. -/
theorem all_exhausted (hsize : 1 ≤ cfg.sliceSize) (hmode : cfg.onlyPreferredRelays = false)
    {out : String → Bool} (h : Selected cfg (sliceOf cfg) m pings (.ok none) m' out) :
    ∀ relays ∈ m'.remainingRelays, relays = [] := by
  rcases h.ended with ⟨-, -, last, slice, hslice, hempty⟩ | ⟨_, -, _, -, hwon, -⟩
  · unfold sliceOf at hslice
    rw [if_neg (by simp [hmode])] at hslice
    simp only [getNextSlice] at hslice
    split at hslice
    · cases hslice
    · obtain rfl := Except.ok.inj hslice
      exact firstSlice_empty hsize hempty
  · exact absurd rfl hwon.ne_none

theorem firstPreferredSlice (hinit : m.isInitialized = true) {preferred : List RelayInfoUrl}
    {rest : List (List RelayInfoUrl)} (hlists : m.remainingRelays = preferred :: rest)
    (hfew : preferred.length ≤ cfg.sliceSize) :
    getPreferredRelaysNextSlice cfg 0 m = .ok preferred := by
  unfold getPreferredRelaysNextSlice
  rw [if_neg (by simp [hinit]), hlists]
  simp only [List.drop_zero]
  split
  · rw [Nat.min_eq_right hfew, List.take_length]
  · next hnone =>
      have hempty : preferred = [] := List.length_eq_zero_iff.mp (by omega)
      rw [hempty]

/-- Preferred relays that fit into one slice: a call that returns nothing has left none. -/
theorem preferred_exhausted (hinit : m.isInitialized = true)
    (h : selectLoop cfg (getPreferredRelaysNextSlice cfg) pings 0 m = some (.ok none, m'))
    (hmode : cfg.onlyPreferredRelays = true)
    (hfew : ∀ relays ∈ m.remainingRelays.head?, relays.length ≤ cfg.sliceSize) :
    ∀ relays ∈ m'.remainingRelays.head?, relays = [] := by
  cases hlists : m.remainingRelays with
  | nil =>
      obtain ⟨out, hselected⟩ := selectNextRelay_spec hinit
        (show selectNextRelay cfg pings m = some (.ok none, m') by
          unfold selectNextRelay; rw [if_pos hmode]; exact h)
      rw [hselected.kept.2, hlists]
      simp
  | cons preferred rest =>
      -- the first slice has all preferred relays
      have hslice := firstPreferredSlice hinit hlists (hfew preferred (by rw [hlists]; rfl))
      cases pings with
      | nil =>
          rw [selectLoop, hslice] at h
          simp only at h
          split at h
          · next hempty =>
              obtain ⟨-, rfl⟩ := Prod.mk.inj (Option.some.inj h)
              rw [hlists]
              rintro relays hrelays
              obtain rfl := Option.some.inj hrelays
              exact List.length_eq_zero_iff.mp hempty
          · cases h
      | cons p later =>
          rw [selectLoop, hslice] at h
          simp only at h
          split at h
          · cases h
          · cases hnext : nextRelayInternal cfg preferred p m with
            | none =>
                rw [hnext] at h
                cases h
            | some next =>
                obtain ⟨r, m₁⟩ := next
                rw [hnext] at h
                obtain ⟨out, hkeeps, -, hend⟩ := nextRelayInternal_spec hnext
                rcases hend with ⟨rfl, -, hall⟩ | ⟨relay, -, hwon, -⟩
                · -- all of them have failed
                  have hslices : getPreferredRelaysNextSlice cfg = sliceOf cfg := by
                    unfold sliceOf
                    rw [if_pos hmode]
                  rw [hslices] at h
                  obtain ⟨out', hselected⟩ := selectLoop_spec
                    (fun _ _ _ hs => sliceOf_mem hs) (fun _ _ hm => sliceOf_ok hm)
                    (hkeeps.1.trans hinit) h
                  have hempty : (preferred.filter fun relay => !out relay.relayUrl) = [] := by
                    rw [List.filter_eq_nil_iff]
                    intro relay hrelay
                    simp [hall relay hrelay]
                  rw [hselected.kept.2, hkeeps.2, hlists, List.map_cons, hempty]
                  simp
                -- one of them has won, so the call does not return nothing
                · have hne : r ≠ .ok none := hwon.ne_none
                  have hreturn : (if later.isEmpty then some (r, m₁) else none) =
                      some (.ok none, m') := by
                    match r, hne with
                    | .error e, _ => exact h
                    | .ok (some x), _ => exact h
                    | .ok none, hne => exact absurd rfl hne
                  split at hreturn
                  · exact absurd (Prod.mk.inj (Option.some.inj hreturn)).1 hne
                  · cases hreturn

/-- A winner whose registration is found is returned. -/
theorem WonIn.returned {call : Call} (hregistered : call.Registered cfg) {relay : RelayInfoUrl}
    (h : WonIn cfg call.pings call.result relay) : call.returned = some relay.relayUrl := by
  obtain ⟨p, hp, ping, -, winner, rfl, hsuccess, hwinner, hresult⟩ := h
  have hinfo := (success_eq hsuccess).1
  have hfound : ∃ found, winnerInfo p winner = .ok (some found) := by
    unfold winnerInfo
    split
    · exact ⟨_, rfl⟩
    · next hmanager =>
        obtain ⟨info, hevents⟩ := hregistered p hp winner hwinner hmanager
        rw [hevents]
        exact ⟨_, rfl⟩
  obtain ⟨found, hfound⟩ := hfound
  rw [Call.returned, hresult, hfound]
  show some found.relayInfo.relayUrl = _
  rw [(winnerInfo_ok hfound).1, hinfo]

/-- A relay that is returned has won. -/
theorem Selected.returned {call : Call} {out : String → Bool} {url : String}
    (h : Selected cfg getSlice call.before call.pings call.result m' out)
    (hreturned : call.returned = some url) :
    out url = true ∧ (∃ relays ∈ call.before.remainingRelays, ∃ relay ∈ relays,
      relay.relayUrl = url) := by
  unfold Call.returned at hreturned
  split at hreturned
  next found hresult =>
    obtain rfl := Option.some.inj hreturned
    rcases h.ended with ⟨hnone, -, -⟩ | ⟨relays, hrelays, relay, hrelay, hwon, hgone⟩
    · rw [hresult] at hnone
      cases hnone
    · obtain ⟨p, -, ping, -, winner, rfl, hsuccess, -, hwin⟩ := hwon
      have hurl : found.relayInfo.relayUrl = ping.1.relayUrl := by
        rw [(winnerInfo_ok (hwin.symm.trans hresult)).1, (success_eq hsuccess).1]
      exact ⟨by rw [hurl]; exact hgone, relays, hrelays, ping.1, hrelay, hurl.symm⟩
  next => cases hreturned

end OneCall

/-! ## Runs -/

section Runs

variable {cfg : Config} {preferred registered : List RelayInfoUrl} {calls : List Call}
  {m : Manager}

/-- What holds between the calls: what remains are the relays that are not gone; those returned
are gone, and the others that are gone have failed, if all registrations were found. -/
structure Standing (cfg : Config) (preferred registered : List RelayInfoUrl) (calls : List Call)
    (m : Manager) (out : String → Bool) : Prop where
  initialized : m.isInitialized = true
  remaining : m.remainingRelays = [preferred, registered].map fun relays =>
    relays.filter fun relay => !out relay.relayUrl
  returned : ∀ call ∈ calls, ∀ url, call.returned = some url → out url = true
  spent : (∀ call ∈ calls, call.Registered cfg) → ∀ url, out url = true → Spent cfg calls url
  once : (calls.filterMap Call.returned).Nodup

theorem Spent.append {url : String} (h : Spent cfg calls url) (later : List Call) :
    Spent cfg (calls ++ later) url := by
  obtain ⟨call, hcall, hrest⟩ := h
  exact ⟨call, List.mem_append_left later hcall, hrest⟩

theorem Standing.call {m' : Manager} {pings : List Pings} {result : Result}
    {out out' : String → Bool} (h : Standing cfg preferred registered calls m out)
    (hselected : Selected cfg (sliceOf cfg) m pings result m' out') :
    Standing cfg preferred registered (calls ++ [⟨m, pings, result⟩]) m'
      fun url => out url || out' url where
  initialized := hselected.kept.1.trans h.initialized
  remaining := by
    have hbefore : (init preferred registered).Keeps m out := ⟨h.initialized, h.remaining⟩
    exact (hbefore.trans hselected.kept).2
  returned := by
    intro call hcall url hurl
    rcases List.mem_append.mp hcall with hold | hnew
    · show (out url || out' url) = true
      rw [h.returned call hold url hurl, Bool.true_or]
    · obtain rfl := List.mem_singleton.mp hnew
      show (out url || out' url) = true
      rw [(hselected.returned hurl).1, Bool.or_true]
  spent := by
    intro hregistered url hurl
    rcases Bool.or_eq_true_iff.mp hurl with hold | hnew
    · exact (h.spent (fun call hcall => hregistered call (List.mem_append_left _ hcall)) url
        hold).append _
    · refine ⟨⟨m, pings, result⟩, by simp, ?_⟩
      rcases hselected.spent url hnew with ⟨p, hp, ping, hping, hname, hfail⟩ | ⟨relay, rfl, hwon⟩
      · exact Or.inr ⟨ping, List.mem_flatMap.mpr ⟨p, hp, hping⟩, hname, hfail⟩
      · exact Or.inl (WonIn.returned (hregistered _ (by simp)) hwon)
  once := by
    rw [List.filterMap_append, List.nodup_append]
    refine ⟨h.once, ?_, ?_⟩
    · cases hr : Call.returned ⟨m, pings, result⟩ with
      | none => simp [hr]
      | some url => simp [hr]
    · rintro url hold url' hnew rfl
      obtain ⟨call, hcall, hurl⟩ := List.mem_filterMap.mp hold
      obtain ⟨last, hlast, hurl'⟩ := List.mem_filterMap.mp hnew
      obtain rfl := List.mem_singleton.mp hlast
      -- what was returned is gone, and nobody who is gone wins
      have hgone := h.returned call hcall url hurl
      obtain ⟨-, relays, hrelays, relay, hrelay, rfl⟩ := hselected.returned hurl'
      rw [show (⟨m, pings, result⟩ : Call).before = m from rfl, h.remaining] at hrelays
      obtain ⟨relays₀, -, rfl⟩ := List.mem_map.mp hrelays
      have hleft := (List.mem_filter.mp hrelay).2
      rw [hgone] at hleft
      cases hleft

theorem Calls.standing (h : Calls cfg (init preferred registered) calls m) :
    ∃ out, Standing cfg preferred registered calls m out := by
  induction h with
  | start =>
      refine ⟨fun _ => false, rfl, by simp [init], fun call hcall => ?_, fun _ _ hfalse => ?_,
        List.nodup_nil⟩
      · cases hcall
      · exact Bool.noConfusion hfalse
  | call _ pings result hcall ih =>
      obtain ⟨out, hstanding⟩ := ih
      obtain ⟨out', hselected⟩ := selectNextRelay_spec hstanding.initialized hcall
      exact ⟨_, hstanding.call hselected⟩

/-- A call in the middle of a run. -/
theorem Calls.split {m₀ : Manager} (h : Calls cfg m₀ calls m) {earlier later : List Call}
    {call : Call} (hcalls : calls = earlier ++ call :: later) :
    ∃ m', Calls cfg m₀ earlier call.before ∧
      selectNextRelay cfg call.pings call.before = some (call.result, m') := by
  induction h generalizing later with
  | start => simp at hcalls
  | @call calls m m' h pings result hcall ih =>
      rcases List.eq_nil_or_concat later with rfl | ⟨later', last, rfl⟩
      · obtain ⟨rfl, hlast⟩ := List.append_inj' hcalls rfl
        obtain rfl := (List.cons.inj hlast).1
        exact ⟨m', h, hcall⟩
      · rw [List.concat_eq_append, ← List.cons_append, ← List.append_assoc] at hcalls
        exact ih (List.append_inj' hcalls rfl).1

end Runs

/-- **Selection.** Over successive calls, with any outcomes of the pings in any order: no URL is
returned twice; what is returned has answered its ping; and nothing is returned only when every
eligible relay was returned before or has failed, provided that the registrations of preferred
winners are found and that with preferred relays only these fit into one slice or one that is
pinged answers. -/
theorem selection_exhaustive (cfg : Config) (hsize : 1 ≤ cfg.sliceSize)
    (preferred registered : List RelayInfoUrl) {calls : List Call} {m : Manager}
    (h : Calls cfg (init preferred registered) calls m) :
    (calls.filterMap Call.returned).Nodup ∧
    (∀ call ∈ calls, ∀ relay, call.result = .ok (some relay) →
      ∃ ping ∈ call.settlements, ping.1.relayUrl = relay.relayInfo.relayUrl ∧
        ping.2 = .ok relay.pingResponse ∧ relay.pingResponse.ready = true ∧
          cfg.pingFilter relay.pingResponse = .ok ()) ∧
    ((∀ call ∈ calls, call.Registered cfg ∧ call.Covers cfg) →
      ∀ earlier call later, calls = earlier ++ call :: later → call.result = .ok none →
        ∀ relay ∈ eligible cfg preferred registered,
          Spent cfg (earlier ++ [call]) relay.relayUrl) := by
  obtain ⟨out₀, hstanding⟩ := h.standing
  refine ⟨hstanding.once, ?_, ?_⟩
  · intro call hcall relay hresult
    obtain ⟨earlier, later, hcalls⟩ := List.append_of_mem hcall
    obtain ⟨m', hbefore, hselect⟩ := h.split hcalls
    obtain ⟨out₁, hinit⟩ := hbefore.standing
    obtain ⟨out, hselected⟩ := selectNextRelay_spec hinit.initialized hselect
    rcases hselected.ended with ⟨hnone, -, -⟩ | ⟨_, -, _, -, hwon, -⟩
    · rw [hresult] at hnone
      cases hnone
    · obtain ⟨p, hp, ping, hping, winner, rfl, hsuccess, -, hwin⟩ := hwon
      obtain ⟨hurl, hresponse⟩ := winnerInfo_ok (hwin.symm.trans hresult)
      obtain ⟨hinfo, hanswer, hready, hfilter⟩ := success_eq hsuccess
      rw [hurl, hresponse]
      exact ⟨ping, List.mem_flatMap.mpr ⟨p, hp, hping⟩, by rw [hinfo], hanswer, hready, hfilter⟩
  · intro hall earlier call later hcalls hresult relay hrelay
    obtain ⟨m', hbefore, hselect⟩ := h.split hcalls
    rw [hresult] at hselect
    obtain ⟨out, hinit⟩ := hbefore.standing
    obtain ⟨out', hselected⟩ := selectNextRelay_spec hinit.initialized hselect
    have hnext := hinit.call hselected
    rw [← hresult] at hnext
    have hspent := hnext.spent fun c hc => (hall c (by
      rw [hcalls]
      rcases List.mem_append.mp hc with hold | hnew
      · exact List.mem_append_left _ hold
      · obtain rfl := List.mem_singleton.mp hnew
        simp)).1
    by_cases hmode : cfg.onlyPreferredRelays = true
    · rw [eligible, if_pos hmode] at hrelay
      have hleft : ∀ relays ∈ m'.remainingRelays.head?, relays = [] := by
        rcases (hall call (by rw [hcalls]; simp)).2 hmode with hfew | ⟨ping, hping, hsuccess⟩
        · rw [selectNextRelay, if_pos hmode] at hselect
          exact preferred_exhausted hinit.initialized hselect hmode hfew
        · -- a call with an answer does not return nothing
          obtain ⟨p, hp, hmem⟩ := List.mem_flatMap.mp hping
          rcases hselected.ended with ⟨-, hnone, -⟩ | ⟨_, -, _, -, hwon, -⟩
          · rw [hnone p hp ping hmem] at hsuccess
            cases hsuccess
          · exact absurd rfl hwon.ne_none
      have hempty : (preferred.filter fun relay => !(out relay.relayUrl || out' relay.relayUrl)) =
          [] := by
        refine hleft _ ?_
        rw [hnext.remaining]
        rfl
      have hgone := List.filter_eq_nil_iff.mp hempty relay hrelay
      exact hspent _ (by simpa only [Bool.not_eq_true, Bool.not_eq_false'] using hgone)
    · rw [eligible, if_neg hmode] at hrelay
      have hleft := all_exhausted hsize (by simpa using hmode) hselected
      rw [hnext.remaining] at hleft
      have hgone : ∀ relays ∈ [preferred, registered], ∀ r ∈ relays,
          (out r.relayUrl || out' r.relayUrl) = true := by
        intro relays hrelays r hr
        have hempty := hleft _ (List.mem_map_of_mem hrelays)
        have hr' := List.filter_eq_nil_iff.mp hempty r hr
        simpa only [Bool.not_eq_true, Bool.not_eq_false'] using hr'
      refine hspent _ ?_
      rcases List.mem_append.mp hrelay with hin | hin
      · exact hgone preferred (by simp) relay hin
      · exact hgone registered (by simp) relay hin

/-! Three preferred relays in slices of one, of which the first two do not answer. -/

def slowConfig : Config := ⟨1, true, fun _ => .ok ()⟩

def slowRelays : List RelayInfoUrl := [⟨"http://a", none⟩, ⟨"http://b", none⟩, ⟨"http://c", none⟩]

def noAnswer (relay : RelayInfoUrl) : Pings :=
  ⟨[(relay, .error "timeout")], fun _ => .ok []⟩

/-- The second relay is passed over and never pinged, and the call returns nothing. -/
theorem passed_over :
    selectNextRelay slowConfig [noAnswer ⟨"http://a", none⟩, noAnswer ⟨"http://c", none⟩]
        (init slowRelays []) =
      some (.ok none, ⟨[[⟨"http://b", none⟩], []], true,
        [("http://a", .request "timeout"), ("http://c", .request "timeout")]⟩) ∧
      ¬ Spent slowConfig [⟨init slowRelays [],
        [noAnswer ⟨"http://a", none⟩, noAnswer ⟨"http://c", none⟩], .ok none⟩] "http://b" := by
  refine ⟨by decide +kernel, ?_⟩
  rintro ⟨call, hcall, hspent⟩
  obtain rfl := List.mem_singleton.mp hcall
  rcases hspent with hreturned | ⟨ping, hping, hurl, -⟩
  · cases hreturned
  · have hnone : ∀ ping ∈ (⟨init slowRelays [],
        [noAnswer ⟨"http://a", none⟩, noAnswer ⟨"http://c", none⟩], .ok none⟩ : Call).settlements,
        ping.1.relayUrl ≠ "http://b" := by decide
    exact hnone ping hping hurl

/-! The same relays in slices of two: the first one answers, then the third one, after the second
has failed, and then nothing is left. -/

def fastConfig : Config := ⟨2, true, fun _ => .ok ()⟩

/-- A relay that answers first, after some others. -/
def answers (before : List Settlement) (relay : RelayInfoUrl) (manager : Address) : Pings :=
  ⟨before ++ [(relay, .ok ⟨manager, "1", true⟩)], fun a => .ok [⟨a, "http://old"⟩]⟩

def firstCall : Call :=
  ⟨init slowRelays [], [answers [] ⟨"http://a", none⟩ 0x0c],
    .ok (some ⟨⟨0x0c, "1", true⟩, ⟨0x0c, "http://a"⟩⟩)⟩

def secondCall : Call :=
  ⟨⟨[[⟨"http://b", none⟩, ⟨"http://c", none⟩], []], true, []⟩,
    [answers [(⟨"http://b", none⟩, .error "timeout")] ⟨"http://c", none⟩ 0x0e],
    .ok (some ⟨⟨0x0e, "1", true⟩, ⟨0x0e, "http://c"⟩⟩)⟩

def lastCall : Call := ⟨⟨[[], []], true, [("http://b", .request "timeout")]⟩, [], .ok none⟩

theorem fastCalls_run : Calls fastConfig (init slowRelays []) [firstCall, secondCall, lastCall]
    ⟨[[], []], true, [("http://b", .request "timeout")]⟩ := by
  have hfirst : Calls fastConfig (init slowRelays []) [firstCall] secondCall.before :=
    .call .start firstCall.pings _ (by decide +kernel)
  have hsecond : Calls fastConfig (init slowRelays []) [firstCall, secondCall] lastCall.before :=
    .call hfirst secondCall.pings _ (by decide +kernel)
  exact .call hsecond lastCall.pings _ (by decide +kernel)

/-- The last call returns nothing, and all three relays are spent. -/
theorem selection_exhaustive_fast :
    Spent fastConfig [firstCall, secondCall, lastCall] "http://a" ∧
      Spent fastConfig [firstCall, secondCall, lastCall] "http://b" ∧
      Spent fastConfig [firstCall, secondCall, lastCall] "http://c" := by
  have hregistered : ∀ before relay manager pings, pings ∈ [answers before relay manager] →
      ∀ a, ∃ relayInfo, pings.registered a = .ok [relayInfo] := by
    intro before relay manager pings hpings a
    obtain rfl := List.mem_singleton.mp hpings
    exact ⟨_, rfl⟩
  have hall : ∀ call ∈ [firstCall, secondCall, lastCall],
      call.Registered fastConfig ∧ call.Covers fastConfig := by
    rw [List.forall_mem_cons, List.forall_mem_cons, List.forall_mem_singleton]
    refine ⟨⟨fun p hp winner _ _ => hregistered _ _ _ p hp _, fun _ => Or.inr ?_⟩,
      ⟨fun p hp winner _ _ => hregistered _ _ _ p hp _, fun _ => Or.inl ?_⟩,
      ⟨fun p hp => (List.not_mem_nil hp).elim, fun _ => Or.inl ?_⟩⟩
    · exact ⟨_, List.mem_singleton_self _, by decide⟩
    · decide
    · decide
  have hspent := (selection_exhaustive fastConfig (by decide) slowRelays [] fastCalls_run).2.2 hall
    [firstCall, secondCall] lastCall [] rfl rfl
  exact ⟨hspent ⟨"http://a", none⟩ (by decide), hspent ⟨"http://b", none⟩ (by decide),
    hspent ⟨"http://c", none⟩ (by decide)⟩

end RelaySelectionManager

end RifRelay
