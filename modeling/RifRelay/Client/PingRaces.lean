import RifRelay.Client.KnownRelays

set_option autoImplicit false

/-! # Races of pings

`RelaySelectionManager` pings several relays at once and takes the first one that answers
(`raceToSuccess`). The errors of the others are kept in a map by URL, and the race is given up
when that map has as many entries as there are relays. Two relays with one URL fill one entry,
so a race of which all pings fail ends exactly when the URLs are distinct (`race_ends_iff`).

The outside of a race is the list of its *settlements*: which ping settled, in this order, and
with which answer of the relay.
-/

namespace RifRelay

open KnownRelaysManager

namespace RelaySelectionManager

/-! ## The code -/

/-- What a relay answers, as far as the client looks at it. -/
structure PingResponse where
  relayManagerAddress : Address
  minGasPrice : String
  ready : Bool
deriving DecidableEq

/-- A relay is known by its URL alone, or from its registration. -/
structure RelayInfoUrl where
  relayUrl : String
  relayManager : Option Address
deriving DecidableEq

inductive PingError
  | request (e : String)
  | notReady (pingResponse : PingResponse)
  | filtered (e : String)
deriving DecidableEq

structure PartialRelayInfo where
  relayInfo : RelayInfoUrl
  pingResponse : PingResponse
deriving DecidableEq

/-- What the filter throws for a response. -/
abbrev PingFilter : Type := PingResponse → Except String Unit

/-- A ping that settles: the relay and the answer of the request. -/
abbrev Settlement : Type := RelayInfoUrl × Except String PingResponse

def getRelayAddressPing (pingFilter : PingFilter) (ping : Settlement) :
    Except PingError PartialRelayInfo :=
  match ping.2 with
  | .error e => .error (.request e)
  | .ok pingResponse =>
      if pingResponse.ready = false then .error (.notReady pingResponse)
      else
        match pingFilter pingResponse with
        | .error e => .error (.filtered e)
        | .ok () => .ok ⟨ping.1, pingResponse⟩

/-- A `Map` from URLs to errors, in the order in which the keys were added. -/
abbrev Errors : Type := List (String × PingError)

/-- `set` keeps the place of a key that is there. -/
def Errors.set (errors : Errors) (relayUrl : String) (err : PingError) : Errors :=
  if relayUrl ∈ errors.map Prod.fst then
    errors.map fun entry => if entry.1 = relayUrl then (relayUrl, err) else entry
  else errors ++ [(relayUrl, err)]

structure RaceResult where
  winner : Option PartialRelayInfo
  errors : Errors
deriving DecidableEq

/-- A race: the errors so far, and what its promise is resolved with. -/
structure Race where
  errors : Errors
  resolved : Option (Option PartialRelayInfo)

/-- One ping settles. What is resolved stays resolved, but the map goes on to be filled. -/
def Race.settle (pingFilter : PingFilter) (relays : List RelayInfoUrl) (race : Race)
    (ping : Settlement) : Race :=
  match getRelayAddressPing pingFilter ping with
  | .ok winner => { race with resolved := race.resolved <|> some (some winner) }
  | .error err =>
      let errors := race.errors.set ping.1.relayUrl err
      { errors := errors
        resolved := race.resolved <|>
          if errors.length = relays.length then some none else none }

def race (pingFilter : PingFilter) (relays : List RelayInfoUrl) (settlements : List Settlement) :
    Race :=
  settlements.foldl (Race.settle pingFilter relays) ⟨[], none⟩

/-- The result of a race when these pings have settled; none if it is still going on. The map of
errors is the one that later failures are put in as well. -/
def raceToSuccess (pingFilter : PingFilter) (relays : List RelayInfoUrl)
    (settlements : List Settlement) : Option RaceResult :=
  (race pingFilter relays settlements).resolved.map fun winner =>
    ⟨winner, (race pingFilter relays settlements).errors⟩

/-! ## What settles -/

section Settlements

variable {pingFilter : PingFilter}

/-- The ping succeeds with this. -/
def success (pingFilter : PingFilter) (ping : Settlement) : Option PartialRelayInfo :=
  match getRelayAddressPing pingFilter ping with
  | .ok winner => some winner
  | .error _ => none

/-- The ping fails with this. -/
def failure (pingFilter : PingFilter) (ping : Settlement) : Option PingError :=
  match getRelayAddressPing pingFilter ping with
  | .ok _ => none
  | .error err => some err

theorem success_or_failure (pingFilter : PingFilter) (ping : Settlement) :
    (∃ winner, success pingFilter ping = some winner ∧ failure pingFilter ping = none ∧
      getRelayAddressPing pingFilter ping = .ok winner) ∨
    ∃ err, success pingFilter ping = none ∧ failure pingFilter ping = some err ∧
      getRelayAddressPing pingFilter ping = .error err := by
  unfold success failure
  cases getRelayAddressPing pingFilter ping with
  | ok winner => exact Or.inl ⟨winner, rfl, rfl, rfl⟩
  | error err => exact Or.inr ⟨err, rfl, rfl, rfl⟩

/-- A ping that succeeds is an answer of its relay. -/
theorem success_eq {ping : Settlement} {winner : PartialRelayInfo}
    (h : success pingFilter ping = some winner) :
    winner.relayInfo = ping.1 ∧ ping.2 = .ok winner.pingResponse ∧
      winner.pingResponse.ready = true ∧ pingFilter winner.pingResponse = .ok () := by
  unfold success getRelayAddressPing at h
  split at h
  next winner' heq =>
    split at heq
    · cases heq
    · next response hanswer =>
        split at heq
        · cases heq
        · next hready =>
            split at heq
            · cases heq
            · next hfilter =>
                obtain rfl := Except.ok.inj heq
                obtain rfl := Option.some.inj h
                exact ⟨rfl, hanswer, by simpa using hready, hfilter⟩
  next => cases h

end Settlements

/-! ## The errors -/

section Errors

variable {errors : Errors} {url : String} {err : PingError}

theorem Errors.keys_set : (errors.set url err).map Prod.fst =
    if url ∈ errors.map Prod.fst then errors.map Prod.fst else errors.map Prod.fst ++ [url] := by
  unfold Errors.set
  split
  · rw [List.map_map]
    apply List.map_congr_left
    intro entry _
    by_cases hkey : entry.1 = url
    · simp [hkey]
    · simp [hkey]
  · simp

theorem Errors.mem_keys_set {u : String} : u ∈ (errors.set url err).map Prod.fst ↔
    u ∈ errors.map Prod.fst ∨ u = url := by
  rw [Errors.keys_set]
  split
  · next hmem =>
      constructor
      · exact Or.inl
      · rintro (h | rfl)
        · exact h
        · exact hmem
  · simp

theorem Errors.nodup_set (h : (errors.map Prod.fst).Nodup) :
    ((errors.set url err).map Prod.fst).Nodup := by
  rw [Errors.keys_set]
  split
  · exact h
  · next hmem =>
      rw [List.nodup_append]
      refine ⟨h, by simp, fun a ha b hb heq => ?_⟩
      obtain rfl := List.mem_singleton.mp hb
      exact hmem (heq ▸ ha)

end Errors

/-! ## Races -/

section Races

variable {pingFilter : PingFilter} {relays : List RelayInfoUrl} {settlements : List Settlement}

theorem race_snoc (ping : Settlement) : race pingFilter relays (settlements ++ [ping]) =
    (race pingFilter relays settlements).settle pingFilter relays ping := by
  unfold race
  exact List.foldl_concat ..

/-- The errors are those of the pings that failed, one for each URL. -/
theorem race_errors (pingFilter : PingFilter) (relays : List RelayInfoUrl)
    (settlements : List Settlement) :
    ((race pingFilter relays settlements).errors.map Prod.fst).Nodup ∧
      ∀ url, url ∈ (race pingFilter relays settlements).errors.map Prod.fst ↔
        ∃ ping ∈ settlements, ping.1.relayUrl = url ∧ (failure pingFilter ping).isSome = true := by
  induction settlements using List.reverseRecOn with
  | nil => simp [race]
  | append_singleton settlements ping ih =>
      obtain ⟨hnodup, hkeys⟩ := ih
      rw [race_snoc]
      rcases success_or_failure pingFilter ping with
        ⟨winner, -, hfailure, hping⟩ | ⟨err, -, hfailure, hping⟩
      · simp only [Race.settle, hping]
        refine ⟨hnodup, fun url => (hkeys url).trans ?_⟩
        simp [hfailure]
      · simp only [Race.settle, hping]
        refine ⟨Errors.nodup_set hnodup, fun url => ?_⟩
        rw [Errors.mem_keys_set, hkeys]
        simp only [List.mem_append, List.mem_singleton]
        constructor
        · rintro (⟨p, hp, hurl, hfail⟩ | rfl)
          · exact ⟨p, Or.inl hp, hurl, hfail⟩
          · exact ⟨ping, Or.inr rfl, rfl, by rw [hfailure]; rfl⟩
        · rintro ⟨p, hp | rfl, hurl, hfail⟩
          · exact Or.inl ⟨p, hp, hurl, hfail⟩
          · exact Or.inr hurl.symm

/-- There are at most as many errors as failures. -/
theorem length_errors_le (pingFilter : PingFilter) (relays : List RelayInfoUrl)
    (settlements : List Settlement) : (race pingFilter relays settlements).errors.length ≤
    settlements.countP fun ping => (failure pingFilter ping).isSome := by
  obtain ⟨hnodup, hkeys⟩ :=
    race_errors pingFilter relays settlements
  have hsub : (race pingFilter relays settlements).errors.map Prod.fst ⊆
      (settlements.filter fun ping => (failure pingFilter ping).isSome).map (·.1.relayUrl) := by
    intro url hurl
    obtain ⟨ping, hping, hurl', hfail⟩ := (hkeys url).mp hurl
    exact List.mem_map.mpr ⟨ping, List.mem_filter.mpr ⟨hping, hfail⟩, hurl'⟩
  have hle := (List.subperm_of_subset hnodup hsub).length_le
  rw [List.length_map, List.length_map] at hle
  rw [List.countP_eq_length_filter]
  exact hle

/-- While not all relays have failed, only a winner ends the race: the first that answers. -/
theorem race_resolved
    (h : (settlements.countP fun ping => (failure pingFilter ping).isSome) < relays.length) :
    (race pingFilter relays settlements).resolved =
      (settlements.findSome? (success pingFilter)).map some := by
  induction settlements using List.reverseRecOn with
  | nil => rfl
  | append_singleton settlements ping ih =>
      rw [List.countP_append] at h
      have hstep := ih (by omega)
      rw [race_snoc, List.findSome?_append]
      rcases success_or_failure pingFilter ping with
        ⟨winner, hsuccess, -, hping⟩ | ⟨err, hsuccess, hfailure, hping⟩
      · simp only [Race.settle, hping, hstep]
        cases settlements.findSome? (success pingFilter) <;> simp [hsuccess]
      · -- one more error, but not for all relays
        have hcount : ((race pingFilter relays settlements).errors.set ping.1.relayUrl err).length ≠
            relays.length := by
          have hle := length_errors_le pingFilter relays (settlements ++ [ping])
          rw [race_snoc] at hle
          simp only [Race.settle, hping, List.countP_append] at hle
          omega
        simp only [Race.settle, hping, hstep, if_neg hcount]
        cases settlements.findSome? (success pingFilter) <;> simp [hsuccess]

/-- A race with a success is won by the first one. -/
theorem race_won (hpings : (settlements.map Prod.fst).Subperm relays) {winner : PartialRelayInfo}
    (hwinner : settlements.findSome? (success pingFilter) = some winner) :
    (race pingFilter relays settlements).resolved = some (some winner) := by
  have hcount : (settlements.countP fun ping => (failure pingFilter ping).isSome) <
      settlements.length := by
    obtain ⟨ping, hping, hsuccess⟩ := List.exists_of_findSome?_eq_some hwinner
    have hle : (settlements.countP fun ping => (failure pingFilter ping).isSome) ≤
        settlements.length := List.countP_le_length
    refine lt_of_le_of_ne hle fun heq => ?_
    have hfail := List.countP_eq_length.mp heq ping hping
    rcases success_or_failure pingFilter ping with
      ⟨_, -, hfailure, -⟩ | ⟨_, hnone, -, -⟩
    · simp [hfailure] at hfail
    · rw [hnone] at hsuccess
      cases hsuccess
  have hle := hpings.length_le
  rw [List.length_map] at hle
  rw [race_resolved (lt_of_lt_of_le hcount hle), hwinner]
  rfl

/-- A race that is resolved has the first relay that answered for its winner; if there is none,
all have failed. -/
theorem raceToSuccess_some (hpings : (settlements.map Prod.fst).Subperm relays)
    {result : RaceResult} (h : raceToSuccess pingFilter relays settlements = some result) :
    result.winner = settlements.findSome? (success pingFilter) ∧
      result.errors = (race pingFilter relays settlements).errors ∧
      (result.winner = none → ∀ relay ∈ relays, ∃ ping ∈ settlements, ping.1 = relay ∧
        (failure pingFilter ping).isSome = true) := by
  obtain ⟨winner, hresolved, rfl⟩ := Option.map_eq_some_iff.mp h
  cases hfirst : settlements.findSome? (success pingFilter) with
  | some first =>
      have hwon := race_won hpings hfirst
      rw [hresolved] at hwon
      obtain rfl := Option.some.inj hwon
      exact ⟨rfl, rfl, fun hnone => by cases hnone⟩
  | none =>
      have hfails : ∀ ping ∈ settlements, (failure pingFilter ping).isSome = true := by
        intro ping hping
        have hnone := List.findSome?_eq_none_iff.mp hfirst ping hping
        rcases success_or_failure pingFilter ping with
          ⟨_, hsome, -, -⟩ | ⟨_, -, hfailure, -⟩
        · rw [hnone] at hsome
          cases hsome
        · rw [hfailure]
          rfl
      have hall : ¬ (settlements.countP fun ping => (failure pingFilter ping).isSome) <
          relays.length := by
        intro hlt
        rw [race_resolved hlt, hfirst] at hresolved
        cases hresolved
      rw [List.countP_eq_length.mpr hfails, not_lt] at hall
      have hperm := hpings.perm_of_length_le (by rw [List.length_map]; exact hall)
      have hwinner : winner = none := by
        -- as long as no ping succeeds there is no winner
        have hno : ∀ l : List Settlement, (∀ ping ∈ l, (failure pingFilter ping).isSome = true) →
            ∀ w, (race pingFilter relays l).resolved ≠ some (some w) := by
          intro l
          induction l using List.reverseRecOn with
          | nil => exact fun _ w hw => by cases hw
          | append_singleton l ping ih =>
              intro hl w hw
              have hold := ih (fun p hp => hl p (List.mem_append_left _ hp)) w
              have hping := hl ping (by simp)
              rw [race_snoc] at hw
              rcases success_or_failure pingFilter ping with
                ⟨_, -, hfailure, -⟩ | ⟨err, -, -, herror⟩
              · simp [hfailure] at hping
              · simp only [Race.settle, herror] at hw
                cases hres : (race pingFilter relays l).resolved with
                | none =>
                    rw [hres] at hw
                    split at hw <;> simp at hw
                | some r =>
                    rw [hres] at hw
                    exact hold (by rw [hres]; simpa using hw)
        cases winner with
        | none => rfl
        | some w => exact absurd hresolved (hno settlements hfails w)
      refine ⟨hwinner, rfl, fun _ relay hrelay => ?_⟩
      obtain ⟨ping, hping, rfl⟩ := List.mem_map.mp (hperm.mem_iff.mpr hrelay)
      exact ⟨ping, hping, rfl, hfails ping hping⟩

/-- With two relays of one URL, failures alone never end a race. -/
theorem race_unresolved (hsent : ∀ ping ∈ settlements, ping.1 ∈ relays)
    (hfails : ∀ ping ∈ settlements, success pingFilter ping = none)
    (hsame : ¬ (relays.map RelayInfoUrl.relayUrl).Nodup) :
    (race pingFilter relays settlements).resolved = none := by
  induction settlements using List.reverseRecOn with
  | nil => rfl
  | append_singleton settlements ping ih =>
      have hold := ih (fun p hp => hsent p (List.mem_append_left _ hp))
        fun p hp => hfails p (List.mem_append_left _ hp)
      obtain ⟨hnodup, hkeys⟩ := race_errors pingFilter relays (settlements ++ [ping])
      have hfail := hfails ping (by simp)
      rw [race_snoc] at hnodup hkeys ⊢
      rcases success_or_failure pingFilter ping with
        ⟨_, hsuccess, -, -⟩ | ⟨err, -, -, hping⟩
      · rw [hsuccess] at hfail
        cases hfail
      · simp only [Race.settle, hping] at hnodup hkeys
        have hshort : (Errors.set (race pingFilter relays settlements).errors ping.1.relayUrl
            err).length ≠ relays.length := by
          intro hlength
          -- all URLs would be keys, and keys are distinct
          have hsub : (Errors.set (race pingFilter relays settlements).errors ping.1.relayUrl
              err).map Prod.fst ⊆ relays.map RelayInfoUrl.relayUrl := by
            intro url hurl
            obtain ⟨p, hp, rfl, -⟩ := (hkeys url).mp hurl
            exact List.mem_map_of_mem (hsent p hp)
          have hperm := (List.subperm_of_subset hnodup hsub).perm_of_length_le
            (by rw [List.length_map, List.length_map, hlength])
          exact hsame (hperm.nodup_iff.mp hnodup)
        simp [Race.settle, hping, hold, hshort]

/-- The error of every relay is kept if the URLs are distinct. -/
theorem mem_race_errors (hurls : (settlements.map (·.1.relayUrl)).Nodup) {ping : Settlement}
    (hping : ping ∈ settlements) {err : PingError} (herr : failure pingFilter ping = some err) :
    (ping.1.relayUrl, err) ∈ (race pingFilter relays settlements).errors := by
  induction settlements using List.reverseRecOn with
  | nil => cases hping
  | append_singleton settlements last ih =>
      rw [List.map_append, List.nodup_append] at hurls
      obtain ⟨hold, -, hnew⟩ := hurls
      rw [race_snoc]
      have hkept : ∀ entry ∈ (race pingFilter relays settlements).errors,
          entry ∈ ((race pingFilter relays settlements).settle pingFilter relays last).errors := by
        intro entry hentry
        rcases success_or_failure pingFilter last with
          ⟨_, -, -, hlast⟩ | ⟨err', -, -, hlast⟩
        · simpa [Race.settle, hlast] using hentry
        · have hfresh : last.1.relayUrl ∉
              (race pingFilter relays settlements).errors.map Prod.fst := by
            intro hmem
            obtain ⟨p, hp, hurl, -⟩ := ((race_errors _ _ _).2 _).mp hmem
            exact hnew _ (List.mem_map_of_mem hp) _ (by simp) hurl
          simp [Race.settle, hlast, Errors.set, hfresh, hentry]
      rcases List.mem_append.mp hping with hmem | hmem
      · exact hkept _ (ih hold hmem)
      · obtain rfl := List.mem_singleton.mp hmem
        have hself : (ping.1.relayUrl, err) ∈
            Errors.set (race pingFilter relays settlements).errors ping.1.relayUrl err := by
          unfold Errors.set
          split
          · next hkey =>
              obtain ⟨entry, hentry, hkey'⟩ := List.mem_map.mp hkey
              exact List.mem_map.mpr ⟨entry, hentry, if_pos hkey'⟩
          · simp
        rcases success_or_failure pingFilter ping with
          ⟨_, -, hnone, -⟩ | ⟨err', -, hsome, hlast⟩
        · rw [hnone] at herr
          cases herr
        · obtain rfl := Option.some.inj (hsome.symm.trans herr)
          simpa [Race.settle, hlast] using hself

end Races

/-- The race ends, with a relay that has answered if there is one, and otherwise without a
winner and with the errors of all relays. -/
def Ends (pingFilter : PingFilter) (relays : List RelayInfoUrl)
    (settlements : List Settlement) : Prop :=
  ∃ result, raceToSuccess pingFilter relays settlements = some result ∧
    ((∃ ping ∈ settlements, (success pingFilter ping).isSome = true) →
      ∃ ping ∈ settlements, ∃ winner, success pingFilter ping = some winner ∧
        result.winner = some winner) ∧
    ((∀ ping ∈ settlements, success pingFilter ping = none) → result.winner = none ∧
      ∀ ping ∈ settlements, ∃ err, failure pingFilter ping = some err ∧
        (ping.1.relayUrl, err) ∈ result.errors)

/-- **The end of a race.** When all pings have settled, in any order, the race has ended as it
should if and only if one of them succeeded, or the relays have distinct URLs. -/
theorem race_ends_iff (pingFilter : PingFilter) (relays : List RelayInfoUrl)
    (hne : relays ≠ []) (settlements : List Settlement)
    (hsettled : (settlements.map Prod.fst).Perm relays) :
    Ends pingFilter relays settlements ↔
      (∃ ping ∈ settlements, (success pingFilter ping).isSome = true) ∨
        (relays.map RelayInfoUrl.relayUrl).Nodup := by
  by_cases hsome : ∃ ping ∈ settlements, (success pingFilter ping).isSome = true
  · -- a success ends the race, whatever the URLs are
    refine ⟨fun _ => Or.inl hsome, fun _ => ?_⟩
    obtain ⟨ping, hping, hsuccess⟩ := hsome
    cases hfirst : settlements.findSome? (success pingFilter) with
    | none =>
        rw [List.findSome?_eq_none_iff.mp hfirst ping hping] at hsuccess
        cases hsuccess
    | some winner =>
        refine ⟨⟨some winner, (race pingFilter relays settlements).errors⟩, ?_, ?_, ?_⟩
        · rw [raceToSuccess, race_won hsettled.subperm hfirst]
          rfl
        · intro _
          obtain ⟨first, hmem, hwinner⟩ := List.exists_of_findSome?_eq_some hfirst
          exact ⟨first, hmem, winner, hwinner, rfl⟩
        · intro hnone
          rw [hnone ping hping] at hsuccess
          cases hsuccess
  -- all pings have failed: the race ends when each of them has a key of its own
  · have hnone : ∀ ping ∈ settlements, success pingFilter ping = none := by
      intro ping hping
      cases hsuccess : success pingFilter ping with
      | none => rfl
      | some winner => exact absurd ⟨ping, hping, by rw [hsuccess]; rfl⟩ hsome
    have hfails : ∀ ping ∈ settlements, ∃ err, failure pingFilter ping = some err := by
      intro ping hping
      rcases success_or_failure pingFilter ping with
        ⟨_, hsuccess, -, -⟩ | ⟨err, -, hfailure, -⟩
      · rw [hnone ping hping] at hsuccess
        cases hsuccess
      · exact ⟨err, hfailure⟩
    have hsent : ∀ ping ∈ settlements, ping.1 ∈ relays := fun ping hping =>
      hsettled.mem_iff.mp (List.mem_map_of_mem hping)
    constructor
    · rintro ⟨result, hresult, -⟩
      refine Or.inr (by_contra fun hsame => ?_)
      rw [raceToSuccess, race_unresolved hsent hnone hsame] at hresult
      cases hresult
    · rintro (h | hurls)
      · exact absurd h hsome
      · have hdistinct : (settlements.map (·.1.relayUrl)).Nodup := by
          have hperm := hsettled.map RelayInfoUrl.relayUrl
          rw [List.map_map] at hperm
          exact hperm.nodup_iff.mpr hurls
        have hresolved : (race pingFilter relays settlements).resolved = some none := by
          obtain ⟨init, last, rfl⟩ : ∃ init last, settlements = init ++ [last] := by
            refine ⟨settlements.dropLast, settlements.getLast ?_, ?_⟩
            · rintro rfl
              exact hne (List.perm_nil.mp hsettled.symm)
            · exact (List.dropLast_append_getLast _).symm
          have hlength : init.length + 1 = relays.length := by
            have hperm := hsettled.length_eq
            simpa using hperm
          have hbefore : (race pingFilter relays init).resolved = none := by
            have hcount :
                (init.countP fun ping => (failure pingFilter ping).isSome) ≤ init.length :=
              List.countP_le_length
            rw [race_resolved (by omega)]
            have hfirst : init.findSome? (success pingFilter) = none :=
              List.findSome?_eq_none_iff.mpr fun p hp => hnone p (List.mem_append_left _ hp)
            rw [hfirst]
            rfl
          -- with the last failure every URL is a key
          have hall : (race pingFilter relays (init ++ [last])).errors.length = relays.length := by
            have hsub : relays.map RelayInfoUrl.relayUrl ⊆
                (race pingFilter relays (init ++ [last])).errors.map Prod.fst := by
              intro url hurl
              obtain ⟨relay, hrelay, rfl⟩ := List.mem_map.mp hurl
              obtain ⟨ping, hping, rfl⟩ := List.mem_map.mp (hsettled.mem_iff.mpr hrelay)
              obtain ⟨err, herr⟩ := hfails ping hping
              exact ((race_errors _ _ _).2 _).mpr ⟨ping, hping, rfl, by rw [herr]; rfl⟩
            have hge := (List.subperm_of_subset hurls hsub).length_le
            have hle := length_errors_le pingFilter relays (init ++ [last])
            have hcount : ((init ++ [last]).countP fun ping =>
                (failure pingFilter ping).isSome) ≤ (init ++ [last]).length :=
              List.countP_le_length
            rw [List.length_append, List.length_singleton] at hcount
            rw [List.length_map, List.length_map] at hge
            omega
          rw [race_snoc] at hall ⊢
          rcases success_or_failure pingFilter last with
            ⟨_, hsuccess, -, -⟩ | ⟨err, -, -, hping⟩
          · rw [hnone last (by simp)] at hsuccess
            cases hsuccess
          · simp only [Race.settle, hping] at hall ⊢
            rw [hbefore, if_pos hall]
            rfl
        refine ⟨⟨none, (race pingFilter relays settlements).errors⟩, ?_, ?_, ?_⟩
        · rw [raceToSuccess, hresolved]
          rfl
        · exact fun h => absurd h hsome
        · refine fun _ => ⟨rfl, fun ping hping => ?_⟩
          obtain ⟨err, herr⟩ := hfails ping hping
          exact ⟨err, herr, mem_race_errors hdistinct hping herr⟩

/-! Two managers that advertise the same URL, at which nothing answers. -/

def twoRelays : List RelayInfoUrl := [⟨"http://relay", some 0x0c⟩, ⟨"http://relay", some 0x0d⟩]

def deadPings : List Settlement := twoRelays.map fun relay => (relay, .error "ECONNREFUSED")

/-- The race never ends. -/
theorem race_never_ends :
    (deadPings.map Prod.fst).Perm twoRelays ∧
      raceToSuccess (fun _ => .ok ()) twoRelays deadPings = none ∧
      ¬ Ends (fun _ => .ok ()) twoRelays deadPings := by
  have hnone : raceToSuccess (fun _ => .ok ()) twoRelays deadPings = none := by decide +kernel
  refine ⟨List.Perm.refl _, hnone, ?_⟩
  rintro ⟨result, hresult, -⟩
  rw [hnone] at hresult
  cases hresult

/-- At distinct URLs it ends with both errors. -/
theorem race_ends_distinct :
    Ends (fun _ => .ok ()) [⟨"http://a", none⟩, ⟨"http://b", none⟩]
        [(⟨"http://b", none⟩, .error "timeout"), (⟨"http://a", none⟩, .error "timeout")] ↔
      (∃ ping ∈ ([(⟨"http://b", none⟩, .error "timeout"),
          (⟨"http://a", none⟩, .error "timeout")] : List Settlement),
          (success (fun _ => .ok ()) ping).isSome = true) ∨
        (([⟨"http://a", none⟩, ⟨"http://b", none⟩] : List RelayInfoUrl).map
          RelayInfoUrl.relayUrl).Nodup :=
  race_ends_iff _ _ (by simp) _ (List.Perm.swap _ _ _)

end RelaySelectionManager

end RifRelay
