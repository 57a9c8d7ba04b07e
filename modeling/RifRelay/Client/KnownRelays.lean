import RifRelay.Contracts.World
import Mathlib.Data.List.Sort
import Mathlib.Data.Prod.Lex

set_option autoImplicit false

/-! # Active relays, as the client reads them off the log

`KnownRelaysManager.getRelayInfoForManagers` asks for the registrations and for the exits of
the managers separately, sorts all of them by block and transaction, and replays them. The
sort is stable and knows nothing of the place of an event in its transaction, so the exits of
a transaction come before its registrations, whatever their order was.

The result is right for a manager exactly when its last event is not an exit in a transaction
in which it has also registered (`activeRelays_iff`).
-/

namespace RifRelay

namespace KnownRelaysManager

/-! ## Logs -/

/-- An event of the hub as a node reports it. -/
structure EventData where
  blockNumber : Nat
  transactionIndex : Nat
  logIndex : Nat
  event : Event
deriving DecidableEq

/-- The place of an event in the chain. -/
def EventData.place (e : EventData) : Nat ×ₗ Nat ×ₗ Nat :=
  toLex (e.blockNumber, toLex (e.transactionIndex, e.logIndex))

/-- The transaction of an event. -/
def EventData.transaction (e : EventData) : Nat ×ₗ Nat :=
  toLex (e.blockNumber, e.transactionIndex)

/-- The events of a log stand in log order. -/
def InOrder (log : List EventData) : Prop := log.Pairwise fun a b => a.place < b.place

instance (log : List EventData) : Decidable (InOrder log) :=
  inferInstanceAs (Decidable (log.Pairwise _))

/-! ## The code -/

structure RelayRegisteredEventInfo where
  relayManager : Address
  relayUrl : String
deriving DecidableEq

/-- A `Map` by manager, in the order in which the keys were added. -/
abbrev RelayMap : Type := List (Address × RelayRegisteredEventInfo)

namespace RelayMap

/-- `set` keeps the place of a key that is there. -/
def set (map : RelayMap) (key : Address) (info : RelayRegisteredEventInfo) : RelayMap :=
  if map.any (·.1 == key) then map.map fun entry => if entry.1 = key then (key, info) else entry
  else map ++ [(key, info)]

def delete (map : RelayMap) (key : Address) : RelayMap := map.filter fun entry => entry.1 ≠ key

end RelayMap

def isRegistration (e : EventData) : Bool :=
  match e.event with
  | .RelayServerRegistered _ _ => true
  | _ => false

/-- `StakeUnlocked` and `StakePenalized`. -/
def isExit (e : EventData) : Bool :=
  match e.event with
  | .StakeUnlocked _ _ _ => true
  | .StakePenalized _ _ _ => true
  | _ => false

/-- The manager that an event is about: the first indexed argument. -/
def relayManager (e : EventData) : Option Address :=
  match e.event with
  | .RelayServerRegistered m _ => some m
  | .RelayWorkersAdded m _ _ => some m
  | .RelayWorkersDisabled m _ _ => some m
  | .TransactionRelayed m _ _ _ => some m
  | .TransactionRelayedButRevertedByRecipient m _ _ _ => some m
  | .StakeAdded m _ _ _ => some m
  | .StakeUnlocked m _ _ => some m
  | .StakeWithdrawn m _ _ => some m
  | .StakePenalized m _ _ => some m
  | .Deployed _ _ => none
  | .other _ => none

/-- A query of the log: the events with one of the names, of one of the managers. -/
def getPastEvents (log : List EventData) (names : EventData → Bool) (managers : List Address) :
    List EventData :=
  log.filter fun e => names e && (relayManager e).any managers.contains

/-- The comparison of the sort is not positive. -/
def compare (a b : EventData) : Prop :=
  (if a.blockNumber = b.blockNumber then (a.transactionIndex : Int) - b.transactionIndex
    else (a.blockNumber : Int) - b.blockNumber) ≤ 0

instance : DecidableRel compare := fun _ _ => Int.decLe _ _

/-- One turn of the replay. -/
def replay (activeRelays : RelayMap) (e : EventData) : RelayMap :=
  match e.event with
  | .RelayServerRegistered m url => activeRelays.set m ⟨m, url⟩
  | _ =>
      match relayManager e with
      | some m => activeRelays.delete m
      | none => activeRelays

/-- The active relays, before the filter. -/
def origRelays (log : List EventData) (relayManagers : List Address) :
    List RelayRegisteredEventInfo :=
  let relayServerRegisteredEvents := getPastEvents log isRegistration relayManagers
  let relayManagerExitEvents := getPastEvents log isExit relayManagers
  let mergedEvents :=
    (relayManagerExitEvents ++ relayServerRegisteredEvents).insertionSort compare
  (mergedEvents.foldl replay []).map (·.2)

def getRelayInfoForManagers (relayFilter : RelayRegisteredEventInfo → Bool)
    (log : List EventData) (relayManagers : List Address) : List RelayRegisteredEventInfo :=
  if relayManagers.isEmpty then [] else (origRelays log relayManagers).filter relayFilter

/-! ## What it should find -/

/-- The registrations and exits of a manager. -/
def moves (m : Address) (log : List EventData) : List EventData :=
  log.filter fun e => (isRegistration e || isExit e) && relayManager e == some m

/-- The last move of a manager is a registration with this URL. -/
def ActiveWith (log : List EventData) (m : Address) (url : String) : Prop :=
  ∃ e, (moves m log).getLast? = some e ∧ e.event = .RelayServerRegistered m url

/-- The relays found are the active ones, each once and with its last URL. -/
structure Correct (log : List EventData) (relayManagers : List Address)
    (relays : List RelayRegisteredEventInfo) : Prop where
  once : (relays.map (·.relayManager)).Nodup
  active : ∀ info, info ∈ relays ↔
    info.relayManager ∈ relayManagers ∧ ActiveWith log info.relayManager info.relayUrl

/-- The last move of a manager is an exit, in a transaction in which it has also registered. -/
def Hidden (log : List EventData) (m : Address) : Prop :=
  ∃ exit registration, (moves m log).getLast? = some exit ∧ isExit exit = true ∧
    registration ∈ moves m log ∧ isRegistration registration = true ∧
    registration.transaction = exit.transaction

/-! ## Stable sorting -/

section Sorting

variable {α : Type} {r : α → α → Prop} [DecidableRel r]

theorem orderedInsert_of_forall {a : α} {l : List α} (h : ∀ b ∈ l, r a b) :
    l.orderedInsert r a = a :: l := by
  cases l with
  | nil => rfl
  | cons b l => exact if_pos (h b List.mem_cons_self)

theorem filter_orderedInsert (htrans : ∀ a b c, r a b → r b c → r a c) (p : α → Bool) (a : α)
    {l : List α} (hl : l.Pairwise r) :
    (l.orderedInsert r a).filter p =
      if p a then (l.filter p).orderedInsert r a else l.filter p := by
  induction l with
  | nil => cases hp : p a <;> simp [hp]
  | cons b l ih =>
      obtain ⟨hb, hl'⟩ := List.pairwise_cons.mp hl
      by_cases hab : r a b
      · have hall : ∀ c ∈ (b :: l).filter p, r a c := by
          intro c hc
          rcases List.mem_cons.mp (List.mem_filter.mp hc).1 with rfl | hc'
          · exact hab
          · exact htrans a b c hab (hb c hc')
        rw [List.orderedInsert_cons, if_pos hab, List.filter_cons, orderedInsert_of_forall hall]
      · rw [List.orderedInsert_cons, if_neg hab, List.filter_cons, ih hl', List.filter_cons]
        cases hpa : p a <;> cases hpb : p b <;> simp [List.orderedInsert_cons, hab]

/-- What is kept of a sorted list is sorted as it would have been alone. -/
theorem filter_insertionSort (htrans : ∀ a b c, r a b → r b c → r a c)
    (htotal : ∀ a b, r a b ∨ r b a) (p : α → Bool) (l : List α) :
    (l.insertionSort r).filter p = (l.filter p).insertionSort r := by
  have : IsTrans α r := ⟨htrans⟩
  have : Std.Total r := ⟨htotal⟩
  induction l with
  | nil => rfl
  | cons a l ih =>
      rw [List.insertionSort_cons,
        filter_orderedInsert htrans p a (List.pairwise_insertionSort r l),
        ih, List.filter_cons]
      cases p a <;> rfl

theorem orderedInsert_append {a e : α} (h : r a e) (l : List α) :
    (l ++ [e]).orderedInsert r a = l.orderedInsert r a ++ [e] := by
  induction l with
  | nil => exact if_pos h
  | cons b l ih =>
      by_cases hab : r a b
      · simp [List.orderedInsert_cons, hab]
      · simp [List.orderedInsert_cons, hab, ih]

/-- The last of the greatest elements comes last. -/
theorem insertionSort_append {e : α} {l : List α} (h : ∀ a ∈ l, r a e) :
    (l ++ [e]).insertionSort r = l.insertionSort r ++ [e] := by
  induction l with
  | nil => rfl
  | cons a l ih =>
      rw [List.cons_append, List.insertionSort_cons, ih fun b hb => h b (List.mem_cons_of_mem a hb),
        orderedInsert_append (h a List.mem_cons_self), List.insertionSort_cons]

end Sorting

/-! ## The order of the sort -/

theorem compare_iff {a b : EventData} : compare a b ↔ a.transaction ≤ b.transaction := by
  unfold compare EventData.transaction
  rw [Prod.Lex.toLex_le_toLex]
  split
  · next heq =>
      constructor
      · intro h
        exact Or.inr ⟨heq, by omega⟩
      · rintro (hlt | ⟨-, hle⟩) <;> omega
  · next hne =>
      constructor
      · intro h
        exact Or.inl (by omega)
      · rintro (hlt | ⟨heq, -⟩)
        · omega
        · exact absurd heq hne

theorem compare_trans (a b c : EventData) (hab : compare a b) (hbc : compare b c) :
    compare a c := by
  rw [compare_iff] at hab hbc ⊢
  exact hab.trans hbc

theorem compare_total (a b : EventData) : compare a b ∨ compare b a := by
  rw [compare_iff, compare_iff]
  exact le_total a.transaction b.transaction

/-- Log order refines the order of transactions. -/
theorem transaction_le {a b : EventData} (h : a.place ≤ b.place) :
    a.transaction ≤ b.transaction := by
  unfold EventData.place at h
  unfold EventData.transaction
  rw [Prod.Lex.toLex_le_toLex] at h ⊢
  rcases h with hlt | ⟨heq, hle⟩
  · exact Or.inl hlt
  · rw [Prod.Lex.toLex_le_toLex] at hle
    rcases hle with hlt' | ⟨heq', -⟩
    · exact Or.inr ⟨heq, hlt'.le⟩
    · exact Or.inr ⟨heq, heq'.le⟩

/-- The last event of a log that is in order comes after all of it. -/
theorem place_le_last {l : List EventData} (h : InOrder l) {e : EventData}
    (he : l.getLast? = some e) {a : EventData} (ha : a ∈ l) : a.place ≤ e.place := by
  obtain ⟨init, rfl⟩ := List.getLast?_eq_some_iff.mp he
  obtain ⟨-, -, hlt⟩ := List.pairwise_append.mp h
  rcases List.mem_append.mp ha with hinit | hlast
  · exact (hlt a hinit e List.mem_cons_self).le
  · rw [List.mem_singleton.mp hlast]

/-! ## The replay -/

namespace RelayMap

variable {map : RelayMap} {key k : Address} {info i : RelayRegisteredEventInfo}

theorem mem_set : (k, i) ∈ map.set key info ↔
    (k = key ∧ i = info) ∨ (k ≠ key ∧ (k, i) ∈ map) := by
  unfold set
  by_cases hany : map.any (·.1 == key) = true
  · rw [if_pos hany, List.mem_map]
    obtain ⟨entry, hentry, hkey⟩ := List.any_eq_true.mp hany
    constructor
    · rintro ⟨old, hold, heq⟩
      by_cases hk : old.1 = key
      · rw [if_pos hk] at heq
        exact Or.inl ⟨(congrArg Prod.fst heq).symm, (congrArg Prod.snd heq).symm⟩
      · rw [if_neg hk] at heq
        subst heq
        exact Or.inr ⟨hk, hold⟩
    · rintro (⟨rfl, rfl⟩ | ⟨hk, hmem⟩)
      · exact ⟨entry, hentry, if_pos (beq_iff_eq.mp hkey)⟩
      · exact ⟨(k, i), hmem, if_neg hk⟩
  · rw [if_neg hany, List.mem_append, List.mem_singleton, Prod.mk.injEq]
    constructor
    · rintro (hmem | hnew)
      · refine Or.inr ⟨?_, hmem⟩
        rintro rfl
        exact hany (List.any_eq_true.mpr ⟨(k, i), hmem, beq_self_eq_true k⟩)
      · exact Or.inl hnew
    · rintro (hnew | ⟨-, hmem⟩)
      · exact Or.inr hnew
      · exact Or.inl hmem

theorem mem_delete : (k, i) ∈ map.delete key ↔ k ≠ key ∧ (k, i) ∈ map := by
  unfold delete
  rw [List.mem_filter, and_comm]
  simp

theorem keys_set (h : (map.map Prod.fst).Nodup) : ((map.set key info).map Prod.fst).Nodup := by
  unfold set
  by_cases hany : map.any (·.1 == key) = true
  · have hkeys : (map.map fun entry => if entry.1 = key then (key, info) else entry).map Prod.fst =
        map.map Prod.fst := by
      rw [List.map_map]
      apply List.map_congr_left
      intro entry _
      by_cases hk : entry.1 = key
      · simp [hk]
      · simp [hk]
    rw [if_pos hany, hkeys]
    exact h
  · rw [if_neg hany, List.map_append, List.nodup_append]
    refine ⟨h, by simp, ?_⟩
    rintro a ha b hb rfl
    obtain ⟨entry, hentry, rfl⟩ := List.mem_map.mp ha
    have hb' : entry.1 = key := by simpa using hb
    exact hany (List.any_eq_true.mpr ⟨entry, hentry, beq_iff_eq.mpr hb'⟩)

theorem keys_delete (h : (map.map Prod.fst).Nodup) : ((map.delete key).map Prod.fst).Nodup :=
  h.sublist (List.filter_sublist.map Prod.fst)

end RelayMap

/-- The events about a manager. -/
def about (m : Address) (e : EventData) : Bool := relayManager e == some m

theorem keys_replay {map : RelayMap} (h : (map.map Prod.fst).Nodup) (e : EventData) :
    ((replay map e).map Prod.fst).Nodup := by
  unfold replay
  split
  · exact RelayMap.keys_set h
  · split
    · exact RelayMap.keys_delete h
    · exact h

theorem keys_foldl_replay (events : List EventData) :
    ((events.foldl replay []).map Prod.fst).Nodup := by
  induction events using List.reverseRecOn with
  | nil => exact List.nodup_nil
  | append_singleton l e ih =>
      rw [List.foldl_append]
      exact keys_replay ih e

/-- The last event about a manager decides its entry. -/
theorem mem_foldl_replay {events : List EventData} {m : Address} {info : RelayRegisteredEventInfo} :
    (m, info) ∈ events.foldl replay [] ↔
      ∃ e url, (events.filter (about m)).getLast? = some e ∧
        e.event = .RelayServerRegistered m url ∧ info = ⟨m, url⟩ := by
  induction events using List.reverseRecOn with
  | nil => simp
  | append_singleton l e ih =>
      rw [List.foldl_append, List.foldl_cons, List.foldl_nil, List.filter_append]
      -- the last event about a manager decides what its entry is
      by_cases habout : about m e = true
      · have hlast : ((l.filter (about m)) ++ [e].filter (about m)).getLast? = some e := by
          simp [habout]
        have hmanager : relayManager e = some m := beq_iff_eq.mp habout
        rw [hlast]
        unfold replay
        split
        · next m' url hevent =>
            have hm : m' = m := by
              rw [relayManager, hevent] at hmanager
              exact Option.some.inj hmanager
            subst hm
            rw [RelayMap.mem_set]
            constructor
            · rintro (⟨-, rfl⟩ | ⟨hne, -⟩)
              · exact ⟨e, url, rfl, hevent, rfl⟩
              · exact absurd rfl hne
            · rintro ⟨e', url', he', hevent', rfl⟩
              obtain rfl := Option.some.inj he'
              rw [hevent] at hevent'
              injection hevent' with _ hurl
              exact Or.inl ⟨rfl, by rw [hurl]⟩
        · next hother =>
            rw [hmanager]
            constructor
            · intro hmem
              exact absurd rfl (RelayMap.mem_delete.mp hmem).1
            · rintro ⟨e', url', he', hevent', -⟩
              obtain rfl := Option.some.inj he'
              exact absurd hevent' (hother m url')
      · have hkeep : (l.filter (about m)) ++ [e].filter (about m) = l.filter (about m) := by
          simp [habout]
        have hmanager : relayManager e ≠ some m := fun h => habout (beq_iff_eq.mpr h)
        rw [hkeep, ← ih]
        unfold replay
        split
        · next m' url hevent =>
            have hm : m ≠ m' := by
              rintro rfl
              exact hmanager (by rw [relayManager, hevent])
            rw [RelayMap.mem_set]
            simp [hm]
        · split
          · next m' hm' =>
              have hm : m ≠ m' := by
                rintro rfl
                exact hmanager hm'
              rw [RelayMap.mem_delete]
              simp [hm]
          · exact Iff.rfl

/-! ## The merged events -/

section Merged

variable {log : List EventData} {managers : List Address} {m : Address}

/-- What a query finds of one manager. -/
theorem filter_getPastEvents (hm : m ∈ managers) (names : EventData → Bool)
    (hnames : ∀ e, names e = true → (isRegistration e || isExit e) = true) :
    (getPastEvents log names managers).filter (about m) = (moves m log).filter names := by
  unfold getPastEvents moves
  rw [List.filter_filter, List.filter_filter]
  apply List.filter_congr
  intro e _
  unfold about
  by_cases habout : relayManager e = some m
  · cases hn : names e with
    | true => simp [habout, hm, hnames e hn]
    | false => simp
  · have hne : (relayManager e == some m) = false := beq_eq_false_iff_ne.mpr habout
    rw [hne]
    simp only [Bool.and_false, Bool.false_and]

/-- Nothing is found of a manager that is not asked for. -/
theorem filter_getPastEvents_of_not_mem (hm : m ∉ managers) (names : EventData → Bool) :
    (getPastEvents log names managers).filter (about m) = [] := by
  rw [List.filter_eq_nil_iff]
  intro e he habout
  obtain ⟨-, hfound⟩ := List.mem_filter.mp he
  rw [beq_iff_eq.mp habout] at hfound
  simp [hm] at hfound

/-- The moves of a manager as they are replayed. -/
def replayed (m : Address) (log : List EventData) : List EventData :=
  ((moves m log).filter isExit ++ (moves m log).filter isRegistration).insertionSort compare

theorem filter_merged (hm : m ∈ managers) :
    ((getPastEvents log isExit managers ++ getPastEvents log isRegistration managers).insertionSort
      compare).filter (about m) = replayed m log := by
  rw [filter_insertionSort compare_trans compare_total, List.filter_append,
    filter_getPastEvents hm isExit (fun e h => by simp [h]),
    filter_getPastEvents hm isRegistration (fun e h => by simp [h]), replayed]

theorem filter_merged_of_not_mem (hm : m ∉ managers) :
    ((getPastEvents log isExit managers ++ getPastEvents log isRegistration managers).insertionSort
      compare).filter (about m) = [] := by
  rw [filter_insertionSort compare_trans compare_total, List.filter_append,
    filter_getPastEvents_of_not_mem hm, filter_getPastEvents_of_not_mem hm]
  rfl

theorem mem_replayed {e : EventData} : e ∈ replayed m log ↔ e ∈ moves m log := by
  unfold replayed
  rw [List.mem_insertionSort, List.mem_append, List.mem_filter, List.mem_filter]
  constructor
  · rintro (h | h) <;> exact h.1
  · intro h
    have hmove : (isRegistration e || isExit e) = true := by
      have := (List.mem_filter.mp h).2
      simp only [Bool.and_eq_true] at this
      exact this.1
    rcases Bool.or_eq_true_iff.mp hmove with hr | he
    · exact Or.inr ⟨h, hr⟩
    · exact Or.inl ⟨h, he⟩

theorem moves_inOrder (hlog : InOrder log) : InOrder (moves m log) :=
  hlog.sublist List.filter_sublist

/-- A registration is replayed last when no other move has a later transaction. -/
theorem replayed_registration {e : EventData}
    (he : ((moves m log).filter isRegistration).getLast? = some e)
    (hlatest : ∀ a ∈ moves m log, a.transaction ≤ e.transaction) :
    (replayed m log).getLast? = some e := by
  obtain ⟨init, hinit⟩ := List.getLast?_eq_some_iff.mp he
  have hle : ∀ a ∈ (moves m log).filter isExit ++ init, compare a e := by
    intro a ha
    have hmem : a ∈ moves m log := by
      rcases List.mem_append.mp ha with h | h
      · exact (List.mem_filter.mp h).1
      · have : a ∈ (moves m log).filter isRegistration := by
          rw [hinit]
          exact List.mem_append_left _ h
        exact (List.mem_filter.mp this).1
    exact compare_iff.mpr (hlatest a hmem)
  unfold replayed
  rw [hinit, ← List.append_assoc, insertionSort_append hle]
  simp

/-- The last move is the registration that is replayed last, unless it is hidden. -/
theorem active_of_replayed (hlog : InOrder log) {e : EventData} {url : String}
    (he : (replayed m log).getLast? = some e) (hevent : e.event = .RelayServerRegistered m url)
    (hhidden : ¬ Hidden log m) : ActiveWith log m url := by
  have hmem : e ∈ moves m log := mem_replayed.mp (List.mem_of_getLast? he)
  have hregistration : isRegistration e = true := by
    rw [isRegistration, hevent]
  obtain ⟨last, hlast⟩ : ∃ last, (moves m log).getLast? = some last := by
    rw [← Option.isSome_iff_exists, List.getLast?_isSome]
    exact List.ne_nil_of_mem hmem
  have hlastMem : last ∈ moves m log := List.mem_of_getLast? hlast
  -- the sort puts the last move before `e`, the log puts `e` before the last move
  have hsorted : last.transaction ≤ e.transaction := by
    have : IsTrans EventData compare := ⟨compare_trans⟩
    have : Std.Total compare := ⟨compare_total⟩
    obtain ⟨init, hinit⟩ := List.getLast?_eq_some_iff.mp he
    have hpairwise : (replayed m log).Pairwise compare := List.pairwise_insertionSort compare _
    rw [hinit] at hpairwise
    have hin : last ∈ init ++ [e] := by
      rw [← hinit]
      exact mem_replayed.mpr hlastMem
    rcases List.mem_append.mp hin with h | h
    · exact compare_iff.mp ((List.pairwise_append.mp hpairwise).2.2 last h e List.mem_cons_self)
    · rw [List.mem_singleton.mp h]
  have hplace : e.place ≤ last.place := place_le_last (moves_inOrder hlog) hlast hmem
  have hsame : e.transaction = last.transaction := le_antisymm (transaction_le hplace) hsorted
  have hmove : isExit last = false := by
    by_contra hexit
    exact hhidden ⟨last, e, hlast, by simpa using hexit, hmem, hregistration, hsame⟩
  have hlastRegistration : isRegistration last = true := by
    have := (List.mem_filter.mp hlastMem).2
    simpa [hmove] using (Bool.and_eq_true_iff.mp this).1
  have hreplayed : (replayed m log).getLast? = some last := by
    apply replayed_registration
    · obtain ⟨init, hinit⟩ := List.getLast?_eq_some_iff.mp hlast
      rw [hinit, List.filter_append]
      simp [hlastRegistration]
    · exact fun a ha => transaction_le (place_le_last (moves_inOrder hlog) hlast ha)
  rw [he] at hreplayed
  obtain rfl := Option.some.inj hreplayed
  exact ⟨e, hlast, hevent⟩

/-- A registration that is the last move is replayed last. -/
theorem replayed_of_active (hlog : InOrder log) {e : EventData} {url : String}
    (hlast : (moves m log).getLast? = some e) (hevent : e.event = .RelayServerRegistered m url) :
    (replayed m log).getLast? = some e := by
  have hregistration : isRegistration e = true := by
    rw [isRegistration, hevent]
  apply replayed_registration
  · obtain ⟨init, hinit⟩ := List.getLast?_eq_some_iff.mp hlast
    rw [hinit, List.filter_append]
    simp [hregistration]
  · exact fun a ha => transaction_le (place_le_last (moves_inOrder hlog) hlast ha)

/-- Behind a hidden exit a registration is replayed last. -/
theorem replayed_of_hidden (hlog : InOrder log) (h : Hidden log m) :
    ∃ e, (replayed m log).getLast? = some e ∧ isRegistration e = true ∧ e ∈ moves m log := by
  obtain ⟨exit, registration, hlast, -, hmem, hregistration, hsame⟩ := h
  have hfound : registration ∈ (moves m log).filter isRegistration :=
    List.mem_filter.mpr ⟨hmem, hregistration⟩
  obtain ⟨e, he⟩ : ∃ e, ((moves m log).filter isRegistration).getLast? = some e := by
    rw [← Option.isSome_iff_exists, List.getLast?_isSome]
    exact List.ne_nil_of_mem hfound
  obtain ⟨heMem, heRegistration⟩ := List.mem_filter.mp (List.mem_of_getLast? he)
  refine ⟨e, replayed_registration he fun a ha => ?_, heRegistration, heMem⟩
  calc a.transaction ≤ exit.transaction :=
        transaction_le (place_le_last (moves_inOrder hlog) hlast ha)
    _ = registration.transaction := hsame.symm
    _ ≤ e.transaction :=
        transaction_le (place_le_last ((moves_inOrder hlog).sublist List.filter_sublist) he hfound)

end Merged

/-! ## The relays found -/

section Found

variable {log : List EventData} {managers : List Address}

theorem info_relayManager {events : List EventData} {m : Address} {info : RelayRegisteredEventInfo}
    (h : (m, info) ∈ events.foldl replay []) : info.relayManager = m := by
  obtain ⟨e, url, -, -, rfl⟩ := mem_foldl_replay.mp h
  rfl

/-- The managers found are the keys of the map. -/
theorem map_relayManager (events : List EventData) :
    ((events.foldl replay []).map (·.2)).map (·.relayManager) =
      (events.foldl replay []).map Prod.fst := by
  rw [List.map_map]
  apply List.map_congr_left
  intro entry hentry
  exact info_relayManager hentry

theorem once_origRelays (log : List EventData) (managers : List Address) :
    ((origRelays log managers).map (·.relayManager)).Nodup := by
  unfold origRelays
  rw [map_relayManager]
  exact keys_foldl_replay _

/-- What is found, in terms of the order of the replay. -/
theorem mem_origRelays {info : RelayRegisteredEventInfo} :
    info ∈ origRelays log managers ↔ info.relayManager ∈ managers ∧
      ∃ e, (replayed info.relayManager log).getLast? = some e ∧
        e.event = .RelayServerRegistered info.relayManager info.relayUrl := by
  unfold origRelays
  rw [List.mem_map]
  constructor
  · rintro ⟨⟨m, info'⟩, hentry, rfl⟩
    have hm : info'.relayManager = m := info_relayManager hentry
    obtain ⟨e, url, he, hevent, hinfo⟩ := mem_foldl_replay.mp hentry
    subst hinfo
    by_cases hmem : m ∈ managers
    · rw [filter_merged hmem] at he
      exact ⟨hmem, e, he, hevent⟩
    · rw [filter_merged_of_not_mem hmem] at he
      cases he
  · rintro ⟨hmem, e, he, hevent⟩
    refine ⟨(info.relayManager, info), mem_foldl_replay.mpr ⟨e, info.relayUrl, ?_, hevent, rfl⟩,
      rfl⟩
    rw [filter_merged hmem]
    exact he

end Found

/-- **Active relays.** On a log in order the relays found, before the filter, are the active
ones among the managers asked for, each once and with the URL of its last registration, if and
only if the last move of none of them is an exit in a transaction in which it has also
registered. -/
theorem activeRelays_iff (log : List EventData) (hlog : InOrder log) (relayManagers : List Address)
    (hne : relayManagers ≠ []) :
    Correct log relayManagers (getRelayInfoForManagers (fun _ => true) log relayManagers) ↔
      ∀ m ∈ relayManagers, ¬ Hidden log m := by
  have hempty : relayManagers.isEmpty = false := by
    simpa [List.isEmpty_iff] using hne
  have hfound : getRelayInfoForManagers (fun _ => true) log relayManagers =
      origRelays log relayManagers := by
    simp [getRelayInfoForManagers, hempty]
  rw [hfound]
  constructor
  · intro hcorrect m hm hhidden
    obtain ⟨e, he, hregistration, hmem⟩ := replayed_of_hidden hlog hhidden
    have hmanager : relayManager e = some m := by
      have := (List.mem_filter.mp hmem).2
      exact beq_iff_eq.mp (Bool.and_eq_true_iff.mp this).2
    obtain ⟨url, hevent⟩ : ∃ url, e.event = .RelayServerRegistered m url := by
      unfold isRegistration at hregistration
      split at hregistration
      next m' url hevent =>
        rw [relayManager, hevent] at hmanager
        obtain rfl := Option.some.inj hmanager
        exact ⟨url, hevent⟩
      next => cases hregistration
    have hin : (⟨m, url⟩ : RelayRegisteredEventInfo) ∈ origRelays log relayManagers :=
      mem_origRelays.mpr ⟨hm, e, he, hevent⟩
    -- it is found active, but its last move is an exit
    obtain ⟨-, last, hlast, hlastEvent⟩ := (hcorrect.active _).mp hin
    obtain ⟨exit, _, hexit, hisExit, _⟩ := hhidden
    rw [hexit] at hlast
    obtain rfl := Option.some.inj hlast
    simp [isExit, hlastEvent] at hisExit
  · intro hhidden
    refine ⟨once_origRelays log relayManagers, fun info => ?_⟩
    rw [mem_origRelays]
    constructor
    · rintro ⟨hm, e, he, hevent⟩
      exact ⟨hm, active_of_replayed hlog he hevent (hhidden _ hm)⟩
    · rintro ⟨hm, e, hlast, hevent⟩
      exact ⟨hm, e, replayed_of_active hlog hlast hevent, hevent⟩

/-! Manager `0x0c` registers and is unlocked by its owner `0x0e` in one transaction. -/

def hiddenLog : List EventData :=
  [⟨7, 0, 0, .RelayServerRegistered 0x0c "http://old"⟩,
    ⟨9, 2, 4, .RelayServerRegistered 0x0c "http://new"⟩,
    ⟨9, 2, 5, .StakeUnlocked 0x0c 0x0e 1009⟩,
    ⟨9, 3, 6, .RelayServerRegistered 0x0d "http://other"⟩]

/-- The manager is found active although its stake is unlocked. -/
theorem hiddenLog_active :
    InOrder hiddenLog ∧
      getRelayInfoForManagers (fun _ => true) hiddenLog [0x0c, 0x0d] =
        [⟨0x0c, "http://new"⟩, ⟨0x0d, "http://other"⟩] ∧
      ¬ Correct hiddenLog [0x0c, 0x0d]
        (getRelayInfoForManagers (fun _ => true) hiddenLog [0x0c, 0x0d]) := by
  have horder : InOrder hiddenLog := by decide
  have hfound : getRelayInfoForManagers (fun _ => true) hiddenLog [0x0c, 0x0d] =
      [⟨0x0c, "http://new"⟩, ⟨0x0d, "http://other"⟩] := by decide +kernel
  refine ⟨horder, hfound, fun hcorrect => ?_⟩
  rw [hfound] at hcorrect
  have hmem : (⟨0x0c, "http://new"⟩ : RelayRegisteredEventInfo) ∈
      [(⟨0x0c, "http://new"⟩ : RelayRegisteredEventInfo), ⟨0x0d, "http://other"⟩] := by simp
  obtain ⟨-, e, he, hevent⟩ := (hcorrect.active _).mp hmem
  have hlast : (moves 0x0c hiddenLog).getLast? = some ⟨9, 2, 5, .StakeUnlocked 0x0c 0x0e 1009⟩ := by
    decide
  rw [hlast] at he
  obtain rfl := Option.some.inj he
  cases hevent

/-- Without the unlock the condition holds. -/
theorem activeRelays_iff_registered :
    Correct (hiddenLog.take 2) [0x0c]
      (getRelayInfoForManagers (fun _ => true) (hiddenLog.take 2) [0x0c]) ↔
      ∀ m ∈ ([0x0c] : List Address), ¬ Hidden (hiddenLog.take 2) m :=
  activeRelays_iff (hiddenLog.take 2) (by decide) [0x0c] (by decide)

end KnownRelaysManager

end RifRelay
