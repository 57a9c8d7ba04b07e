import RifRelay.Client.KnownRelays

set_option autoImplicit false

/-! # Windows of blocks, in parts

`KnownRelaysManager.getPastEventsForHub` asks for the events of a window of blocks in parts,
and in more parts when the node refuses to return so many events. `splitRange` makes the parts
by a loop that stops when the next part would start at the last block or after it. So the last
block is left out exactly when the parts before it end there, that is, when the size of the
parts divides the distance of the first and the last block (`splitRange_iff`).
-/

namespace RifRelay

namespace KnownRelaysManager

/-! ## The code -/

structure BlockRange where
  fromBlock : Nat
  toBlock : Nat
deriving DecidableEq

/-- `Math.ceil(totalBlocks / splits)`. -/
def splitSize (fromBlock toBlock splits : Nat) : Nat :=
  (toBlock - fromBlock + 1 + (splits - 1)) / splits

/-- The loop of `splitRange`, with at most `fuel` turns left. -/
def splitLoop (toBlock splitSize : Nat) : Nat → Nat → List BlockRange
  | 0, _ => []
  | fuel + 1, b =>
      if b < toBlock then
        ⟨b, min toBlock (b + splitSize - 1)⟩ :: splitLoop toBlock splitSize fuel (b + splitSize)
      else []

/-- A turn of the loop goes forward by at least one block. -/
def splitRange (fromBlock toBlock splits : Nat) : List BlockRange :=
  splitLoop toBlock (splitSize fromBlock toBlock splits) (toBlock - fromBlock) fromBlock

/-- The names that are asked for. What the interactor calls `TransactionRejectedByRecipient` is the
hub's `TransactionRelayedButRevertedByRecipient`. -/
def isActiveManagerEvent (e : EventData) : Bool :=
  match e.event with
  | .RelayServerRegistered _ _ => true
  | .RelayWorkersAdded _ _ _ => true
  | .TransactionRelayed _ _ _ _ => true
  | .TransactionRelayedButRevertedByRecipient _ _ _ _ => true
  | _ => false

/-- The events of the hub in some blocks. -/
def hubEvents (log : List EventData) (fromBlock toBlock : Nat) : List EventData :=
  log.filter fun e =>
    isActiveManagerEvent e && (fromBlock ≤ e.blockNumber && e.blockNumber ≤ toBlock)

/-- `e.toString().match(/query returned more than/) != null`. -/
def isTooMany (e : String) : Bool := decide (1 < (e.splitOn "query returned more than").length)

/-- The attempts to get the events of a window: the node rejects the first ones with the given
errors. The result, and `relayLookupWindowParts` afterwards. -/
def getPastEventsForHub (log : List EventData) (relayLookupWindowBlocks fromBlock toBlock : Nat) :
    List String → Nat → Except String (List EventData) × Nat
  | [], relayLookupWindowParts =>
      let rangeParts := splitRange fromBlock toBlock relayLookupWindowParts
      (.ok (rangeParts.flatMap fun r => hubEvents log r.fromBlock r.toBlock),
        relayLookupWindowParts)
  | e :: rejections, relayLookupWindowParts =>
      if isTooMany e = true ∧ relayLookupWindowParts < relayLookupWindowBlocks then
        if 16 ≤ relayLookupWindowParts then
          (.error s!"Too many events after splitting by {relayLookupWindowParts}",
            relayLookupWindowParts)
        else
          getPastEventsForHub log relayLookupWindowBlocks fromBlock toBlock rejections
            (relayLookupWindowParts * 4)
      else (.error e, relayLookupWindowParts)

/-! ## What it should find -/

def BlockRange.Has (r : BlockRange) (b : Nat) : Prop := r.fromBlock ≤ b ∧ b ≤ r.toBlock

/-- The parts of a window. -/
structure Splits (fromBlock toBlock parts : Nat) (ranges : List BlockRange) : Prop where
  few : ranges.length ≤ parts
  proper : ∀ r ∈ ranges, r.fromBlock ≤ r.toBlock
  consecutive : ranges.IsChain fun r r' => r'.fromBlock = r.toBlock + 1
  disjoint : ranges.Pairwise fun r r' => ∀ b, ¬ (r.Has b ∧ r'.Has b)
  union : ∀ b, (∃ r ∈ ranges, r.Has b) ↔ fromBlock ≤ b ∧ b ≤ toBlock

/-! ## The loop -/

section Loop

variable {toBlock size : Nat}

/-- The blocks of the parts: all, but the last one if it would start a part. -/
theorem splitLoop_union (hsize : 0 < size) (fuel : Nat) :
    ∀ b, b ≤ toBlock → toBlock - b ≤ fuel → ∀ x,
      (∃ r ∈ splitLoop toBlock size fuel b, r.Has x) ↔
        b ≤ x ∧ x ≤ toBlock ∧ (size ∣ toBlock - b → x < toBlock) := by
  induction fuel with
  | zero =>
      intro b hb hfuel x
      have heq : toBlock - b = 0 := by omega
      simp only [splitLoop, List.not_mem_nil, false_and, exists_false, false_iff, heq]
      rintro ⟨hx, hx', hlast⟩
      have hlt := hlast (dvd_zero size)
      omega
  | succ fuel ih =>
      intro b hb hfuel x
      rw [splitLoop]
      by_cases hlt : b < toBlock
      · simp only [if_pos hlt, List.mem_cons, exists_eq_or_imp]
        by_cases hnext : b + size ≤ toBlock
        · -- the next turn starts inside the window
          have hdvd : size ∣ toBlock - (b + size) ↔ size ∣ toBlock - b := by
            have hsum : toBlock - b = toBlock - (b + size) + size := by omega
            rw [hsum]
            exact (Nat.dvd_add_self_right).symm
          rw [ih (b + size) hnext (by omega) x, hdvd]
          have hmin : min toBlock (b + size - 1) = b + size - 1 := by omega
          simp only [BlockRange.Has, hmin]
          constructor
          · rintro (⟨hlo, hhi⟩ | ⟨hlo, hhi, hlast⟩)
            · exact ⟨hlo, by omega, fun _ => by omega⟩
            · exact ⟨by omega, hhi, hlast⟩
          · rintro ⟨hlo, hhi, hlast⟩
            by_cases hx : x < b + size
            · exact Or.inl ⟨hlo, by omega⟩
            · exact Or.inr ⟨by omega, hhi, hlast⟩
        · -- this part is the last one, and reaches the end
          have hrest : splitLoop toBlock size fuel (b + size) = [] := by
            cases fuel with
            | zero => rfl
            | succ fuel => exact if_neg (by omega)
          have hmin : min toBlock (b + size - 1) = toBlock := by omega
          have hndvd : ¬ size ∣ toBlock - b := by
            intro hdvd
            have hle := Nat.le_of_dvd (by omega) hdvd
            omega
          simp [hrest, hmin, BlockRange.Has, hndvd]
      · have heq : toBlock - b = 0 := by omega
        simp only [if_neg hlt, List.not_mem_nil, false_and, exists_false, false_iff, heq]
        rintro ⟨hx, hx', hlast⟩
        have hend := hlast (dvd_zero size)
        omega

/-- Every part starts where the part before it has ended. -/
theorem splitLoop_parts (toBlock : Nat) {size : Nat} (hsize : 0 < size) (fuel : Nat) :
    ∀ b, (∀ r ∈ splitLoop toBlock size fuel b, r.fromBlock ≤ r.toBlock ∧ b ≤ r.fromBlock) ∧
      (splitLoop toBlock size fuel b).IsChain (fun r r' => r'.fromBlock = r.toBlock + 1) ∧
      ∀ r ∈ (splitLoop toBlock size fuel b).head?, r.fromBlock = b ∧ b < toBlock := by
  induction fuel with
  | zero => simp [splitLoop]
  | succ fuel ih =>
      intro b
      rw [splitLoop]
      by_cases hlt : b < toBlock
      · obtain ⟨hproper, hchain, hhead⟩ := ih (b + size)
        rw [if_pos hlt]
        refine ⟨?_, ?_, ?_⟩
        · rw [List.forall_mem_cons]
          refine ⟨⟨show b ≤ min toBlock (b + size - 1) by omega, le_refl b⟩, fun r hr => ?_⟩
          have hr' := hproper r hr
          omega
        · refine List.isChain_cons.mpr ⟨fun r hr => ?_, hchain⟩
          obtain ⟨hfrom, hend⟩ := hhead r hr
          show r.fromBlock = min toBlock (b + size - 1) + 1
          omega
        · rintro r hr
          obtain rfl := Option.some.inj hr
          exact ⟨rfl, hlt⟩
      · rw [if_neg hlt]
        simp

theorem splitLoop_length (k : Nat) : ∀ fuel b, toBlock - b ≤ size * k →
    (splitLoop toBlock size fuel b).length ≤ k := by
  induction k with
  | zero =>
      intro fuel b hb
      cases fuel with
      | zero => exact le_refl 0
      | succ fuel =>
          rw [splitLoop, if_neg (by rw [Nat.mul_zero] at hb; omega)]
          exact le_refl 0
  | succ k ih =>
      intro fuel b hb
      cases fuel with
      | zero => exact Nat.zero_le _
      | succ fuel =>
          rw [splitLoop]
          split
          · have hrest := ih fuel (b + size) (by rw [Nat.mul_succ] at hb; omega)
            simpa using hrest
          · exact Nat.zero_le _

/-- Consecutive parts follow each other. -/
theorem ordered_of_consecutive {ranges : List BlockRange}
    (hproper : ∀ r ∈ ranges, r.fromBlock ≤ r.toBlock)
    (hchain : ranges.IsChain fun r r' => r'.fromBlock = r.toBlock + 1) :
    ranges.Pairwise fun r r' => r.toBlock < r'.fromBlock := by
  induction ranges with
  | nil => exact .nil
  | cons r ranges ih =>
      obtain ⟨hfirst, hrest⟩ := List.isChain_cons.mp hchain
      have hpairwise := ih (fun r' hr' => hproper r' (List.mem_cons_of_mem r hr')) hrest
      refine List.pairwise_cons.mpr ⟨fun r' hr' => ?_, hpairwise⟩
      cases ranges with
      | nil => cases hr'
      | cons r₁ ranges =>
          have hnext : r₁.fromBlock = r.toBlock + 1 := hfirst r₁ rfl
          have hr₁ := hproper r₁ (by simp)
          rcases List.mem_cons.mp hr' with rfl | hmem
          · omega
          · have hlater := (List.pairwise_cons.mp hpairwise).1 r' hmem
            omega

end Loop

section Split

variable {fromBlock toBlock parts : Nat}

theorem splitSize_pos (hparts : 0 < parts) : 0 < splitSize fromBlock toBlock parts := by
  unfold splitSize
  exact Nat.div_pos (by omega) hparts

/-- The parts are as many blocks as asked for, or more. -/
theorem le_splitSize (fromBlock toBlock : Nat) {parts : Nat} (hparts : 0 < parts) :
    toBlock - fromBlock + 1 ≤ splitSize fromBlock toBlock parts * parts := by
  unfold splitSize
  have hdiv := Nat.div_add_mod (toBlock - fromBlock + 1 + (parts - 1)) parts
  have hmod := Nat.mod_lt (toBlock - fromBlock + 1 + (parts - 1)) hparts
  rw [Nat.mul_comm]
  omega

/-- The blocks that `splitRange` finds. -/
theorem splitRange_union (hle : fromBlock ≤ toBlock) (hparts : 0 < parts) (x : Nat) :
    (∃ r ∈ splitRange fromBlock toBlock parts, r.Has x) ↔
      fromBlock ≤ x ∧ x ≤ toBlock ∧
        (splitSize fromBlock toBlock parts ∣ toBlock - fromBlock → x < toBlock) :=
  splitLoop_union (splitSize_pos hparts) _ fromBlock hle (le_refl _) x

/-- The parts come one after the other. -/
theorem splitRange_ordered (hparts : 0 < parts) :
    (splitRange fromBlock toBlock parts).Pairwise fun r r' => r.toBlock < r'.fromBlock := by
  obtain ⟨hproper, hchain, -⟩ := splitLoop_parts toBlock
    (splitSize_pos hparts : 0 < splitSize fromBlock toBlock parts) (toBlock - fromBlock) fromBlock
  exact ordered_of_consecutive (fun r hr => (hproper r hr).1) hchain

/-- **Splitting a window.** The parts are those of the window if and only if their size does not
divide the distance of the first and the last block. -/
theorem splitRange_iff (hle : fromBlock ≤ toBlock) (hparts : 0 < parts) :
    Splits fromBlock toBlock parts (splitRange fromBlock toBlock parts) ↔
      ¬ splitSize fromBlock toBlock parts ∣ toBlock - fromBlock := by
  have hunion := splitRange_union hle hparts
  constructor
  · intro hsplits hdvd
    have hlast := (hunion toBlock).mp ((hsplits.union toBlock).mpr ⟨hle, le_refl _⟩)
    exact absurd (hlast.2.2 hdvd) (lt_irrefl _)
  · intro hndvd
    obtain ⟨hproper, hchain, -⟩ := splitLoop_parts toBlock
      (splitSize_pos hparts : 0 < splitSize fromBlock toBlock parts) (toBlock - fromBlock) fromBlock
    refine ⟨?_, fun r hr => (hproper r hr).1, hchain, ?_, ?_⟩
    · apply splitLoop_length
      have hcover := le_splitSize fromBlock toBlock hparts
      omega
    · refine (splitRange_ordered hparts).imp ?_
      rintro r r' hlt b ⟨⟨-, hb⟩, ⟨hb', -⟩⟩
      omega
    · intro b
      rw [hunion b]
      constructor
      · rintro ⟨hlo, hhi, -⟩
        exact ⟨hlo, hhi⟩
      · rintro ⟨hlo, hhi⟩
        exact ⟨hlo, hhi, fun hdvd => absurd hdvd hndvd⟩

end Split

/-! ## The events -/

section Events

/-- What is picked first stands in front of what is picked next. -/
theorem filter_append_filter {α : Type} {f : α → Nat} {p q : α → Bool} {l : List α}
    (hl : l.Pairwise fun a b => f a ≤ f b)
    (hpq : ∀ a b, p a = true → q b = true → f a < f b) :
    l.filter p ++ l.filter q = l.filter fun a => p a || q a := by
  induction l with
  | nil => rfl
  | cons a l ih =>
      obtain ⟨hfirst, hrest⟩ := List.pairwise_cons.mp hl
      cases hp : p a with
      | true =>
          -- `q` picks nothing that `p` picks
          have hq : q a = false := by
            by_contra hne
            have hlt := hpq a a hp (by simpa using hne)
            omega
          simp [hp, hq, ih hrest]
      | false =>
          cases hq : q a with
          | true =>
              have hnone : l.filter p = [] := by
                rw [List.filter_eq_nil_iff]
                intro b hb hpb
                have hlt := hpq b a hpb hq
                have hle := hfirst b hb
                omega
              have hrest' := ih hrest
              rw [hnone, List.nil_append] at hrest'
              simp [hp, hq, hnone, hrest']
          | false => simp [hp, hq, ih hrest]

theorem blockNumber_le {log : List EventData} (hlog : InOrder log) :
    log.Pairwise fun a b => a.blockNumber ≤ b.blockNumber := by
  refine hlog.imp fun {a b} hlt => ?_
  have hle := transaction_le (le_of_lt hlt)
  unfold EventData.transaction at hle
  rw [Prod.Lex.toLex_le_toLex] at hle
  rcases hle with hblock | ⟨hblock, -⟩
  · exact le_of_lt hblock
  · exact le_of_eq hblock

/-- The events that parts find one after the other are those of all their blocks. -/
theorem flatMap_hubEvents {log : List EventData} (hlog : InOrder log) {ranges : List BlockRange}
    (hordered : ranges.Pairwise fun r r' => r.toBlock < r'.fromBlock) :
    (ranges.flatMap fun r => hubEvents log r.fromBlock r.toBlock) =
      log.filter fun e => isActiveManagerEvent e &&
        ranges.any fun r =>
          decide (r.fromBlock ≤ e.blockNumber) && decide (e.blockNumber ≤ r.toBlock) := by
  induction ranges with
  | nil => simp
  | cons r ranges ih =>
      obtain ⟨hfirst, hrest⟩ := List.pairwise_cons.mp hordered
      rw [List.flatMap_cons, ih hrest, hubEvents, filter_append_filter (blockNumber_le hlog)]
      · apply List.filter_congr
        intro e _
        simp [← Bool.and_or_distrib_left]
      · intro a b ha hb
        simp only [Bool.and_eq_true, decide_eq_true_eq] at ha
        simp only [Bool.and_eq_true, List.any_eq_true, decide_eq_true_eq] at hb
        obtain ⟨-, r', hr', hlo, -⟩ := hb
        have hlt := hfirst r' hr'
        omega

variable {log : List EventData} {fromBlock toBlock parts : Nat}

/-- The events found are all, but those of the last block if it is left out. -/
theorem events_iff (hlog : InOrder log) (hle : fromBlock ≤ toBlock) (hparts : 0 < parts) :
    ((splitRange fromBlock toBlock parts).flatMap fun r => hubEvents log r.fromBlock r.toBlock) =
        hubEvents log fromBlock toBlock ↔
      ¬ splitSize fromBlock toBlock parts ∣ toBlock - fromBlock ∨
        hubEvents log toBlock toBlock = [] := by
  have hfound : ∀ e : EventData, (splitRange fromBlock toBlock parts).any (fun r =>
      decide (r.fromBlock ≤ e.blockNumber) && decide (e.blockNumber ≤ r.toBlock)) = true ↔
        fromBlock ≤ e.blockNumber ∧ e.blockNumber ≤ toBlock ∧
          (splitSize fromBlock toBlock parts ∣ toBlock - fromBlock → e.blockNumber < toBlock) := by
    intro e
    rw [← splitRange_union hle hparts e.blockNumber]
    simp [BlockRange.Has]
  rw [flatMap_hubEvents hlog (splitRange_ordered hparts)]
  constructor
  · intro heq
    by_contra hcon
    obtain ⟨hdvd, hne⟩ := not_or.mp hcon
    rw [not_not] at hdvd
    obtain ⟨e, he⟩ := List.exists_mem_of_ne_nil _ hne
    -- an event of the last block is in the window, and is not found
    simp only [hubEvents, List.mem_filter, Bool.and_eq_true, decide_eq_true_eq] at he
    obtain ⟨hmem, hactive, hlo, hhi⟩ := he
    have hin : e ∈ hubEvents log fromBlock toBlock := by
      simp only [hubEvents, List.mem_filter, Bool.and_eq_true, decide_eq_true_eq]
      exact ⟨hmem, hactive, by omega, hhi⟩
    rw [← heq, List.mem_filter, Bool.and_eq_true] at hin
    have hlt := ((hfound e).mp hin.2.2).2.2 hdvd
    omega
  · intro hcase
    apply List.filter_congr
    intro e he
    rw [Bool.eq_iff_iff, Bool.and_eq_true, Bool.and_eq_true, hfound]
    simp only [Bool.and_eq_true, decide_eq_true_eq]
    constructor
    · rintro ⟨hactive, hlo, hhi, -⟩
      exact ⟨hactive, hlo, hhi⟩
    · rintro ⟨hactive, hlo, hhi⟩
      refine ⟨hactive, hlo, hhi, fun hdvd => ?_⟩
      rcases hcase with hndvd | hnone
      · exact absurd hdvd hndvd
      · by_contra hlast
        have hin : e ∈ hubEvents log toBlock toBlock := by
          simp only [hubEvents, List.mem_filter, Bool.and_eq_true, decide_eq_true_eq]
          exact ⟨he, hactive, by omega, hhi⟩
        rw [hnone] at hin
        cases hin

/-- Whatever attempts were rejected, the result is that of the parts in use at the end. -/
theorem getPastEventsForHub_ok {blocks : Nat} {rejections : List String} {events : List EventData}
    {parts' : Nat} (hparts : 0 < parts)
    (h : getPastEventsForHub log blocks fromBlock toBlock rejections parts = (.ok events, parts')) :
    0 < parts' ∧ events = (splitRange fromBlock toBlock parts').flatMap fun r =>
      hubEvents log r.fromBlock r.toBlock := by
  induction rejections generalizing parts with
  | nil =>
      obtain ⟨hevents, rfl⟩ := Prod.mk.inj h
      exact ⟨hparts, (Except.ok.inj hevents).symm⟩
  | cons e rejections ih =>
      rw [getPastEventsForHub] at h
      split at h
      · split at h
        · cases (Prod.mk.inj h).1
        · exact ih (by omega) h
      · cases (Prod.mk.inj h).1

end Events

/-- **Windows in parts.** `splitRange` makes the parts of a window if and only if their size does
not divide the distance of the first and the last block. Whenever `getPastEventsForHub` returns,
after any rejections, it returns the events of the window if and only if this holds of the parts
in use at the end, or the last block has no events. -/
theorem window_iff (fromBlock toBlock parts : Nat) (hle : fromBlock ≤ toBlock)
    (hparts : 1 ≤ parts) :
    (Splits fromBlock toBlock parts (splitRange fromBlock toBlock parts) ↔
      ¬ splitSize fromBlock toBlock parts ∣ toBlock - fromBlock) ∧
    ∀ log, InOrder log → ∀ blocks rejections events parts',
      getPastEventsForHub log blocks fromBlock toBlock rejections parts = (.ok events, parts') →
        (events = hubEvents log fromBlock toBlock ↔
          ¬ splitSize fromBlock toBlock parts' ∣ toBlock - fromBlock ∨
            hubEvents log toBlock toBlock = []) := by
  refine ⟨splitRange_iff hle hparts, ?_⟩
  intro log hlog blocks rejections events parts' hreturn
  obtain ⟨hparts', rfl⟩ := getPastEventsForHub_ok hparts hreturn
  exact events_iff hlog hle hparts'

/-- Ten blocks in three parts: the condition holds. -/
theorem window_iff_ten :
    Splits 1 10 3 (splitRange 1 10 3) ↔ ¬ splitSize 1 10 3 ∣ 10 - 1 :=
  (window_iff 1 10 3 (by decide) (by decide)).1

/-- Of five blocks in four parts the last one is lost, and so is a window of one block. A relay
that registers in the last block is not found. -/
theorem window_loses_last_block :
    splitRange 1 5 4 = [⟨1, 2⟩, ⟨3, 4⟩] ∧ splitRange 5 5 1 = [] ∧
      ¬ Splits 1 5 4 (splitRange 1 5 4) ∧
      getPastEventsForHub [⟨5, 0, 0, .RelayServerRegistered 0x0c "http://relay"⟩] 10 1 5 [] 4 =
        (.ok [], 4) := by
  have hsplit : splitRange 1 5 4 = [⟨1, 2⟩, ⟨3, 4⟩] := by decide
  refine ⟨hsplit, by decide, fun h => ?_, by rfl⟩
  obtain ⟨r, hr, hlo, hhi⟩ := (h.union 5).mpr (by decide)
  rw [hsplit] at hr
  simp only [List.mem_cons, List.not_mem_nil, or_false] at hr
  rcases hr with rfl | rfl
  · exact absurd hhi (by decide)
  · exact absurd hhi (by decide)

end KnownRelaysManager

end RifRelay
