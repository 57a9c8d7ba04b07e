import RifRelay.Contracts.Guard
import RifRelay.Contracts.HubSpec
import RifRelay.Machine.EventPath

set_option autoImplicit false

/-! # The history of a hub is the effects of its messages

At every point of every run the storage of the hub is what the messages of the history made
of it, one after the other: a message to the hub had its `Effect`, all others had none
(`effects_point`). This needs no assumption on stakes or coins. What holds of the storage of
a hub follows by going through the effects.
-/

namespace RifRelay

open CallMachine

namespace RelayHub

variable {χ : Type} {E : Env} {O : Outside E χ} {w₀ : World χ} {H : Address}

/-- What an entry of the history does to the storage of the hub at `H`. -/
structure Acts (H : Address) (e : Entry (World χ) Msg) (hub hub' : RelayHub) : Prop where
  pre : e.pre.hubs H = hub
  own : e.msg.self = H → Effect e.msg hub hub'
  other : e.msg.self ≠ H → hub' = hub

/-- The hub has its code, and its storage comes from the effects of the history. -/
structure EffectInv (E : Env) (w₀ : World χ) (H : Address) (c : ChainConf χ) : Prop where
  kept : CodeKept E w₀ (· = H) c.state
  path : EventPath (Acts H) (w₀.hubs H) c.trace (c.state.hubs H)

theorem EffectInv.congr {c c' : ChainConf χ} (h : EffectInv E w₀ H c)
    (hcode : c'.state.code = c.state.code) (hhub : c'.state.hubs H = c.state.hubs H)
    (htrace : c'.trace = c.trace) : EffectInv E w₀ H c' where
  kept := h.kept.congr hcode
  path := by
    rw [htrace, hhub]
    exact h.path

/-- A message to another account. -/
theorem EffectInv.entered_other {c : ChainConf χ} {msg : Msg} {s : World χ}
    (h : EffectInv E w₀ H c) (hself : msg.self ≠ H) (henter : enter msg c.state = some s) :
    EffectInv E w₀ H (c.entered msg s) := by
  refine ⟨h.kept.enter henter, ?_⟩
  have hhub : s.hubs = c.state.hubs := by
    obtain ⟨b, rfl, -⟩ := enter_frame henter
    rfl
  rw [Conf.entered_state, hhub]
  exact h.path.snoc ⟨rfl, fun heq => absurd heq hself, fun _ => rfl⟩

/-- A message to the hub, after its effect. -/
theorem EffectInv.effected {c : ChainConf χ} {msg : Msg} {s : World χ} {hub' : RelayHub}
    {events : List Event} (h : EffectInv E w₀ H c) (hself : msg.self = H)
    (henter : enter msg c.state = some s) (heffect : Effect msg (c.state.hubs H) hub') :
    EffectInv E w₀ H ((c.entered msg s).put (after s msg.self hub' events)) := by
  refine ⟨(h.kept.enter henter).congr rfl, ?_⟩
  have hstored : (after s msg.self hub' events).hubs H = hub' := by
    rw [← hself]
    simp [after, World.setHub]
  rw [Conf.put_state, hstored]
  exact h.path.snoc ⟨rfl, fun _ => heffect, fun hne => absurd hself hne⟩

variable {creation : Bytes}

/-- What every message is sent under. -/
def EffectPre (E : Env) (w₀ : World χ) (H : Address) (msg : Msg) (c : ChainConf χ) : Prop :=
  Addressed (· = H) msg ∧ EffectInv E w₀ H c

/-- **The frame of the hub**: its effect, then its calls, then events. -/
theorem effect_frame {c : ChainConf χ} {msg : Msg} {s : World χ}
    (hi : EffectInv E w₀ H c) (hself : msg.self = H) (henter : enter msg c.state = some s) :
    wp (guardSpec (EffectPre E w₀ H) (fun _ c => EffectInv E w₀ H c) msg.tx).tracked
      (code E msg) (fun _ c' => EffectInv E w₀ H c') (c.entered msg s) := by
  have hhubs : s.hubs = c.state.hubs := by
    obtain ⟨b, rfl, -⟩ := enter_frame henter
    rfl
  have hafter : ∀ hub' events, Effect msg (c.state.hubs H) hub' →
      EffectInv E w₀ H ((c.entered msg s).put (after s msg.self hub' events)) :=
    fun hub' events heffect => hi.effected hself henter heffect
  -- a function that does not write has been entered without a change
  have hquiet : Effect msg (c.state.hubs H) (c.state.hubs H) →
      EffectInv E w₀ H (c.entered msg s) := by
    intro heffect
    refine (hafter _ [] heffect).congr rfl ?_ rfl
    rw [← hself, Conf.entered_state, Conf.put_state, hhubs]
    simp [after, World.setHub]
  have hlog : ∀ (c' : ChainConf χ) events, EffectInv E w₀ H c' → EffectInv E w₀ H
      (c'.put (after c'.state msg.self (c'.state.hubs msg.self) events)) := by
    intro c' events h
    refine h.congr rfl ?_ rfl
    rw [← hself]
    simp [after, World.setHub]
  refine wp_code (c.state.hubs H) (by rw [Conf.entered_state, hhubs, hself]) ?_ ?_ ?_ ?_ ?_
  · intro hub' events ret heffect _ _ _ _ _
    exact hafter hub' events heffect
  · intro relayRequest signature hdata hguard
    refine ⟨⟨rfl, Addressed.callTo _ _ _ _ _,
      hquiet (.relayCall relayRequest signature hdata hguard)⟩, ?_⟩
    rintro ret c' ⟨hok, -⟩ success data -
    exact hlog _ _ (hok ⟨ret, rfl⟩)
  · intro deployRequest signature hdata hguard
    refine ⟨⟨rfl, Addressed.callTo _ _ _ _ _,
      hquiet (.deployCall deployRequest signature hdata hguard)⟩, ?_⟩
    rintro ret c' ⟨hok, -⟩
    exact hok ⟨ret, rfl⟩
  · intro relayManager hdata heffect
    refine ⟨⟨rfl, Addressed.callTo _ _ _ _ _, hafter _ [] heffect⟩, ?_⟩
    rintro ret c' ⟨hok, -⟩
    exact hlog _ _ (hok ⟨ret, rfl⟩)
  · intro relayWorker beneficiary relayManager hdata hmanager heffect
    refine ⟨⟨rfl, Addressed.callTo _ _ _ _ _, hafter _ [] heffect⟩, ?_⟩
    rintro ret₁ c₂ ⟨hok₁, -⟩
    refine ⟨⟨rfl, Addressed.callTo _ _ _ _ _, hok₁ ⟨ret₁, rfl⟩⟩, ?_⟩
    rintro ret₂ c₃ ⟨hok₂, -⟩
    exact hlog _ _ (hok₂ ⟨ret₂, rfl⟩)

theorem effects_guarded (hcode : w₀.code H = some ⟨.relayHub, creation⟩)
    (hcodeless : ∀ a, E.codeless a = true → w₀.code a = none) :
    Guarded E O w₀ (· = H) (EffectPre E w₀ H) (fun _ c => EffectInv E w₀ H c) where
  start := fun _ => ⟨⟨fun _ _ => rfl, hcodeless⟩, rfl⟩
  wait := fun _ _ _ _ hi => hi
  answered := fun _ _ _ _ hi => hi.congr rfl rfl rfl
  codeless := by
    intro b c a hi ha
    refine hi.kept.not_codeless ?_ ha
    rintro a rfl
    simp [hcode]
  write := by
    intro b c msg s hi hself hw
    refine ⟨hi.kept.write ?_ (fun h => absurd h hself) hw, ?_⟩
    · rintro a rfl
      simp [hcode]
    · rw [Conf.put_state, hw.hubs H (Ne.symm hself)]
      exact hi.path
  sends := fun _ _ _ hi hself hm => ⟨Addressed.of_local hself hm, hi⟩
  enter := fun _ _ _ hp hself henter => hp.2.entered_other hself henter
  own := by
    rintro c msg s ⟨haddress, hi⟩ hself henter
    have hrun : codeOf E O msg s = code E msg := by
      obtain ⟨b, rfl, -⟩ := enter_frame henter
      rw [codeOf, haddress.codeAddress hself, hself, hi.kept.code _ rfl, hcode]
      rfl
    rw [hrun]
    exact effect_frame hi hself henter

/-- At every point of a run the invariant holds. -/
theorem effects_point (hcode : w₀.code H = some ⟨.relayHub, creation⟩)
    (hcodeless : ∀ a, E.codeless a = true → w₀.code a = none) {b : Word} {point : Option Msg}
    {c : ChainConf χ} (hc : Point E O w₀ b point c) : EffectInv E w₀ H c := by
  rcases (effects_guarded hcode hcodeless).point hc with ⟨-, hi⟩ | ⟨-, -, -, -, hi⟩
  · exact hi
  · exact hi

end RelayHub

end RifRelay
