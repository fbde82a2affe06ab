import FlipperApps.Calls.Interruption
import FlipperApps.Calls.Monitor
import Mathlib.Logic.Relation

/-!
# Programs that run beside another component

The other component steps between the calls, and while one is under way. What a
monitor knows of the calls may describe the state as long as each allowed call
and each step of the other component keep the description true.
-/

namespace FlipperApps.Calls
variable {I : Interface} {σ β μ α : Type}

/-- Before each call the other component takes any number of steps. -/
def Environment.under (E : Environment I σ) (R : σ → σ → Prop) : Environment I σ :=
  fun s c r s' => ∃ s₁, Relation.ReflTransGen R s s₁ ∧ E s₁ c r s'

def besides (R : σ → σ → Prop) : σ → I.Call → σ → Prop :=
  fun s _ s' => Relation.ReflTransGen R s s'

def Environment.recorded (E : Environment I σ) (observe : β → Event I → β) :
    Environment I (σ × β) :=
  fun s c r s' => E s.1 c r s'.1 ∧ s'.2 = observe s.2 ⟨c, r⟩

variable {E : Environment I σ} {R : σ → σ → Prop} {p : Program I α} {s : σ}

theorem always_recorded {observe : β → Event I → β} {b : β} {Q : Post I σ α}
    (h : Always E p s Q) :
    Always (E.recorded observe) p (s, b) fun t a s' => Q t a s'.1 ∧ s'.2 = t.foldl observe b := by
  induction p generalizing s b Q with
  | done a => exact ⟨h, rfl⟩
  | call c next ih =>
    intro r s' hE
    obtain ⟨s', b'⟩ := s'
    obtain ⟨hE, rfl⟩ := hE
    exact ih r (h r s' hE)

theorem stable_star {P : σ → Prop} (hR : ∀ s s', P s → R s s' → P s') {s s' : σ}
    (hs : P s) (h : Relation.ReflTransGen R s s') : P s' := by
  induction h with
  | refl => exact hs
  | tail _ hlast ih => exact hR _ _ ih hlast

/-- Where the other component cannot step, a program runs as if it were alone. -/
theorem always_under {quiet : σ → Prop} {allowed : I.Call → Prop} {Q : Post I σ α}
    (hquiet : ∀ s s', quiet s → ¬ R s s')
    (hkeep : ∀ s c r s', allowed c → quiet s → E s c r s' → quiet s')
    (hp : p.Uses allowed) (hs : quiet s) (h : Always E p s Q) :
    Always (E.under R) p s fun t a s' => Q t a s' ∧ quiet s' := by
  induction p generalizing s Q with
  | done a => exact ⟨h, hs⟩
  | call c next ih =>
    intro r s' hunder
    obtain ⟨s₁, hstar, hE⟩ := hunder
    obtain rfl : s₁ = s := by
      apply stable_star (P := (· = s)) _ rfl hstar
      intro s₂ s₃ heq hstep
      subst heq
      exact absurd hstep (hquiet _ _ hs)
    exact ih r (hp.2 r) (hkeep _ _ _ _ hp.1 hs hE) (h r s' hE)

theorem Executes.under {t : List (Event I)} {a : α} {s' : σ} (h : Executes E p s t a s') :
    Executes (E.under R) p s t a s' :=
  h.mono fun s _ _ _ hE => ⟨s, .refl, hE⟩

theorem Executes.recorded {observe : β → Event I → β} {t : List (Event I)} {a : α} {s' : σ}
    (h : Executes E p s t a s') (b : β) :
    Executes (E.recorded observe) p (s, b) t a (s', t.foldl observe b) := by
  induction h generalizing b with
  | done a s => exact .done a (s, b)
  | call hE _ ih => exact .call ⟨hE, rfl⟩ (ih _)

theorem always_record {observe : β → Event I → β} {R : σ × β → σ × β → Prop} {s : σ × β}
    {allowed : I.Call → Prop} {P : β → Prop}
    (hcall : ∀ b c r, allowed c → P b → P (observe b ⟨c, r⟩))
    (hother : ∀ s s', P s.2 → R s s' → P s'.2) (hp : p.Uses allowed) (hs : P s.2) :
    Always ((E.recorded observe).under R) p s fun _ _ s' => P s'.2 := by
  apply always_invariant (P := fun s : σ × β => P s.2) _ hp hs
  intro s c r s' hc hs hunder
  obtain ⟨s₁, hstar, -, hrecord⟩ := hunder
  rw [hrecord]
  exact hcall _ _ _ hc (stable_star (P := fun s : σ × β => P s.2) hother hs hstar)

namespace Monitor
variable {M : Monitor I μ} {m : μ} {Q : α → μ → Prop} {Sim : μ → σ → Prop}

theorem Accepts.of_uses {allowed : I.Call → Prop} {P : α → Prop}
    (hkeep : ∀ c, allowed c → M.allows m c ∧ ∀ r, M.observe m ⟨c, r⟩ = m)
    (hp : p.Uses allowed) (hreturns : p.Returns P) :
    M.Accepts p m fun a m' => P a ∧ m' = m := by
  induction p with
  | done a => exact ⟨hreturns, rfl⟩
  | call c next ih =>
    obtain ⟨hallows, hsame⟩ := hkeep c hp.1
    refine ⟨hallows, fun r => ?_⟩
    rw [hsame r]
    exact ih r (hp.2 r) (hreturns r)

structure Tracks (M : Monitor I μ) (Sim : μ → σ → Prop) (E : Environment I σ)
    (R : σ → σ → Prop) : Prop where
  call : ∀ m s c r s', M.allows m c → Sim m s → E s c r s' → Sim (M.observe m ⟨c, r⟩) s'
  other : ∀ m s s', Sim m s → R s s' → Sim m s'

theorem Tracks.star (h : M.Tracks Sim E R) {s' : σ} (hs : Sim m s)
    (hstar : Relation.ReflTransGen R s s') : Sim m s' :=
  stable_star (h.other m) hs hstar

theorem Accepts.tracked (h : M.Accepts p m Q) (htracks : M.Tracks Sim E R) (hs : Sim m s) :
    Always (E.under R) p s fun t a s' =>
      M.Obeyed m t ∧ Q a (M.after m t) ∧ Sim (M.after m t) s' := by
  induction p generalizing m s with
  | done a => exact ⟨obeyed_nil, h, hs⟩
  | call c next ih =>
    intro r s' hunder
    obtain ⟨s₁, hstar, hE⟩ := hunder
    have hnext := htracks.call _ _ _ _ _ h.1 (htracks.star hs hstar) hE
    apply (ih r (h.2 r) hnext).mono
    intro t a s'' hafter
    exact ⟨obeyed_cons.mpr ⟨h.1, hafter.1⟩, hafter.2⟩

theorem Accepts.throughout (h : M.Accepts p m Q) (htracks : M.Tracks Sim E R) (hs : Sim m s) :
    Throughout (E.under R) (besides R) p s fun s' => ∃ m', Sim m' s' := by
  induction p generalizing m s with
  | done a => exact ⟨m, hs⟩
  | call c next ih =>
    refine ⟨⟨m, hs⟩, fun s' hduring => ⟨m, htracks.star hs hduring⟩, fun r s' hunder => ?_⟩
    obtain ⟨s₁, hstar, hE⟩ := hunder
    exact ih r (h.2 r) (htracks.call _ _ _ _ _ h.1 (htracks.star hs hstar) hE)

end Monitor
end FlipperApps.Calls
