import FlipperApps.Calls.Rules

/-!
# What holds wherever an execution is cut off

`Throughout E during p s Q` says that `Q` holds of the state at every point at
which an execution of `p` from `s` may stop: before each call, while a call is
under way, and at the end.
-/

namespace FlipperApps.Calls
variable {I : Interface} {σ α β : Type}

def Throughout (E : Environment I σ) (during : σ → I.Call → σ → Prop) :
    Program I α → σ → (σ → Prop) → Prop
  | .done _, s, Q => Q s
  | .call c next, s, Q => Q s ∧ (∀ s', during s c s' → Q s') ∧
      ∀ r s', E s c r s' → Throughout E during (next r) s' Q

variable {E : Environment I σ} {during : σ → I.Call → σ → Prop} {p : Program I α} {s : σ}
  {Q R : σ → Prop}

theorem throughout_iff :
    Throughout E during p s Q ↔ ∀ t s', Stops E during p s t s' → Q s' := by
  induction p generalizing s with
  | done a =>
    constructor
    · intro h t s' h'
      cases h'
      exact h
    · exact fun h => h _ _ (.here _ s)
  | call c next ih =>
    constructor
    · intro h t s' hstop
      obtain ⟨hs, hduring, hnext⟩ := h
      cases hstop with
      | here => exact hs
      | within hd => exact hduring _ hd
      | later hE hrest => exact (ih _).mp (hnext _ _ hE) _ _ hrest
    · intro h
      refine ⟨h _ _ (.here _ s), fun s' hd => h _ _ (.within hd), fun r s' hE => ?_⟩
      exact (ih r).mpr fun t s'' hrest => h _ _ (.later hE hrest)

theorem Throughout.mono (h : Throughout E during p s Q) (hQR : ∀ s', Q s' → R s') :
    Throughout E during p s R := by
  rw [throughout_iff] at h ⊢
  exact fun t s' hstop => hQR s' (h t s' hstop)

theorem Throughout.final (h : Throughout E during p s Q) : Always E p s fun _ _ s' => Q s' := by
  induction p generalizing s with
  | done a => exact h
  | call c next ih => exact fun r s' hE => ih r (h.2.2 r s' hE)

theorem Throughout.bind {f : α → Program I β} {P : Post I σ α} (h : Throughout E during p s Q)
    (hp : Always E p s P) (hf : ∀ t a s', P t a s' → Throughout E during (f a) s' Q) :
    Throughout E during (p >>= f) s Q := by
  induction p generalizing s P with
  | done a => exact hf _ _ _ hp
  | call c next ih =>
    refine ⟨h.1, h.2.1, fun r s' hE => ?_⟩
    exact ih r (h.2.2 r s' hE) (hp r s' hE) fun t a s'' => hf _ a s''

theorem throughout_of_uses {allowed : I.Call → Prop} (hs : Q s)
    (hduring : ∀ s c s', allowed c → Q s → during s c s' → Q s')
    (hstep : ∀ s c r s', allowed c → Q s → E s c r s' → Q s') (hp : p.Uses allowed) :
    Throughout E during p s Q := by
  induction p generalizing s with
  | done a => exact hs
  | call c next ih =>
    refine ⟨hs, fun s' => hduring s c s' hp.1 hs, fun r s' hE => ?_⟩
    exact ih r (hstep s c r s' hp.1 hs hE) (hp.2 r)

end FlipperApps.Calls
