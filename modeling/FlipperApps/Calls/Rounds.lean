import FlipperApps.Calls.Monitor
import FlipperApps.Calls.Transition

/-!
# Runs in rounds

Each step of a run has a trace of its own, and one monitor watches them all. What
a step keeps between its state and the monitor's holds between all rounds.
-/

namespace FlipperApps.Calls
variable {I : Interface} {μ σ : Type}

namespace Monitor
variable {M : Monitor I μ} {m : μ} {P Q : μ → Prop} {t : List (Event I)}
  {rounds rounds' : List (List (Event I))}

def Between (M : Monitor I μ) (m : μ) (P : μ → Prop) (rounds : List (List (Event I))) : Prop :=
  ∀ past rest, rounds = past ++ rest → P (M.after m past.flatten)

theorem between_nil : M.Between m P [] ↔ P m := by
  constructor
  · exact fun h => h [] [] rfl
  · intro h past rest heq
    obtain ⟨rfl, -⟩ := List.append_eq_nil_iff.mp heq.symm
    exact h

theorem between_cons : M.Between m P (t :: rounds) ↔ P m ∧ M.Between (M.after m t) P rounds := by
  constructor
  · intro h
    refine ⟨h [] (t :: rounds) rfl, fun past rest heq => ?_⟩
    rw [← after_append, ← List.flatten_cons]
    exact h (t :: past) rest (by rw [heq, List.cons_append])
  · intro h past rest heq
    obtain ⟨hfirst, hrest⟩ := h
    cases past with
    | nil => exact hfirst
    | cons u past =>
      obtain ⟨rfl, hpast⟩ := List.cons.inj heq
      rw [List.flatten_cons, after_append]
      exact hrest past rest hpast

theorem between_append : M.Between m P (rounds ++ rounds') ↔
    M.Between m P rounds ∧ M.Between (M.after m rounds.flatten) P rounds' := by
  induction rounds generalizing m with
  | nil =>
    refine ⟨fun h => ⟨between_nil.mpr (h [] rounds' rfl), h⟩, fun h => h.2⟩
  | cons t rounds ih =>
    rw [List.cons_append, between_cons, between_cons, ih, List.flatten_cons, after_append,
      and_assoc]

theorem Between.mono (h : M.Between m P rounds) (hPQ : ∀ m, P m → Q m) : M.Between m Q rounds :=
  fun past rest heq => hPQ _ (h past rest heq)

end Monitor

theorem Run.exists_step {ℓ : Type} {step : σ → ℓ → σ → Prop} {s s' : σ} {ls : List ℓ}
    (hrun : Run step s ls s') : ∀ l ∈ ls, ∃ u u', step u l u' := by
  induction hrun with
  | nil => simp
  | snoc _ hlast ih =>
    intro l hl
    rcases List.mem_append.mp hl with hl | hl
    · exact ih l hl
    · obtain rfl := List.mem_singleton.mp hl
      exact ⟨_, _, hlast⟩

theorem Run.monitored {M : Monitor I μ} {step : σ → List (Event I) → σ → Prop}
    {Inv : σ → μ → Prop} {s s' : σ} {m : μ} {rounds : List (List (Event I))}
    (hstep : ∀ s t s' m, step s t s' → Inv s m → M.Obeyed m t ∧ Inv s' (M.after m t))
    (hrun : Run step s rounds s') (hs : Inv s m) :
    M.Obeyed m rounds.flatten ∧ Inv s' (M.after m rounds.flatten) ∧
      M.Between m (fun m' => ∃ s, Inv s m') rounds := by
  induction hrun with
  | nil => exact ⟨Monitor.obeyed_nil, hs, Monitor.between_nil.mpr ⟨_, hs⟩⟩
  | snoc _ hlast ih =>
    obtain ⟨hobeyed, hinv, hbetween⟩ := ih
    obtain ⟨hobeyed', hinv'⟩ := hstep _ _ _ _ hlast hinv
    rw [List.flatten_append, List.flatten_singleton, Monitor.obeyed_append, Monitor.after_append,
      Monitor.between_append, Monitor.between_cons, Monitor.between_nil]
    exact ⟨⟨hobeyed, hobeyed'⟩, hinv', hbetween, ⟨_, hinv⟩, ⟨_, hinv'⟩⟩

end FlipperApps.Calls
