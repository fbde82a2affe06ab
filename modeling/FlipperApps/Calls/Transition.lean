import Mathlib.Data.List.Induction

/-! Finite runs of a labelled transition relation, extended at their end. -/

namespace FlipperApps.Calls
variable {σ ℓ : Type}

inductive Run (step : σ → ℓ → σ → Prop) : σ → List ℓ → σ → Prop where
  | nil (s : σ) : Run step s [] s
  | snoc {s s' s'' : σ} {ls : List ℓ} {l : ℓ} :
      Run step s ls s' → step s' l s'' → Run step s (ls ++ [l]) s''

variable {step : σ → ℓ → σ → Prop} {s s' : σ} {ls : List ℓ}

theorem run_of_foldlM {f : σ → ℓ → Option σ} (h : ls.foldlM f s = some s') :
    Run (fun s l s' => f s l = some s') s ls s' := by
  induction ls using List.reverseRecOn generalizing s' with
  | nil =>
    cases h
    exact .nil s
  | append_singleton ls l ih =>
    rw [List.foldlM_append] at h
    obtain ⟨s'', hinit, hlast⟩ := Option.bind_eq_some_iff.mp h
    exact (ih hinit).snoc (by simpa using hlast)

theorem snoc_split {past rest : List ℓ} {l last : ℓ} (h : ls ++ [last] = past ++ l :: rest) :
    ls = past ∧ last = l ∧ rest = [] ∨ ∃ init, ls = past ++ l :: init ∧ rest = init ++ [last] := by
  rcases List.eq_nil_or_concat rest with rfl | ⟨init, last', rfl⟩
  · obtain ⟨hpast, hlast⟩ := List.append_inj' h rfl
    exact Or.inl ⟨hpast, (List.cons.inj hlast).1, rfl⟩
  · rw [List.concat_eq_append, ← List.cons_append, ← List.append_assoc] at h
    obtain ⟨hinit, hlast⟩ := List.append_inj' h rfl
    obtain rfl := (List.cons.inj hlast).1
    exact Or.inr ⟨init, hinit, List.concat_eq_append⟩

theorem Run.invariant {P : List ℓ → σ → Prop} (h : Run step s ls s') (hs : P [] s)
    (hstep : ∀ ls s l s', P ls s → step s l s' → P (ls ++ [l]) s') : P ls s' := by
  induction h with
  | nil => exact hs
  | snoc _ hl ih => exact hstep _ _ _ _ ih hl

/-- An invariant that also bounds each step gives what every label satisfies
after the labels before it. -/
theorem Run.each {P : List ℓ → σ → Prop} {R : List ℓ → ℓ → Prop} (h : Run step s ls s')
    (hs : P [] s) (hstep : ∀ ls s l s', P ls s → step s l s' → P (ls ++ [l]) s' ∧ R ls l) :
    P ls s' ∧ ∀ past l rest, ls = past ++ l :: rest → R past l := by
  induction h with
  | nil =>
    refine ⟨hs, fun past l rest heq => ?_⟩
    simp at heq
  | snoc _ hl ih =>
    obtain ⟨hP, hR⟩ := ih
    obtain ⟨hP', hRl⟩ := hstep _ _ _ _ hP hl
    refine ⟨hP', fun past l rest heq => ?_⟩
    rcases snoc_split heq with ⟨rfl, rfl, -⟩ | ⟨init, hinit, -⟩
    · exact hRl
    · exact hR past l init hinit

/-- Two runs, possibly of different systems, on the same inputs: a relation that
each pair of steps keeps relates their ends. -/
theorem Run.related {τ κ ι : Type} {step' : τ → κ → τ → Prop} {inputOf : ℓ → ι}
    {inputOf' : κ → ι} {P : List ℓ → List κ → σ → τ → Prop} {u u' : τ} {ks : List κ}
    (h : Run step s ls s') (h' : Run step' u ks u') (hin : ls.map inputOf = ks.map inputOf')
    (hs : P [] [] s u)
    (hstep : ∀ ls ks s u l k s' u', P ls ks s u → step s l s' → step' u k u' →
      inputOf l = inputOf' k → P (ls ++ [l]) (ks ++ [k]) s' u') : P ls ks s' u' := by
  induction h generalizing ks u' with
  | nil =>
    cases h' with
    | nil => exact hs
    | snoc => simp at hin
  | snoc _ hl ih =>
    cases h' with
    | nil => simp at hin
    | snoc hrest hk =>
      rw [List.map_append, List.map_append] at hin
      obtain ⟨hinit, hlast⟩ := List.append_inj' hin rfl
      exact hstep _ _ _ _ _ _ _ _ (ih hrest hinit) hl hk (List.cons.inj hlast).1

end FlipperApps.Calls
