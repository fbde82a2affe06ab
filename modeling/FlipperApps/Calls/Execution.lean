import FlipperApps.Calls.Program

/-!
# Executions, interruptions and deterministic handlers

An environment relates a call, in a state, to every reply and every state it
may lead to. `Executes` is the complete execution with its trace; `Stops` is an
execution cut off between two calls or in the middle of one. A handler is an
environment with one outcome for each call, and so can be run.
-/

namespace FlipperApps.Calls
variable {I : Interface} {σ α β : Type}

abbrev Event (I : Interface) := (c : I.Call) × I.Reply c

abbrev Environment (I : Interface) (σ : Type) := σ → (c : I.Call) → I.Reply c → σ → Prop

inductive Executes (E : Environment I σ) :
    Program I α → σ → List (Event I) → α → σ → Prop where
  | done (a : α) (s : σ) : Executes E (.done a) s [] a s
  | call {c : I.Call} {next : I.Reply c → Program I α} {s s' s'' : σ} {r : I.Reply c}
      {t : List (Event I)} {a : α} :
      E s c r s' → Executes E (next r) s' t a s'' →
      Executes E (.call c next) s (⟨c, r⟩ :: t) a s''

/-- `during s c s'`: while `c` is under way in `s` the state may be `s'`. -/
inductive Stops (E : Environment I σ) (during : σ → I.Call → σ → Prop) :
    Program I α → σ → List (Event I) → σ → Prop where
  | here (p : Program I α) (s : σ) : Stops E during p s [] s
  | within {c : I.Call} {next : I.Reply c → Program I α} {s s' : σ} :
      during s c s' → Stops E during (.call c next) s [] s'
  | later {c : I.Call} {next : I.Reply c → Program I α} {s s' s'' : σ} {r : I.Reply c}
      {t : List (Event I)} :
      E s c r s' → Stops E during (next r) s' t s'' →
      Stops E during (.call c next) s (⟨c, r⟩ :: t) s''

/-- Some execution exists, and every execution ends in this result and state. -/
structure Yields (E : Environment I σ) (p : Program I α) (s : σ) (a : α) (s' : σ) : Prop where
  exists_trace : ∃ t, Executes E p s t a s'
  unique : ∀ t b s'', Executes E p s t b s'' → b = a ∧ s'' = s'

theorem Executes.mono {E F : Environment I σ} (hEF : ∀ s c r s', E s c r s' → F s c r s')
    {p : Program I α} {s s' : σ} {t : List (Event I)} {a : α}
    (h : Executes E p s t a s') : Executes F p s t a s' := by
  induction h with
  | done a s => exact .done a s
  | call hE _ ih => exact .call (hEF _ _ _ _ hE) ih

theorem Executes.bind {E : Environment I σ} {p : Program I α} {f : α → Program I β}
    {s s' s'' : σ} {t u : List (Event I)} {a : α} {b : β}
    (hp : Executes E p s t a s') (hf : Executes E (f a) s' u b s'') :
    Executes E (p >>= f) s (t ++ u) b s'' := by
  induction hp with
  | done a s => exact hf
  | call hE _ ih => exact .call hE (ih hf)

theorem Stops.bind {E : Environment I σ} {during : σ → I.Call → σ → Prop} {p : Program I α}
    {f : α → Program I β} {s s' : σ} {t : List (Event I)} (h : Stops E during p s t s') :
    Stops E during (p >>= f) s t s' := by
  induction h with
  | here p s => exact .here _ s
  | within hd => exact .within hd
  | later hE _ ih => exact .later hE ih

theorem Stops.after {E : Environment I σ} {during : σ → I.Call → σ → Prop} {p : Program I α}
    {f : α → Program I β} {s s' s'' : σ} {t u : List (Event I)} {a : α}
    (hp : Executes E p s t a s') (hf : Stops E during (f a) s' u s'') :
    Stops E during (p >>= f) s (t ++ u) s'' := by
  induction hp with
  | done a s => exact hf
  | call hE _ ih => exact .later hE (ih hf)

theorem exists_executes {E : Environment I σ} (total : ∀ s c, ∃ r s', E s c r s')
    (p : Program I α) (s : σ) : ∃ t a s', Executes E p s t a s' := by
  induction p generalizing s with
  | done a => exact ⟨[], a, s, .done a s⟩
  | call c next ih =>
    obtain ⟨r, s', hE⟩ := total s c
    obtain ⟨t, a, s'', h⟩ := ih r s'
    exact ⟨_, a, s'', .call hE h⟩

theorem exists_executes_of_uses {E : Environment I σ} {allowed : I.Call → Prop}
    (total : ∀ s c, allowed c → ∃ r s', E s c r s') {p : Program I α} (hp : p.Uses allowed)
    (s : σ) : ∃ t a s', Executes E p s t a s' := by
  induction p generalizing s with
  | done a => exact ⟨[], a, s, .done a s⟩
  | call c next ih =>
    obtain ⟨r, s', hE⟩ := total s c hp.1
    obtain ⟨t, a, s'', h⟩ := ih r (hp.2 r) s'
    exact ⟨_, a, s'', .call hE h⟩

abbrev Handler (I : Interface) (σ : Type) := (c : I.Call) → σ → I.Reply c × σ

def Handler.env (h : Handler I σ) : Environment I σ :=
  fun s c r s' => h c s = (r, s')

structure Outcome (I : Interface) (σ α : Type) where
  trace : List (Event I)
  value : α
  state : σ

def run (h : Handler I σ) : Program I α → σ → Outcome I σ α
  | .done a, s => ⟨[], a, s⟩
  | .call c next, s =>
    let o := run h (next (h c s).1) (h c s).2
    ⟨⟨c, (h c s).1⟩ :: o.trace, o.value, o.state⟩

theorem run_executes (h : Handler I σ) (p : Program I α) (s : σ) :
    Executes h.env p s (run h p s).trace (run h p s).value (run h p s).state := by
  induction p generalizing s with
  | done a => exact .done a s
  | call c next ih => exact .call rfl (ih _ _)

end FlipperApps.Calls
