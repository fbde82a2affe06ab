import FlipperApps.Calls.Execution
import Mathlib.Data.List.FinRange

/-!
# Rules of pre- and postconditions

`Always E p s Q` says that every execution of `p` from `s` satisfies `Q`, by
recursion on the program. The rules below take a program apart along its
calls, its binds and its loops; the connection with `Executes` is proved once.
-/

namespace FlipperApps.Calls
variable {I : Interface} {σ α β ρ : Type}

abbrev Post (I : Interface) (σ α : Type) := List (Event I) → α → σ → Prop

def Always (E : Environment I σ) : Program I α → σ → Post I σ α → Prop
  | .done a, s, Q => Q [] a s
  | .call c next, s, Q => ∀ r s', E s c r s' →
      Always E (next r) s' fun t a s'' => Q (⟨c, r⟩ :: t) a s''

variable {E : Environment I σ} {p : Program I α} {s : σ} {Q R : Post I σ α}

@[simp] theorem always_done {a : α} : Always E (.done a) s Q ↔ Q [] a s := Iff.rfl

theorem always_handler_call {h : Handler I σ} {c : I.Call} {next : I.Reply c → Program I α} :
    Always h.env (.call c next) s Q ↔ Always h.env (next (h c s).1) (h c s).2
      fun t a s' => Q (⟨c, (h c s).1⟩ :: t) a s' := by
  constructor
  · exact fun hp => hp _ _ rfl
  · intro hp r s' hE
    obtain ⟨rfl, rfl⟩ := Prod.mk.inj hE
    exact hp

theorem Always.mono (h : Always E p s Q) (hQR : ∀ t a s', Q t a s' → R t a s') :
    Always E p s R := by
  induction p generalizing s Q R with
  | done a => exact hQR _ _ _ h
  | call c next ih =>
    intro r s' hE
    exact ih r (h r s' hE) fun t a s'' hq => hQR _ _ _ hq

theorem always_iff :
    Always E p s Q ↔ ∀ t a s', Executes E p s t a s' → Q t a s' := by
  induction p generalizing s Q with
  | done a =>
    constructor
    · intro h t b s' h'
      cases h'
      exact h
    · exact fun h => h _ _ _ (.done a s)
  | call c next ih =>
    constructor
    · intro h t a s' h'
      rcases h' with _ | ⟨hE, hx⟩
      exact (ih _).mp (h _ _ hE) _ _ _ hx
    · intro h r s' hE
      exact (ih r).mpr fun t a s'' hx => h _ _ _ (.call hE hx)

theorem always_bind {f : α → Program I β} {Q : Post I σ β} :
    Always E (p >>= f) s Q ↔
      Always E p s fun t a s' => Always E (f a) s' fun u b s'' => Q (t ++ u) b s'' := by
  induction p generalizing s Q with
  | done a => rfl
  | call c next ih =>
    constructor
    · intro h r s' hE
      exact (ih r).mp (h r s' hE)
    · intro h r s' hE
      exact (ih r).mpr (h r s' hE)

theorem Always.bind {f : α → Program I β} {Q' : Post I σ β} (h : Always E p s Q)
    (hf : ∀ t a s', Q t a s' → Always E (f a) s' fun u b s'' => Q' (t ++ u) b s'') :
    Always E (p >>= f) s Q' :=
  always_bind.mpr (h.mono hf)

theorem Always.and (hQ : Always E p s Q) (hR : Always E p s R) :
    Always E p s fun t a s' => Q t a s' ∧ R t a s' := by
  rw [always_iff] at hQ hR ⊢
  exact fun t a s' hx => ⟨hQ t a s' hx, hR t a s' hx⟩

theorem Always.run {h : Handler I σ} (hp : Always h.env p s Q) :
    Q (run h p s).trace (run h p s).value (run h p s).state :=
  always_iff.mp hp _ _ _ (run_executes h p s)

theorem Always.yields (total : ∀ s c, ∃ r s', E s c r s') {a : α} {s' : σ}
    (h : Always E p s fun _ b s'' => b = a ∧ s'' = s') : Yields E p s a s' := by
  rw [always_iff] at h
  obtain ⟨t, b, s'', hx⟩ := exists_executes total p s
  obtain ⟨rfl, rfl⟩ := h t b s'' hx
  exact ⟨⟨t, hx⟩, h⟩

theorem always_uses {allowed : I.Call → Prop} (hp : p.Uses allowed) :
    Always E p s fun t _ _ => ∀ e ∈ t, allowed e.1 := by
  induction p generalizing s with
  | done a => simp
  | call c next ih =>
    intro r s' _
    refine (ih r (hp.2 r)).mono fun t a s'' h e he => ?_
    rcases List.mem_cons.mp he with rfl | he
    · exact hp.1
    · exact h e he

theorem always_returns {P : α → Prop} (hp : p.Returns P) : Always E p s fun _ a _ => P a := by
  induction p generalizing s with
  | done a => exact hp
  | call c next ih => exact fun r s' _ => ih r (hp r)

theorem always_invariant {allowed : I.Call → Prop} {P : σ → Prop}
    (hstep : ∀ s c r s', allowed c → P s → E s c r s' → P s')
    (hp : p.Uses allowed) (hs : P s) : Always E p s fun _ _ s' => P s' := by
  induction p generalizing s with
  | done a => exact hs
  | call c next ih =>
    intro r s' hE
    exact ih r (hp.2 r) (hstep s c r s' hp.1 hs hE)

theorem always_frame {allowed : I.Call → Prop}
    (hkeeps : ∀ s c r s', allowed c → E s c r s' → s' = s) (hp : p.Uses allowed) :
    Always E p s fun t _ s' => s' = s ∧ ∀ e ∈ t, allowed e.1 := by
  apply Always.and _ (always_uses hp)
  apply always_invariant (P := (· = s)) _ hp rfl
  intro _ c r s' hc h hE
  subst h
  exact hkeeps _ c r s' hc hE

def Post.early (exit : List (Event I) → ρ → σ → Prop) (go : List (Event I) → σ → Prop) :
    Post I σ (Option ρ)
  | t, some v, s => exit t v s
  | t, none, s => go t s

section
variable {exit : List (Event I) → ρ → σ → Prop} {go : List (Event I) → σ → Prop}
  {t : List (Event I)} {v : ρ}

@[simp] theorem Post.early_some : Post.early exit go t (some v) s ↔ exit t v s := Iff.rfl

@[simp] theorem Post.early_none : Post.early exit go t none s ↔ go t s := Iff.rfl

end

/-- The loop rule. `inv t xs s` holds before each round, with `t` the trace so
far and `xs` the elements still to come; `exit` describes an early exit. -/
theorem always_firstSome {body : β → Program I (Option ρ)}
    (inv : List (Event I) → List β → σ → Prop) (exit : List (Event I) → ρ → σ → Prop)
    (hbody : ∀ t x xs s, inv t (x :: xs) s → Always E (body x) s fun u r s' =>
      Post.early exit (fun t s => inv t xs s) (t ++ u) r s')
    {t : List (Event I)} {xs : List β} (hs : inv t xs s) :
    Always E (Program.firstSome body xs) s fun u r s' =>
      Post.early exit (fun t s => inv t [] s) (t ++ u) r s' := by
  induction xs generalizing t s with
  | nil => simpa [Program.firstSome] using hs
  | cons x xs ih =>
    refine (hbody t x xs s hs).bind fun u r s' hr => ?_
    cases r with
    | some v => simpa using hr
    | none => simpa only [List.append_assoc] using ih hr

theorem always_firstSome_finRange {n : ℕ} {body : Fin n → Program I (Option ρ)}
    (inv : List (Event I) → ℕ → σ → Prop) (exit : List (Event I) → ρ → σ → Prop)
    (hbody : ∀ t (i : Fin n) s, inv t i s → Always E (body i) s fun u r s' =>
      Post.early exit (fun t s => inv t (i + 1) s) (t ++ u) r s')
    (hs : inv [] 0 s) :
    Always E (Program.firstSome body (List.finRange n)) s
      (Post.early exit fun t s => inv t n s) := by
  let rest : List (Event I) → List (Fin n) → σ → Prop :=
    fun t xs s => ∃ i, i ≤ n ∧ xs = (List.finRange n).drop i ∧ inv t i s
  refine (always_firstSome rest exit (t := []) ?_
    ⟨0, Nat.zero_le n, rfl, hs⟩).mono fun t r s' h => ?_
  · intro t x xs s h
    obtain ⟨i, hi, hxs, hinv⟩ := h
    have hlt : i < n := by
      by_contra hge
      rw [List.drop_of_length_le (by simp; omega)] at hxs
      cases hxs
    rw [List.drop_eq_getElem_cons (by simpa using hlt), List.getElem_finRange] at hxs
    obtain ⟨rfl, rfl⟩ := List.cons.inj hxs
    refine (hbody t ⟨i, hlt⟩ s hinv).mono fun u r s' hr => ?_
    cases r with
    | some v => exact hr
    | none => exact ⟨i + 1, hlt, rfl, hr⟩
  · cases r with
    | some v => exact h
    | none =>
      obtain ⟨i, hi, hxs, hinv⟩ := h
      have hlen := congrArg List.length hxs
      simp only [List.length_nil, List.length_drop, List.length_finRange] at hlen
      obtain rfl : i = n := by omega
      exact hinv

end FlipperApps.Calls
