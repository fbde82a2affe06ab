import FlipperApps.Calls.Transition
import FlipperApps.Calls.Translation
import Mathlib.Algebra.GroupWithZero.Nat

/-!
# What is left of a program

A residual of a program is what it goes on with after some of its calls. Here a
residual is found from the parts of the program, and is compared with the rest of a
trace. `answering` restricts the replies, for what is left to do under them.
-/

namespace FlipperApps.Calls
variable {I : Interface} {α β ρ σ : Type}

namespace Program

inductive Residual : Program I α → Program I α → Prop where
  | refl (p : Program I α) : Residual p p
  | step {c : I.Call} {next : I.Reply c → Program I α} {q : Program I α} (r : I.Reply c) :
      Residual (next r) q → Residual (.call c next) q

theorem Residual.trans {p q q' : Program I α} (h : Residual p q) (h' : Residual q q') :
    Residual p q' := by
  induction h with
  | refl => exact h'
  | step r _ ih => exact .step r (ih h')

theorem Residual.next {p : Program I α} {c : I.Call} {next : I.Reply c → Program I α}
    (h : Residual p (.call c next)) (r : I.Reply c) : Residual p (next r) :=
  h.trans (.step r (.refl _))

theorem Uses.residual {allowed : I.Call → Prop} {p q : Program I α} (hp : p.Uses allowed)
    (h : Residual p q) : q.Uses allowed := by
  induction h with
  | refl => exact hp
  | step r _ ih => exact ih (hp.2 r)

theorem residual_done {a : α} {q : Program I α} (h : Residual (.done a) q) : q = .done a := by
  cases h
  rfl

theorem residual_call {c : I.Call} {next : I.Reply c → Program I α} {q : Program I α}
    (h : Residual (.call c next) q) : q = .call c next ∨ ∃ r, Residual (next r) q := by
  cases h with
  | refl => exact .inl rfl
  | step r h => exact .inr ⟨r, h⟩

theorem residual_bind {p : Program I α} {f : α → Program I β} {q : Program I β}
    (h : Residual (p >>= f) q) :
    (∃ p', Residual p p' ∧ q = p' >>= f) ∨ ∃ a, Residual (f a) q := by
  induction p with
  | done a => exact .inr ⟨a, h⟩
  | call c next ih =>
    rcases residual_call h with rfl | ⟨r, h⟩
    · exact .inl ⟨_, .refl _, rfl⟩
    · rcases ih r h with ⟨p', hp', rfl⟩ | hf
      · exact .inl ⟨p', .step r hp', rfl⟩
      · exact .inr hf

theorem residual_firstSome {body : β → Program I (Option ρ)} {xs : List β}
    {q : Program I (Option ρ)} (h : Residual (firstSome body xs) q) :
    (∃ v, q = .done v) ∨ ∃ x ys p', Residual (body x) p' ∧
      q = p' >>= fun
        | some v => .done (some v)
        | none => firstSome body ys := by
  induction xs with
  | nil => exact .inl ⟨none, residual_done h⟩
  | cons x xs ih =>
    rcases residual_bind h with ⟨p', hp', rfl⟩ | ⟨r, h⟩
    · exact .inr ⟨x, xs, p', hp', rfl⟩
    · cases r with
      | none => exact ih h
      | some v => exact .inl ⟨some v, residual_done h⟩

/-- What is left of a program once these calls have had these replies. -/
inductive Leads : Program I α → List (Event I) → Program I α → Prop where
  | nil (p : Program I α) : Leads p [] p
  | snoc {p : Program I α} {t : List (Event I)} {c : I.Call} {next : I.Reply c → Program I α}
      (h : Leads p t (.call c next)) (r : I.Reply c) : Leads p (t ++ [⟨c, r⟩]) (next r)

theorem Leads.executes {p q : Program I α} {t u : List (Event I)} {a : α} (h : Leads p t q)
    (hx : Executes (anyReply I) q () u a ()) : Executes (anyReply I) p () (t ++ u) a () := by
  induction h generalizing u with
  | nil => exact hx
  | snoc _ r ih =>
    rw [List.append_assoc]
    exact ih (.call trivial hx)

end Program

def answering (answers : Event I → Prop) : Environment I Unit := fun _ c r _ => answers ⟨c, r⟩

section
variable {E : Environment I σ} {answers : Event I → Prop} {p : Program I α} {s s' : σ} {a : α}
  {past rest : List (Event I)} {Q : Post I Unit α}

theorem Executes.split (h : Executes E p s (past ++ rest) a s') :
    ∃ q s₁, p.Residual q ∧ Executes E q s₁ rest a s' := by
  induction past generalizing p s with
  | nil => exact ⟨p, s, .refl p, h⟩
  | cons e past ih =>
    cases h with
    | call hE h =>
      obtain ⟨q, s₁, hq, hx⟩ := ih h
      exact ⟨q, s₁, .step _ hq, hx⟩

theorem Executes.answering (h : Executes E p s rest a s') (hrest : ∀ e ∈ rest, answers e) :
    Executes (answering answers) p () rest a () := by
  induction h with
  | done a s => exact .done a ()
  | call _ _ ih =>
    exact .call (hrest _ List.mem_cons_self) (ih fun e he => hrest e (List.mem_cons_of_mem _ he))

theorem rest_of_residual (hp : ∀ q, p.Residual q → Always (Calls.answering answers) q () Q)
    (h : Executes E p s (past ++ rest) a s') (hrest : ∀ e ∈ rest, answers e) : Q rest a () := by
  obtain ⟨q, s₁, hq, hx⟩ := h.split
  exact always_iff.mp (hp q hq) _ _ _ (hx.answering hrest)

end

def cost (price : I.Call → ℕ) (t : List (Event I)) : ℕ := (t.map fun e => price e.1).sum

/-- At most this much is left to do under such replies. -/
def Within (price : I.Call → ℕ) (answers : Event I → Prop) (n : ℕ) (p : Program I α) : Prop :=
  Always (answering answers) p () fun t _ _ => cost price t ≤ n

section
variable {price : I.Call → ℕ} {answers : Event I → Prop} {n m : ℕ} {p : Program I α}
  {e : Event I} {t u : List (Event I)}

@[simp] theorem cost_nil : cost price ([] : List (Event I)) = 0 := rfl

@[simp] theorem cost_cons : cost price (e :: t) = price e.1 + cost price t := by
  simp [cost]

@[simp] theorem cost_append : cost price (t ++ u) = cost price t + cost price u := by
  simp [cost]

theorem within_done (a : α) : Within price answers n (.done a : Program I α) := Nat.zero_le n

theorem within_call {c : I.Call} {next : I.Reply c → Program I α}
    (h : ∀ r, answers ⟨c, r⟩ → Within price answers n (next r)) :
    Within price answers (price c + n) (.call c next) := by
  intro r _ hr
  apply Always.mono (h r hr)
  intro t _ _ ht
  simpa using ht

theorem Within.mono (h : Within price answers n p) (hnm : n ≤ m) : Within price answers m p :=
  Always.mono h fun _ _ _ ht => ht.trans hnm

theorem Within.bind {f : α → Program I β} (h : Within price answers n p)
    (hf : ∀ a, Within price answers m (f a)) : Within price answers (n + m) (p >>= f) := by
  apply Always.bind h
  intro t a _ ht
  apply Always.mono (hf a)
  intro u _ _ hu
  rw [cost_append]
  exact Nat.add_le_add ht hu

theorem Within.next {c : I.Call} {next : I.Reply c → Program I α}
    (h : Within price answers n (.call c next)) {r : I.Reply c} (hr : answers ⟨c, r⟩)
    (hreply : ∀ c, ∃ r, answers ⟨c, r⟩) :
    ∃ m, price c + m ≤ n ∧ Within price answers m (next r) := by
  have hcost : Always (answering answers) (next r) () fun t _ _ => price c + cost price t ≤ n :=
    (h r () hr).mono fun _ _ _ ht => by simpa using ht
  have htotal : ∀ s c, ∃ r s', answering answers s c r s' := fun _ c => by
    obtain ⟨r, hr⟩ := hreply c
    exact ⟨r, (), hr⟩
  obtain ⟨t, a, s', hx⟩ := exists_executes htotal (next r) ()
  have hle : price c + cost price t ≤ n := always_iff.mp hcost t a s' hx
  refine ⟨n - price c, by omega, hcost.mono fun _ _ _ ht => by omega⟩

theorem Within.residual {q : Program I α} (h : Within price answers n p)
    (hp : p.Uses fun c => ∀ r, answers ⟨c, r⟩) (hreply : ∀ c, ∃ r, answers ⟨c, r⟩)
    (hq : p.Residual q) : Within price answers n q := by
  induction hq generalizing n with
  | refl => exact h
  | step r _ ih =>
    obtain ⟨m, hm, hnext⟩ := h.next (hp.1 r) hreply
    exact (ih hnext (hp.2 r)).mono (by omega)

end

end FlipperApps.Calls
