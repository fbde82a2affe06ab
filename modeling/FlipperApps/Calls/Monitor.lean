import FlipperApps.Calls.Execution

/-!
# Monitored programs

A monitor watches the calls of a program and their replies, and says in each of
its states which calls are allowed next. A program is accepted when it issues
only allowed calls whatever the replies; then so is every trace of it, in every
environment.
-/

namespace FlipperApps.Calls
variable {I : Interface} {μ ν α β σ : Type}

structure Monitor (I : Interface) (μ : Type) where
  observe : μ → Event I → μ
  allows : μ → I.Call → Prop

namespace Monitor
variable {M : Monitor I μ} {p : Program I α} {m : μ} {t u : List (Event I)}

def after (M : Monitor I μ) (m : μ) (t : List (Event I)) : μ := t.foldl M.observe m

def Obeyed (M : Monitor I μ) (m : μ) (t : List (Event I)) : Prop :=
  ∀ past e rest, t = past ++ e :: rest → M.allows (M.after m past) e.1

def Accepts (M : Monitor I μ) : Program I α → μ → (α → μ → Prop) → Prop
  | .done a, m, Q => Q a m
  | .call c next, m, Q => M.allows m c ∧ ∀ r, M.Accepts (next r) (M.observe m ⟨c, r⟩) Q

@[simp] theorem after_nil : M.after m [] = m := rfl

@[simp] theorem after_cons {e : Event I} : M.after m (e :: t) = M.after (M.observe m e) t := rfl

theorem after_append : M.after m (t ++ u) = M.after (M.after m t) u := List.foldl_append

theorem obeyed_nil : M.Obeyed m [] := by
  intro past e rest h
  simp at h

theorem obeyed_cons {e : Event I} :
    M.Obeyed m (e :: t) ↔ M.allows m e.1 ∧ M.Obeyed (M.observe m e) t := by
  constructor
  · intro h
    refine ⟨h [] e t rfl, fun past e' rest ht => ?_⟩
    exact h (e :: past) e' rest (by rw [ht, List.cons_append])
  · intro h past e' rest hsplit
    obtain ⟨he, ht⟩ := h
    cases past with
    | nil =>
      obtain ⟨rfl, rfl⟩ := List.cons.inj hsplit
      exact he
    | cons e'' past =>
      obtain ⟨rfl, hrest⟩ := List.cons.inj hsplit
      exact ht past e' rest hrest

theorem obeyed_append : M.Obeyed m (t ++ u) ↔ M.Obeyed m t ∧ M.Obeyed (M.after m t) u := by
  induction t generalizing m with
  | nil => simp [obeyed_nil]
  | cons e t ih => rw [List.cons_append, obeyed_cons, obeyed_cons, ih, and_assoc, after_cons]

theorem Accepts.mono {Q R : α → μ → Prop} (h : M.Accepts p m Q)
    (hQR : ∀ a m', Q a m' → R a m') : M.Accepts p m R := by
  induction p generalizing m with
  | done a => exact hQR a m h
  | call c next ih => exact ⟨h.1, fun r => ih r (h.2 r)⟩

theorem Accepts.bind {f : α → Program I β} {Q : α → μ → Prop} {R : β → μ → Prop}
    (h : M.Accepts p m Q) (hf : ∀ a m', Q a m' → M.Accepts (f a) m' R) :
    M.Accepts (p >>= f) m R := by
  induction p generalizing m with
  | done a => exact hf a m h
  | call c next ih => exact ⟨h.1, fun r => ih r (h.2 r)⟩

theorem Accepts.executes {Q : α → μ → Prop} (h : M.Accepts p m Q) {E : Environment I σ}
    {s s' : σ} {a : α} (hx : Executes E p s t a s') : M.Obeyed m t ∧ Q a (M.after m t) := by
  induction hx generalizing m with
  | done a s => exact ⟨obeyed_nil, h⟩
  | call _ _ ih =>
    obtain ⟨hobeyed, hQ⟩ := ih (h.2 _)
    exact ⟨obeyed_cons.mpr ⟨h.1, hobeyed⟩, hQ⟩

/-- A monitor that sees less and forbids less. -/
structure Weakens (f : μ → ν) (M : Monitor I μ) (N : Monitor I ν) : Prop where
  observe : ∀ m e, f (M.observe m e) = N.observe (f m) e
  allows : ∀ m c, M.allows m c → N.allows (f m) c

section
variable {f : μ → ν} {N : Monitor I ν}

theorem Weakens.after (h : Weakens f M N) : f (M.after m t) = N.after (f m) t := by
  induction t generalizing m with
  | nil => rfl
  | cons e t ih => rw [after_cons, ih, h.observe, after_cons]

theorem Weakens.obeyed (h : Weakens f M N) (ht : M.Obeyed m t) : N.Obeyed (f m) t := by
  intro past e rest hsplit
  rw [← h.after]
  exact h.allows _ _ (ht past e rest hsplit)

end

end Monitor
end FlipperApps.Calls
