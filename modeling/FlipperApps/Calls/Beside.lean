import FlipperApps.Calls.Monitor
import FlipperApps.Calls.Translation

/-!
# Programs with steps of their own

An interface is widened by steps that nothing outside answers. Erasing them from
a program leaves a program over the interface itself, and the calls of every
execution are those of an execution of what is left.
-/

namespace FlipperApps.Calls
variable {I J : Interface} {L S σ α β μ ν : Type}

abbrev Interface.beside (I : Interface) (L : Type) : Interface where
  Call := I.Call ⊕ L
  Reply
    | .inl c => I.Reply c
    | .inr _ => Unit

def Event.outside : Event (I.beside L) → Option (Event I)
  | ⟨.inl c, r⟩ => some ⟨c, r⟩
  | ⟨.inr _, _⟩ => none

namespace Program

def outside (c : I.Call) : Program (I.beside L) (I.Reply c) := .call (.inl c) .done

def own (l : L) : Program (I.beside L) Unit := .call (.inr l) .done

def erase : Program (I.beside L) α → Program I α
  | .done a => .done a
  | .call (.inl c) next => .call c fun r => (next r).erase
  | .call (.inr _) next => (next ()).erase

def widen : Program I α → Program (I.beside L) α
  | .done a => .done a
  | .call c next => .call (.inl c) fun r => (next r).widen

/-- Each call is carried out by a program, steps of the program's own are left in place. -/
def passing (f : (c : I.Call) → S → Program (J.beside L) (I.Reply c × S)) :
    (c : (I.beside L).Call) → S → Program (J.beside L) ((I.beside L).Reply c × S)
  | .inl c, s => f c s
  | .inr l, s => .call (.inr l) fun u => .done (u, s)

theorem bind_assoc {γ : Type} (p : Program I α) (f : α → Program I β) (g : β → Program I γ) :
    p >>= f >>= g = p >>= fun a => f a >>= g := by
  induction p with
  | done a => rfl
  | call c next ih => exact congrArg (Program.call c) (funext ih)

theorem bind_done (p : Program I α) : p >>= Program.done = p := by
  induction p with
  | done a => rfl
  | call c next ih => exact congrArg (Program.call c) (funext ih)

theorem erase_bind (p : Program (I.beside L) α) (f : α → Program (I.beside L) β) :
    (p >>= f).erase = p.erase >>= fun a => (f a).erase := by
  induction p with
  | done a => rfl
  | call c next ih =>
    cases c with
    | inl c => exact congrArg (Program.call c) (funext ih)
    | inr l => exact ih ()

theorem erase_ite {c : Prop} [Decidable c] (p q : Program (I.beside L) α) :
    (if c then p else q).erase = if c then p.erase else q.erase := apply_ite _ c p q

theorem widen_bind (p : Program I α) (f : α → Program I β) :
    ((p >>= f).widen : Program (I.beside L) β) = p.widen >>= fun a => (f a).widen := by
  induction p with
  | done a => rfl
  | call c next ih => exact congrArg (Program.call (I := I.beside L) (.inl c)) (funext ih)

theorem erase_widen (p : Program I α) : (p.widen : Program (I.beside L) α).erase = p := by
  induction p with
  | done a => rfl
  | call c next ih => exact congrArg (Program.call c) (funext ih)

theorem erase_interpret (f : (c : I.Call) → S → Program (J.beside L) (I.Reply c × S))
    (p : Program (I.beside L) α) (s : S) :
    (p.interpret (passing f) s).erase = p.erase.interpret (fun c s => (f c s).erase) s := by
  induction p generalizing s with
  | done a => rfl
  | call c next ih =>
    cases c with
    | inl c =>
      rw [interpret, erase_bind]
      exact congrArg ((f c s).erase >>= ·) (funext fun r => ih r.1 r.2)
    | inr l => exact ih () s

end Program

theorem Monitor.Accepts.interpret {M : Monitor I μ} {N : Monitor J ν}
    {f : (c : I.Call) → S → Program J (I.Reply c × S)} {Stands : μ → ν → Prop}
    (hf : ∀ c s k m, Stands k m → M.allows k c →
      N.Accepts (f c s) m fun r m' => Stands (M.observe k ⟨c, r.1⟩) m')
    {p : Program I α} {k : μ} {Q : α → μ → Prop} (hp : M.Accepts p k Q) {s : S} {m : ν}
    (h : Stands k m) :
    N.Accepts (p.interpret f s) m fun a m' => ∃ k', Q a.1 k' ∧ Stands k' m' := by
  induction p generalizing k s m with
  | done a => exact ⟨k, hp, h⟩
  | call c next ih => exact (hf c s k m h hp.1).bind fun r m' h' => ih r.1 (hp.2 r.1) h'

def Environment.beside (E : Environment I σ) : Environment (I.beside L) σ
  | s, .inl c => E s c
  | s, .inr _ => fun _ s' => s' = s

theorem Executes.erase {E : Environment I σ} {p : Program (I.beside L) α} {s s' : σ}
    {t : List (Event (I.beside L))} {a : α} (h : Executes E.beside p s t a s') :
    Executes E p.erase s (t.filterMap Event.outside) a s' := by
  induction h with
  | done a s => exact .done a s
  | @call c next s s₁ s₂ r t a hE _ ih =>
    cases c with
    | inl c => exact .call hE ih
    | inr l =>
      obtain rfl : s₁ = s := hE
      exact ih

theorem Executes.erase_anyReply {p : Program (I.beside L) α} {t : List (Event (I.beside L))} {a : α}
    (h : Executes (anyReply (I.beside L)) p () t a ()) :
    Executes (anyReply I) p.erase () (t.filterMap Event.outside) a () := by
  apply Executes.erase
  apply h.mono
  intro _ c _ _ _
  cases c with
  | inl c => trivial
  | inr l => rfl

end FlipperApps.Calls
