import FlipperApps.Calls.Rules

/-!
# Programs run on another interface

Each call of a program is carried out by a program over a second interface,
which may keep a state of its own between the calls. Whatever holds of every
trace of the first program holds of the calls that the translated one stands for.
-/

namespace FlipperApps.Calls
variable {I J : Interface} {S α β σ : Type}

def anyReply (I : Interface) : Environment I Unit := fun _ _ _ _ => True

theorem returns_of_always {p : Program I α} {Q : α → Prop}
    (h : Always (anyReply I) p () fun _ a _ => Q a) : p.Returns Q := by
  induction p with
  | done a => exact h
  | call c next ih => exact fun r => ih r (h r () trivial)

namespace Program

def interpret (f : (c : I.Call) → S → Program J (I.Reply c × S)) :
    Program I α → S → Program J (α × S)
  | .done a, s => .done (a, s)
  | .call c next, s => f c s >>= fun r => (next r.1).interpret f r.2

variable {f : (c : I.Call) → S → Program J (I.Reply c × S)} {p : Program I α} {s : S}

theorem uses_interpret {allowed : I.Call → Prop} {allowed' : J.Call → Prop}
    (hp : p.Uses allowed) (hf : ∀ c s, allowed c → (f c s).Uses allowed') :
    (p.interpret f s).Uses allowed' := by
  induction p generalizing s with
  | done a => trivial
  | call c next ih => exact uses_bind (hf c s hp.1) fun r => ih r.1 (hp.2 r.1)

end Program

theorem always_interpret {f : (c : I.Call) → S → Program J (I.Reply c × S)} {p : Program I α}
    {s : S} {E : Environment J σ} {u : σ} {Q : Post I Unit α} (hp : Always (anyReply I) p () Q) :
    Always E (p.interpret f s) u fun t a _ => ∃ calls : List (Event I × List (Event J)),
      t = calls.flatMap Prod.snd ∧ Q (calls.map Prod.fst) a.1 () := by
  induction p generalizing s u Q with
  | done a => exact ⟨[], rfl, hp⟩
  | call c next ih =>
    apply Always.bind (always_returns (Program.returns_true (f c s)))
    intro t r u' _
    apply (ih r.1 (hp r.1 () trivial)).mono
    intro v a u'' h
    obtain ⟨calls, rfl, hQ⟩ := h
    exact ⟨(⟨c, r.1⟩, t) :: calls, by simp, hQ⟩

end FlipperApps.Calls
