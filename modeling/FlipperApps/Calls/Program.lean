import Mathlib.Logic.Basic

/-!
# Programs that issue calls

A program over an interface is a finite tree: it is done, or it issues one
call and continues with the reply. Nothing is said here about what a call
does; an environment gives it meaning in `Execution`. The tree keeps every
call of the modelled code, in order, together with every reply it may get.
-/

namespace FlipperApps.Calls

structure Interface where
  Call : Type
  Reply : Call → Type

inductive Program (I : Interface) (α : Type) where
  | done (a : α) : Program I α
  | call (c : I.Call) (next : I.Reply c → Program I α) : Program I α

namespace Program
variable {I : Interface} {α β γ ρ : Type}

def bind : Program I α → (α → Program I β) → Program I β
  | .done a, f => f a
  | .call c next, f => .call c fun r => (next r).bind f

instance : Monad (Program I) where
  pure := .done
  bind := bind

def perform (c : I.Call) : Program I (I.Reply c) := .call c .done

@[simp] theorem pure_eq (a : α) : (pure a : Program I α) = .done a := rfl

@[simp] theorem done_bind (a : α) (f : α → Program I β) :
    (Program.done a >>= f) = f a := rfl

@[simp] theorem call_bind (c : I.Call) (next : I.Reply c → Program I α)
    (f : α → Program I β) :
    (Program.call c next >>= f) = .call c fun r => next r >>= f := rfl

/-- A loop with an early exit: the body runs on each element until it returns
a value, which is then the value of the loop. -/
def firstSome (body : β → Program I (Option ρ)) : List β → Program I (Option ρ)
  | [] => .done none
  | x :: xs => body x >>= fun
    | some v => .done (some v)
    | none => firstSome body xs

/-- Every call the program may issue, whatever the replies, is allowed. -/
def Uses (allowed : I.Call → Prop) : Program I α → Prop
  | .done _ => True
  | .call c next => allowed c ∧ ∀ r, (next r).Uses allowed

theorem uses_bind {allowed : I.Call → Prop} {p : Program I α} {f : α → Program I β}
    (hp : p.Uses allowed) (hf : ∀ a, (f a).Uses allowed) : (p >>= f).Uses allowed := by
  induction p with
  | done a => exact hf a
  | call c next ih => exact ⟨hp.1, fun r => ih r (hp.2 r)⟩

theorem uses_firstSome {allowed : I.Call → Prop} {body : β → Program I (Option ρ)} {xs : List β}
    (hbody : ∀ x, (body x).Uses allowed) : (firstSome body xs).Uses allowed := by
  induction xs with
  | nil => trivial
  | cons x xs ih =>
    apply uses_bind (hbody x)
    intro r
    cases r with
    | none => exact ih
    | some v => trivial

theorem Uses.mono {allowed allowed' : I.Call → Prop} {p : Program I α}
    (hp : p.Uses allowed) (h : ∀ c, allowed c → allowed' c) : p.Uses allowed' := by
  induction p with
  | done a => trivial
  | call c next ih => exact ⟨h c hp.1, fun r => ih r (hp.2 r)⟩

theorem uses_true (p : Program I α) : p.Uses fun _ => True := by
  induction p with
  | done a => trivial
  | call c next ih => exact ⟨trivial, ih⟩

def Returns (Q : α → Prop) : Program I α → Prop
  | .done a => Q a
  | .call _ next => ∀ r, (next r).Returns Q

@[simp] theorem returns_done {Q : α → Prop} {a : α} :
    (Program.done a : Program I α).Returns Q ↔ Q a := Iff.rfl

theorem returns_true (p : Program I α) : p.Returns fun _ => True := by
  induction p with
  | done a => trivial
  | call c next ih => exact ih

theorem Returns.mono {P Q : α → Prop} {p : Program I α} (h : p.Returns P)
    (hPQ : ∀ a, P a → Q a) : p.Returns Q := by
  induction p with
  | done a => exact hPQ a h
  | call c next ih => exact fun r => ih r (h r)

theorem Returns.bind {P : α → Prop} {Q : β → Prop} {p : Program I α} {f : α → Program I β}
    (hp : p.Returns P) (hf : ∀ a, P a → (f a).Returns Q) : (p >>= f).Returns Q := by
  induction p with
  | done a => exact hf a hp
  | call c next ih => exact fun r => ih r (hp r)

theorem returns_bind {Q : β → Prop} {p : Program I α} {f : α → Program I β}
    (hf : ∀ a, (f a).Returns Q) : (p >>= f).Returns Q :=
  (returns_true p).bind fun a _ => hf a

theorem Uses.bind_returns {allowed : I.Call → Prop} {P : α → Prop} {p : Program I α}
    {f : α → Program I β} (hp : p.Uses allowed) (hreturns : p.Returns P)
    (hf : ∀ a, P a → (f a).Uses allowed) : (p >>= f).Uses allowed := by
  induction p with
  | done a => exact hf a hreturns
  | call c next ih => exact ⟨hp.1, fun r => ih r (hp.2 r) (hreturns r)⟩

end Program
end FlipperApps.Calls
