import FlipperApps.Calls.Beside
import FlipperApps.Calls.Monitor
import Mathlib.Data.Finset.Basic

/-!
# Resources that are held and buffers that are filled

A program takes resources and ends them, some through its calls and some by steps
of its own; a resource may rest on others. A monitor follows what is held and
which buffers may hold data. A trace that it lets pass takes nothing that is held,
uses nothing that is not, and ends nothing that something else rests on.
-/

namespace FlipperApps.Calls
variable {I : Interface} {R B α β : Type}

inductive Upkeep (R B : Type)
  | take (r : R)
  | finish (r : R)
  | fill (b : B)
  | wipe (b : B)

/-- What the calls do to resources: those a call uses, the one it ends, and the one
that its reply grants; and the buffers that are empty when the call is made. -/
structure Tenancy (I : Interface) (R B : Type) where
  rests : R → Finset R → Prop
  rests_mono : ∀ r s s', s ⊆ s' → rests r s → rests r s'
  uses : I.Call → List R
  bars : I.Call → List B
  ends : I.Call → Option R
  grants : (c : I.Call) → I.Reply c → Option R

structure Holdings (R B : Type) where
  held : Finset R
  filled : Finset B

abbrev UpkeepInterface (I : Interface) (R B : Type) : Interface := I.beside (Upkeep R B)

def Holdings.none : Holdings R B := ⟨∅, ∅⟩

namespace Tenancy
variable (T : Tenancy I R B)

def Founded (s : Finset R) : Prop := ∀ r ∈ s, T.rests r s

variable [DecidableEq R]

def MayTake (s : Finset R) (r : R) : Prop := r ∉ s ∧ T.rests r s

def MayEnd (s : Finset R) (r : R) : Prop := r ∈ s ∧ T.Founded (s.erase r)

def takenBy : Event (UpkeepInterface I R B) → Option R
  | ⟨.inl c, r⟩ => T.grants c r
  | ⟨.inr (.take r), _⟩ => some r
  | _ => none

def endedBy : Event (UpkeepInterface I R B) → Option R
  | ⟨.inl c, _⟩ => T.ends c
  | ⟨.inr (.finish r), _⟩ => some r
  | _ => none

def heldAfter (s : Finset R) (e : Event (UpkeepInterface I R B)) : Finset R :=
  let left := match T.endedBy e with
    | some r => s.erase r
    | none => s
  match T.takenBy e with
  | some r => insert r left
  | none => left

structure AllowsCall (m : Holdings R B) (c : I.Call) : Prop where
  uses : ∀ r ∈ T.uses c, r ∈ m.held
  bars : ∀ b ∈ T.bars c, b ∉ m.filled
  ends : ∀ r ∈ T.ends c, T.MayEnd m.held r ∧ ∀ reply, T.grants c reply = none
  grants : ∀ reply, ∀ r ∈ T.grants c reply, T.MayTake m.held r

def Allows (m : Holdings R B) : (UpkeepInterface I R B).Call → Prop
  | .inl c => T.AllowsCall m c
  | .inr (.take r) => T.MayTake m.held r
  | .inr (.finish r) => T.MayEnd m.held r
  | .inr _ => True

variable {T} {m : Holdings R B} {s s' : Finset R} {r : R} {e : Event (UpkeepInterface I R B)}
  {t : List (Event (UpkeepInterface I R B))}

theorem Founded.take (h : T.Founded s) (hr : T.rests r s) : T.Founded (insert r s) := by
  intro r' hr'
  apply T.rests_mono r' s _ (Finset.subset_insert r s)
  rcases Finset.mem_insert.mp hr' with rfl | hr'
  · exact hr
  · exact h r' hr'

theorem Founded.mayEnd (h : T.Founded s) (hr : r ∉ s) : T.MayEnd (insert r s) r := by
  refine ⟨Finset.mem_insert_self r s, ?_⟩
  rw [Finset.erase_insert hr]
  exact h

theorem Allows.cases (h : T.Allows m e.1) :
    T.takenBy e = none ∧ T.endedBy e = none ∧ T.heldAfter m.held e = m.held ∨
      (∃ r, T.takenBy e = some r ∧ T.endedBy e = none ∧ T.MayTake m.held r ∧
        T.heldAfter m.held e = insert r m.held) ∨
      ∃ r, T.takenBy e = none ∧ T.endedBy e = some r ∧ T.MayEnd m.held r ∧
        T.heldAfter m.held e = m.held.erase r := by
  unfold heldAfter
  obtain ⟨c | l, reply⟩ := e
  · change I.Reply c at reply
    obtain ⟨-, -, hends, hgrants⟩ := h
    cases hend : T.ends c with
    | some r =>
      obtain ⟨hmay, hnone⟩ := hends r hend
      exact .inr (.inr ⟨r, hnone reply, hend, hmay, by simp [takenBy, endedBy, hend, hnone]⟩)
    | none =>
      cases hgrant : T.grants c reply with
      | some r =>
        exact .inr (.inl ⟨r, hgrant, hend, hgrants reply r hgrant,
          by simp [takenBy, endedBy, hend, hgrant]⟩)
      | none => exact .inl ⟨hgrant, hend, by simp [takenBy, endedBy, hend, hgrant]⟩
  · cases l with
    | take r => exact .inr (.inl ⟨r, rfl, rfl, h, rfl⟩)
    | finish r => exact .inr (.inr ⟨r, rfl, rfl, h, rfl⟩)
    | fill b | wipe b => exact .inl ⟨rfl, rfl, rfl⟩

theorem Founded.heldAfter (h : T.Founded m.held) (he : T.Allows m e.1) :
    T.Founded (T.heldAfter m.held e) := by
  rcases he.cases with ⟨-, -, heq⟩ | ⟨r, -, -, hmay, heq⟩ | ⟨r, -, -, hmay, heq⟩
  · rwa [heq]
  · rw [heq]
    exact h.take hmay.2
  · rw [heq]
    exact hmay.2

section
variable (T) [DecidableEq B]

def filledAfter (s : Finset B) : Event (UpkeepInterface I R B) → Finset B
  | ⟨.inr (.fill b), _⟩ => insert b s
  | ⟨.inr (.wipe b), _⟩ => s.erase b
  | _ => s

def keeping : Monitor (UpkeepInterface I R B) (Holdings R B) where
  observe m e := ⟨T.heldAfter m.held e, filledAfter m.filled e⟩
  allows := T.Allows

end

variable [DecidableEq B]

theorem Founded.after (h : T.Founded m.held) (ht : T.keeping.Obeyed m t) :
    T.Founded (T.keeping.after m t).held := by
  induction t generalizing m with
  | nil => exact h
  | cons e t ih =>
    obtain ⟨he, ht⟩ := Monitor.obeyed_cons.mp ht
    exact ih (m := T.keeping.observe m e) (h.heldAfter he) ht

def takings (T : Tenancy I R B) (r : R) (t : List (Event (UpkeepInterface I R B))) : ℕ :=
  t.countP fun e => T.takenBy e = some r

def endings (T : Tenancy I R B) (r : R) (t : List (Event (UpkeepInterface I R B))) : ℕ :=
  t.countP fun e => T.endedBy e = some r

def share (s : Finset R) (r : R) : ℕ := if r ∈ s then 1 else 0

theorem balance (ht : T.keeping.Obeyed m t) (r : R) :
    T.takings r t + share m.held r = T.endings r t + share (T.keeping.after m t).held r := by
  induction t generalizing m with
  | nil => rfl
  | cons e t ih =>
    obtain ⟨he, ht⟩ := Monitor.obeyed_cons.mp ht
    have hrest := ih ht
    have hstep : (T.keeping.observe m e).held = T.heldAfter m.held e := rfl
    rw [Monitor.after_cons, takings, endings, List.countP_cons, List.countP_cons]
    rw [takings, endings, hstep] at hrest
    rcases Allows.cases he with ⟨htaken, hended, heq⟩ | ⟨r', htaken, hended, hmay, heq⟩ |
      ⟨r', htaken, hended, hmay, heq⟩
    · rw [heq] at hrest
      simp only [htaken, hended, reduceCtorEq, decide_false, Bool.false_eq_true, if_false]
      omega
    · rw [heq] at hrest
      simp only [htaken, hended, reduceCtorEq, decide_false, Bool.false_eq_true, if_false,
        Option.some.injEq, decide_eq_true_eq]
      by_cases hr : r' = r
      · subst hr
        simp only [share, Finset.mem_insert_self, if_true, hmay.1, if_false] at hrest ⊢
        omega
      · simp only [share, Finset.mem_insert, Ne.symm hr, false_or, hr, if_false] at hrest ⊢
        omega
    · rw [heq] at hrest
      simp only [htaken, hended, reduceCtorEq, decide_false, Bool.false_eq_true, if_false,
        Option.some.injEq, decide_eq_true_eq]
      by_cases hr : r' = r
      · subst hr
        simp only [share, Finset.mem_erase, ne_eq, not_true, false_and, if_false, hmay.1,
          if_true] at hrest ⊢
        omega
      · simp only [share, Finset.mem_erase, ne_eq, Ne.symm hr, not_false_iff, true_and, hr,
          if_false] at hrest ⊢
        omega

/-- A buffer that holds nothing at the end was wiped after it was last filled. -/
theorem wiped {b : B} {past rest : List (Event (UpkeepInterface I R B))}
    (h : b ∉ (T.keeping.after m (past ++ ⟨.inr (.fill b), ()⟩ :: rest)).filled) :
    (⟨.inr (.wipe b), ()⟩ : Event (UpkeepInterface I R B)) ∈ rest := by
  rw [Monitor.after_append, Monitor.after_cons] at h
  have hfilled : b ∈ (T.keeping.observe (T.keeping.after m past) ⟨.inr (.fill b), ()⟩).filled :=
    Finset.mem_insert_self b _
  generalize T.keeping.observe (T.keeping.after m past) ⟨.inr (.fill b), ()⟩ = m' at h hfilled
  induction rest generalizing m' with
  | nil => exact absurd hfilled h
  | cons e rest ih =>
    by_cases hkeeps : b ∈ filledAfter m'.filled e
    · exact List.mem_cons_of_mem _ (ih _ h hkeeps)
    · obtain ⟨c | l, u⟩ := e
      · exact absurd hfilled hkeeps
      · cases l with
        | take | finish => exact absurd hfilled hkeeps
        | fill b' => exact absurd (Finset.mem_insert_of_mem hfilled) hkeeps
        | wipe b' =>
          by_cases hb : b = b'
          · subst hb
            exact List.mem_cons_self
          · exact absurd (Finset.mem_erase.mpr ⟨hb, hfilled⟩) hkeeps

section
variable {f : Unit → Program (UpkeepInterface I R B) α} {Q : α → Holdings R B → Prop} {b : B}

theorem accepts_take (h : T.MayTake m.held r)
    (hf : T.keeping.Accepts (f ()) ⟨insert r m.held, m.filled⟩ Q) :
    T.keeping.Accepts (Program.own (.take r) >>= f) m Q := ⟨h, fun _ => hf⟩

theorem accepts_finish (h : T.MayEnd m.held r)
    (hf : T.keeping.Accepts (f ()) ⟨m.held.erase r, m.filled⟩ Q) :
    T.keeping.Accepts (Program.own (.finish r) >>= f) m Q := ⟨h, fun _ => hf⟩

theorem accepts_fill (hf : T.keeping.Accepts (f ()) ⟨m.held, insert b m.filled⟩ Q) :
    T.keeping.Accepts (Program.own (.fill b) >>= f) m Q := ⟨trivial, fun _ => hf⟩

theorem accepts_wipe (hf : T.keeping.Accepts (f ()) ⟨m.held, m.filled.erase b⟩ Q) :
    T.keeping.Accepts (Program.own (.wipe b) >>= f) m Q := ⟨trivial, fun _ => hf⟩

end

section
variable {c : I.Call} {f : I.Reply c → Program (UpkeepInterface I R B) α}
  {Q : α → Holdings R B → Prop}

theorem accepts_use (hends : T.ends c = none) (hgrants : ∀ reply, T.grants c reply = none)
    (huses : ∀ r ∈ T.uses c, r ∈ m.held) (hbars : ∀ b ∈ T.bars c, b ∉ m.filled)
    (hf : ∀ reply, T.keeping.Accepts (f reply) m Q) :
    T.keeping.Accepts (Program.outside c >>= f) m Q := by
  refine ⟨⟨huses, hbars, by simp [hends], by simp [hgrants]⟩, fun (reply : I.Reply c) => ?_⟩
  have hkeeps : T.keeping.observe m ⟨.inl c, reply⟩ = m := by
    simp [keeping, heldAfter, filledAfter, takenBy, endedBy, hends, hgrants]
  rw [hkeeps]
  exact hf reply

theorem accepts_end (hends : T.ends c = some r) (hgrants : ∀ reply, T.grants c reply = none)
    (huses : T.uses c = []) (hbars : ∀ b ∈ T.bars c, b ∉ m.filled) (hmay : T.MayEnd m.held r)
    (hf : ∀ reply, T.keeping.Accepts (f reply) ⟨m.held.erase r, m.filled⟩ Q) :
    T.keeping.Accepts (Program.outside c >>= f) m Q := by
  refine ⟨⟨by simp [huses], hbars, ?_, by simp [hgrants]⟩, fun (reply : I.Reply c) => ?_⟩
  · intro r' hr'
    obtain rfl : r = r' := Option.some.inj (hends.symm.trans hr')
    exact ⟨hmay, hgrants⟩
  · have hobserve : T.keeping.observe m ⟨.inl c, reply⟩ = ⟨m.held.erase r, m.filled⟩ := by
      simp [keeping, heldAfter, filledAfter, takenBy, endedBy, hends, hgrants]
    rw [hobserve]
    exact hf reply

theorem accepts_grant (hends : T.ends c = none) (huses : ∀ r ∈ T.uses c, r ∈ m.held)
    (hbars : ∀ b ∈ T.bars c, b ∉ m.filled)
    (hmay : ∀ reply, ∀ r ∈ T.grants c reply, T.MayTake m.held r)
    (hf : ∀ reply, T.keeping.Accepts (f reply)
      ⟨(T.grants c reply).elim m.held fun r => insert r m.held, m.filled⟩ Q) :
    T.keeping.Accepts (Program.outside c >>= f) m Q := by
  refine ⟨⟨huses, hbars, by simp [hends], hmay⟩, fun (reply : I.Reply c) => ?_⟩
  have hobserve : T.keeping.observe m ⟨.inl c, reply⟩ =
      ⟨(T.grants c reply).elim m.held fun r => insert r m.held, m.filled⟩ := by
    cases hgrant : T.grants c reply <;>
      simp [keeping, heldAfter, filledAfter, takenBy, endedBy, hends, hgrant]
  rw [hobserve]
  exact hf reply

end

def Stays (s : Finset R) (F : Finset B) (m : Holdings R B) : Prop := m.held = s ∧ m.filled ⊆ F

theorem Stays.bind {p : Program (UpkeepInterface I R B) β} {f : Finset B}
    {next : β → Program (UpkeepInterface I R B) α} {S : β → Finset R} {F : β → Finset B}
    {Q : α → Holdings R B → Prop} (h : T.keeping.Accepts p ⟨s, f⟩ fun b => Stays (S b) (F b))
    (hnext : ∀ b f', f' ⊆ F b → T.keeping.Accepts (next b) ⟨S b, f'⟩ Q) :
    T.keeping.Accepts (p >>= next) ⟨s, f⟩ Q := by
  apply Monitor.Accepts.bind h
  intro b m hm
  obtain ⟨s', f'⟩ := m
  obtain ⟨rfl, hf'⟩ : s' = S b ∧ f' ⊆ F b := hm
  exact hnext b f' hf'

theorem wipe_subset {f F : Finset B} (h : f ⊆ F) (b : B) : f.erase b ⊆ F :=
  (Finset.erase_subset b f).trans h

structure Passive (T : Tenancy I R B) (s : Finset R) (c : I.Call) : Prop where
  uses : ∀ r ∈ T.uses c, r ∈ s
  bars : T.bars c = []
  ends : T.ends c = none
  grants : ∀ reply, T.grants c reply = none

theorem accepts_widen {p : Program I α} {P : α → Prop} (hp : p.Uses (T.Passive m.held))
    (hreturns : p.Returns P) :
    T.keeping.Accepts (p.widen : Program (UpkeepInterface I R B) α) m
      fun a m' => P a ∧ m' = m := by
  induction p with
  | done a => exact ⟨hreturns, rfl⟩
  | call c next ih =>
    obtain ⟨hc, hnext⟩ := hp
    exact accepts_use hc.ends hc.grants hc.uses (by simp [hc.bars]) fun reply =>
      ih reply (hnext reply) (hreturns reply)

end Tenancy
end FlipperApps.Calls
