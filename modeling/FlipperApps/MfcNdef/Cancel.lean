import FlipperApps.Calls.Residual
import FlipperApps.MfcNdef.Retry

/-!
# A cancel is prompt

Once the stop flag is only read as set, a run ends within the round that is under
way, wherever the flag was set.
-/

namespace FlipperApps.MfcNdef
open Calls Mifare
variable {σ : Type}

def StopSeen : FormatEvent → Prop
  | ⟨.readStop, stop⟩ => stop = true
  | _ => True

structure Prices where
  detectType : ℕ
  auth : ℕ
  writeBlock : ℕ
  readStop : ℕ
  progress : ℕ

def Prices.of (k : Prices) : FormatCall → ℕ
  | .detectType => k.detectType
  | .auth .. => k.auth
  | .writeBlock .. => k.writeBlock
  | .readStop => k.readStop
  | .progress _ => k.progress

structure Prices.Covers (k : Prices) (n : ℕ) : Prop where
  start : k.detectType + k.auth + k.readStop ≤ n
  round : 2 * k.writeBlock + k.progress + k.readStop ≤ n

theorem stopSeen_reply (c : FormatCall) : ∃ r, StopSeen ⟨c, r⟩ := by
  cases c with
  | readStop => exact ⟨true, rfl⟩
  | detectType => exact ⟨(.none, .type1k), trivial⟩
  | auth => exact ⟨MfClassicError.none, trivial⟩
  | writeBlock => exact ⟨MfClassicError.none, trivial⟩
  | progress => exact ⟨(), trivial⟩

section
variable {k : Prices} {n : ℕ} {fmt : MfcNdefFormat} {formatted : Bool} {b : Fin 64}
  {xs : List (Fin 64)}

def afterStop (fmt : MfcNdefFormat) (formatted : Bool) (b : Fin 64) (stop : Bool) :
    FormatProgram (Option (MfcNdefResult × MfcNdefFormat)) :=
  if stop then return some (.canceled, fmt)
  else if !(mfcNdefBuildBlock b).1 then do
    mfcNdefReportProgress fmt b
    return none
  else do
    let keys := mfcNdefSectorKeys formatted (mfcNdefSectorOfBlock b)
    let werr ← mfcNdefWriteEitherKey b keys.1 keys.2 (mfcNdefBuildBlock b).2
    mfcNdefFinishBlock fmt b werr

theorem formatBlock_eq (hstop : fmt.stop = true) :
    mfcNdefFormatBlock fmt formatted b =
      .call FormatCall.readStop (afterStop fmt formatted b) := by
  simp only [mfcNdefFormatBlock, mfcNdefStopRequested, hstop, if_true, readStop_bind]
  rfl

def NotStop (c : FormatCall) : Prop := c ≠ .readStop

theorem reportProgress_within :
    Within k.of StopSeen k.progress (mfcNdefReportProgress fmt b) := by
  unfold mfcNdefReportProgress
  split_ifs
  · exact within_call (n := 0) fun _ _ => within_done _
  · exact within_done _

theorem writeEitherKey_within {keyA keyB : Key} {bytes : Block} :
    Within k.of StopSeen (2 * k.writeBlock) (mfcNdefWriteEitherKey b keyA keyB bytes) := by
  rw [mfcNdefWriteEitherKey, writeBlock_bind, Nat.two_mul]
  refine within_call fun werr _ => ?_
  split_ifs
  · exact within_call (n := 0) fun _ _ => within_done _
  · exact within_done _

theorem finishBlock_within (werr : MfClassicError) :
    Within k.of StopSeen k.progress (mfcNdefFinishBlock fmt b werr) := by
  unfold mfcNdefFinishBlock
  split_ifs
  · exact within_done _
  · exact within_done _
  · exact (reportProgress_within.bind (m := 0) fun _ => within_done _)

theorem afterStop_uses {allowed : FormatCall → Prop} (hprogress : ∀ x, allowed (.progress x))
    (hwrite : ∀ key type, allowed (.writeBlock b key type (mfcNdefBuildBlock b).2)) (stop : Bool) :
    (afterStop fmt formatted b stop).Uses allowed := by
  unfold afterStop
  split_ifs
  · trivial
  · exact Program.uses_bind (reportProgress_uses hprogress) fun _ => trivial
  · exact Program.uses_bind (writeEitherKey_uses hwrite) fun _ => finishBlock_uses hprogress _

theorem afterStop_within (stop : Bool) :
    Within k.of StopSeen (2 * k.writeBlock + k.progress) (afterStop fmt formatted b stop) := by
  unfold afterStop
  split_ifs
  · exact within_done _
  · exact (reportProgress_within.bind (m := 0) fun _ => within_done _).mono (by omega)
  · exact writeEitherKey_within.bind fun _ => finishBlock_within _

theorem loop_within (hstop : fmt.stop = true) :
    Within k.of StopSeen k.readStop
      (Program.firstSome (mfcNdefFormatBlock fmt formatted) xs) := by
  cases xs with
  | nil => exact within_done _
  | cons x xs =>
    rw [Program.firstSome, formatBlock_eq hstop]
    refine within_call (n := 0) fun stop hseen => ?_
    obtain rfl : stop = true := hseen
    exact within_done _

theorem loop_residual_within (hstop : fmt.stop = true) (hk : k.Covers n)
    {q : FormatProgram (Option (MfcNdefResult × MfcNdefFormat))}
    (hq : (Program.firstSome (mfcNdefFormatBlock fmt formatted) xs).Residual q) :
    Within k.of StopSeen n q := by
  rcases Program.residual_firstSome hq with ⟨v, rfl⟩ | ⟨x, ys, p, hp, rfl⟩
  · exact within_done v
  · rw [formatBlock_eq hstop] at hp
    have hloop (xs : List (Fin 64)) : Within k.of StopSeen k.readStop
        (Program.firstSome (mfcNdefFormatBlock fmt formatted) xs) := loop_within hstop
    rcases Program.residual_call hp with rfl | ⟨stop, hp⟩
    · rw [← formatBlock_eq hstop]
      exact (hloop (x :: ys)).mono (by have := hk.round; omega)
    · have huses : (afterStop fmt formatted x stop).Uses fun c => ∀ r, StopSeen ⟨c, r⟩ :=
        afterStop_uses (fun _ _ => trivial) (fun _ _ _ => trivial) stop
      have hbody := (afterStop_within (k := k) stop).residual huses stopSeen_reply hp
      refine (hbody.bind (m := k.readStop) fun r => ?_).mono hk.round
      cases r with
      | none => exact hloop ys
      | some v => exact within_done _

def afterProbe (fmt : MfcNdefFormat) (formatted : Bool) :
    FormatProgram (MfcNdefResult × MfcNdefFormat) := do
  match ← Program.firstSome (mfcNdefFormatBlock fmt formatted) (List.finRange 64) with
  | some early => return early
  | none => return (.ok, fmt)

def afterDetect (fmt : MfcNdefFormat) (detected : MfClassicError × MfClassicType) :
    FormatProgram (MfcNdefResult × MfcNdefFormat) :=
  if detected.1 ≠ .none then .done (.noCard, fmt)
  else if detected.2 ≠ .type1k then .done (.notClassic1k, fmt)
  else .call (.auth 0 (mfcNdefSectorKeys true 0).1 .a) fun auth => afterProbe fmt (auth == .none)

theorem formatRun_eq :
    mfcNdefFormatRun fmt = .call FormatCall.detectType (afterDetect fmt) := by
  simp only [mfcNdefFormatRun, detectType_bind, auth_bind]
  rfl

theorem afterProbe_within (hstop : fmt.stop = true) :
    Within k.of StopSeen k.readStop (afterProbe fmt formatted) := by
  refine Within.bind (m := 0) (loop_within hstop) fun v => ?_
  cases v <;> exact within_done _

theorem afterDetect_within (hstop : fmt.stop = true)
    (detected : MfClassicError × MfClassicType) :
    Within k.of StopSeen (k.auth + k.readStop) (afterDetect fmt detected) := by
  unfold afterDetect
  split_ifs
  · exact within_done _
  · exact within_done _
  · exact within_call fun _ _ => afterProbe_within hstop

theorem formatRun_residual_within (hstop : fmt.stop = true) (hk : k.Covers n)
    {q : FormatProgram (MfcNdefResult × MfcNdefFormat)}
    (hq : (mfcNdefFormatRun fmt).Residual q) : Within k.of StopSeen n q := by
  have hstart := hk.start
  rw [formatRun_eq] at hq
  rcases Program.residual_call hq with rfl | ⟨detected, hq⟩
  · have hall : Within k.of StopSeen (k.detectType + (k.auth + k.readStop))
        (.call FormatCall.detectType (afterDetect fmt)) :=
      within_call fun detected _ => afterDetect_within hstop detected
    exact hall.mono (by omega)
  have hdetected := afterDetect_within (k := k) hstop detected
  unfold afterDetect at hq hdetected
  split_ifs at hq hdetected
  · rw [Program.residual_done hq]
    exact within_done _
  · rw [Program.residual_done hq]
    exact within_done _
  rcases Program.residual_call hq with rfl | ⟨auth, hq⟩
  · exact hdetected.mono (by omega)
  rcases Program.residual_bind hq with ⟨p, hp, rfl⟩ | ⟨v, hq⟩
  · refine ((loop_residual_within hstop hk hp).bind (m := 0) fun v => ?_).mono (Nat.le_refl n)
    cases v <;> exact within_done _
  · cases v <;> rw [Program.residual_done hq] <;> exact within_done _

/-- The calls of a rest in which the flag is only read as set: they are about one
block, and a reading of the flag is the last of them. -/
structure WindsUp (t : List FormatEvent) (result : MfcNdefResult) : Prop where
  block : ∃ b, ∀ e ∈ t, OwnBlock b e.1
  canceled : (∃ e ∈ t, e.1 = .readStop) → result = .canceled

def loopResult : Option (MfcNdefResult × MfcNdefFormat) → MfcNdefResult
  | some early => early.1
  | none => .ok

theorem windsUp_nil (result : MfcNdefResult) : WindsUp [] result :=
  ⟨⟨0, by simp⟩, by simp⟩

theorem WindsUp.prepend {t u : List FormatEvent} {result : MfcNdefResult}
    (ht : ∀ e ∈ t, OwnBlock b e.1 ∧ NotStop e.1) (hu : ∀ e ∈ u, e.1 = .readStop)
    (hcanceled : u ≠ [] → result = .canceled) : WindsUp (t ++ u) result := by
  refine ⟨⟨b, fun e he => ?_⟩, fun ⟨e, he, hstop⟩ => ?_⟩
  · rcases List.mem_append.mp he with he | he
    · exact (ht e he).1
    · rw [hu e he]
      trivial
  · rcases List.mem_append.mp he with he | he
    · exact absurd hstop (ht e he).2
    · exact hcanceled (List.ne_nil_of_mem he)

theorem loop_windsUp (hstop : fmt.stop = true) :
    Always (answering StopSeen)
      (Program.firstSome (mfcNdefFormatBlock fmt formatted) xs) () fun t r _ =>
        (∀ e ∈ t, e.1 = .readStop) ∧ (t ≠ [] → loopResult r = .canceled) := by
  cases xs with
  | nil => exact ⟨by simp, by simp⟩
  | cons x xs =>
    rw [Program.firstSome, formatBlock_eq hstop]
    intro stop _ hseen
    obtain rfl : stop = true := hseen
    exact ⟨by simp, fun _ => rfl⟩

theorem loop_residual_windsUp (hstop : fmt.stop = true)
    {q : FormatProgram (Option (MfcNdefResult × MfcNdefFormat))}
    (hq : (Program.firstSome (mfcNdefFormatBlock fmt formatted) xs).Residual q) :
    Always (answering StopSeen) q () fun t r _ => WindsUp t (loopResult r) := by
  have hloop (xs : List (Fin 64)) : Always (answering StopSeen)
      (Program.firstSome (mfcNdefFormatBlock fmt formatted) xs) () fun t r _ =>
        (∀ e ∈ t, e.1 = .readStop) ∧ (t ≠ [] → loopResult r = .canceled) := loop_windsUp hstop
  rcases Program.residual_firstSome hq with ⟨v, rfl⟩ | ⟨x, ys, p, hp, rfl⟩
  · exact windsUp_nil _
  rw [formatBlock_eq hstop] at hp
  rcases Program.residual_call hp with rfl | ⟨stop, hp⟩
  · rw [← formatBlock_eq hstop]
    refine (hloop (x :: ys)).mono fun t r _ h => ?_
    exact WindsUp.prepend (b := 0) (t := []) (by simp) h.1 h.2
  · have huses : (afterStop fmt formatted x stop).Uses fun c => OwnBlock x c ∧ NotStop c :=
      afterStop_uses (fun _ => ⟨trivial, by simp [NotStop]⟩)
        (fun _ _ => ⟨rfl, by simp [NotStop]⟩) stop
    apply (always_uses (huses.residual hp)).bind
    intro t r _ ht
    cases r with
    | none => exact (hloop ys).mono fun u r _ h => WindsUp.prepend ht h.1 h.2
    | some v => exact WindsUp.prepend ht (u := []) (by simp) (by simp)

theorem formatRun_residual_windsUp (hstop : fmt.stop = true)
    {q : FormatProgram (MfcNdefResult × MfcNdefFormat)}
    (hq : (mfcNdefFormatRun fmt).Residual q) :
    Always (answering StopSeen) q () fun t v _ => WindsUp t v.1 := by
  have hprobe (formatted : Bool) {q : FormatProgram (MfcNdefResult × MfcNdefFormat)}
      (hq : (afterProbe fmt formatted).Residual q) :
      Always (answering StopSeen) q () fun t v _ => WindsUp t v.1 := by
    rcases Program.residual_bind hq with ⟨p, hp, rfl⟩ | ⟨v, hq⟩
    · apply (loop_residual_windsUp hstop hp).bind
      intro t v _ ht
      cases v <;> simpa [loopResult] using ht
    · cases v <;> rw [Program.residual_done hq] <;> exact windsUp_nil _
  -- The calls before the first round are about no block.
  have hfirst {c : FormatCall} {r : c.Reply} {t : List FormatEvent} {result : MfcNdefResult}
      (hc : ∀ b, OwnBlock b c ∧ NotStop c) (ht : WindsUp t result) :
      WindsUp (⟨c, r⟩ :: t) result := by
    obtain ⟨b, hb⟩ := ht.block
    refine ⟨⟨b, ?_⟩, fun ⟨e, he, hread⟩ => ?_⟩
    · simpa using ⟨(hc b).1, hb⟩
    · rcases List.mem_cons.mp he with rfl | he
      · exact absurd hread (hc b).2
      · exact ht.canceled ⟨e, he, hread⟩
  have hauth : Always (answering StopSeen)
      (.call (FormatCall.auth 0 (mfcNdefSectorKeys true 0).1 .a)
        fun auth => afterProbe fmt (auth == MfClassicError.none)) ()
      fun t v _ => WindsUp t v.1 := by
    intro auth _ _
    exact (hprobe _ (.refl _)).mono fun t v _ ht =>
      hfirst (fun _ => ⟨trivial, by simp [NotStop]⟩) ht
  have hdetect (detected : MfClassicError × MfClassicType) :
      Always (answering StopSeen) (afterDetect fmt detected) () fun t v _ => WindsUp t v.1 := by
    unfold afterDetect
    split_ifs
    · exact windsUp_nil _
    · exact windsUp_nil _
    · exact hauth
  rw [formatRun_eq] at hq
  rcases Program.residual_call hq with rfl | ⟨detected, hq⟩
  · intro detected _ _
    exact (hdetect detected).mono fun t v _ ht =>
      hfirst (fun _ => ⟨trivial, by simp [NotStop]⟩) ht
  unfold afterDetect at hq
  split_ifs at hq
  · rw [Program.residual_done hq]
    exact windsUp_nil _
  · rw [Program.residual_done hq]
    exact windsUp_nil _
  · rcases Program.residual_call hq with rfl | ⟨auth, hq⟩
    · exact hauth
    · exact hprobe _ hq

def everyCall : Prices := ⟨1, 1, 1, 1, 1⟩

def writesOnly : Prices := ⟨0, 0, 1, 0, 0⟩

theorem cost_everyCall (t : List FormatEvent) : cost everyCall.of t = t.length := by
  induction t with
  | nil => rfl
  | cons e t ih =>
    have hone : everyCall.of e.1 = 1 := by cases e.1 <;> rfl
    rw [cost_cons, ih, hone, List.length_cons, Nat.add_comm]

/-- From where the flag is set on, whatever the poller answers, a run makes four
calls at most, with two writes to one block among them. -/
theorem cancel_is_prompt {E : Environment FormatInterface σ} {s s' : σ}
    {past rest : List FormatEvent} {v : MfcNdefResult × MfcNdefFormat} (hstop : fmt.stop = true)
    (hx : Executes E (mfcNdefFormatRun fmt) s (past ++ rest) v s')
    (hrest : ∀ e ∈ rest, StopSeen e) :
    rest.length ≤ 4 ∧ cost writesOnly.of rest ≤ 2 ∧ WindsUp rest v.1 := by
  have hwithin {k : Prices} {n : ℕ} (hk : k.Covers n) : cost k.of rest ≤ n := by
    have hrests (q) (hq : (mfcNdefFormatRun fmt).Residual q) :
        Always (answering StopSeen) q () fun t _ _ => cost k.of t ≤ n :=
      formatRun_residual_within hstop hk hq
    exact rest_of_residual hrests hx hrest
  refine ⟨?_, hwithin ⟨Nat.zero_le 2, Nat.le_refl 2⟩, ?_⟩
  · rw [← cost_everyCall]
    exact hwithin ⟨by decide, Nat.le_refl 4⟩
  · exact rest_of_residual (fun q hq => formatRun_residual_windsUp hstop hq) hx hrest

end

def untilBlockOne : List FormatEvent :=
  [⟨.detectType, (.none, .type1k)⟩, ⟨.auth 0 mfcNdefKeyMadA .a, MfClassicError.other 1⟩,
    ⟨.readStop, false⟩, ⟨.progress 0, ()⟩, ⟨.readStop, false⟩]

/-- The flag is set now: block 1 takes key A only, and the next round sees the flag. -/
def canceledInBlockOne : List FormatEvent :=
  [attemptEvent false 1 (.other 1) .b, attemptEvent false 1 .none .a, ⟨.progress 1, ()⟩,
    ⟨.readStop, true⟩]

theorem cancel_is_prompt_inBlockOne :
    canceledInBlockOne.length ≤ 4 ∧ cost writesOnly.of canceledInBlockOne ≤ 2 ∧
      WindsUp canceledInBlockOne .canceled := by
  have hx : Executes (fun (s : Unit) _ _ s' => s' = s) (mfcNdefFormatRun appFormat) ()
      (untilBlockOne ++ canceledInBlockOne) (.canceled, appFormat) () := by
    iterate 9 apply Executes.call rfl
    exact .done _ _
  exact cancel_is_prompt rfl hx
    (by simp [canceledInBlockOne, StopSeen, attemptEvent, attemptCall])

end FlipperApps.MfcNdef
