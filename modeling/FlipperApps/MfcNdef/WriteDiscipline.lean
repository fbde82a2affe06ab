import FlipperApps.MfcNdef.Rounds
import Mathlib.Data.List.Forall2
import Mathlib.Data.List.TakeDrop

/-!
# What a format run writes

From any card, in any order of failures and stop requests, a run writes block
after block from block 1 on, each with one attempt with key B and one with key A
where that failed, and stops at the first block that neither has written. The
result and the progress callback tell exactly how far it came.
-/

namespace FlipperApps.MfcNdef
open Calls Mifare
variable {σ : Type}

structure Attempt where
  block : Fin 64
  key : Key
  type : KeyType
  data : Block
  error : MfClassicError

def asAttempt : FormatEvent → Option Attempt
  | ⟨.writeBlock block key type data, error⟩ => some ⟨block, key, type, data, error⟩
  | _ => none

def asProgress : FormatEvent → Option (Fin 64)
  | ⟨.progress block, _⟩ => some block
  | _ => none

def asStopRead : FormatEvent → Option Bool
  | ⟨.readStop, stop⟩ => some stop
  | _ => none

def attempts (t : List FormatEvent) : List Attempt := t.filterMap asAttempt

def accepted (t : List FormatEvent) : List (Fin 64) :=
  ((attempts t).filter fun a => a.error = .none).map Attempt.block

def progressed (t : List FormatEvent) : List (Fin 64) := t.filterMap asProgress

def stopReads (t : List FormatEvent) : List Bool := t.filterMap asStopRead

def foundType : List FormatEvent → Option MfClassicType
  | ⟨.detectType, found⟩ :: _ => if found.1 = .none then some found.2 else none
  | _ => none

/-- The MAD key opened sector 0. -/
def probed : List FormatEvent → Bool
  | _ :: ⟨.auth .., error⟩ :: _ => error == .none
  | _ => false

def templateAttempt (formatted : Bool) (b : Fin 64) (error : MfClassicError) : KeyType → Attempt
  | .a => ⟨b, (mfcNdefSectorKeys formatted (mfcNdefSectorOfBlock b)).1, .a,
    (mfcNdefBuildBlock b).2, error⟩
  | .b => ⟨b, (mfcNdefSectorKeys formatted (mfcNdefSectorOfBlock b)).2, .b,
    (mfcNdefBuildBlock b).2, error⟩

/-- One attempt with key B and, only if that failed, one with key A. -/
inductive TriedOn (formatted : Bool) (b : Fin 64) : List Attempt → MfClassicError → Prop where
  | keyB : TriedOn formatted b [templateAttempt formatted b .none .b] .none
  | keyA {error werr : MfClassicError} (herror : error ≠ .none) :
      TriedOn formatted b
        [templateAttempt formatted b error .b, templateAttempt formatted b werr .a] werr

def blocksBefore (n : ℕ) : List (Fin 64) := (List.finRange 64).take n

section
variable {t u : List FormatEvent} {formatted : Bool} {b : Fin 64} {werr : MfClassicError}

@[simp] theorem attempts_append : attempts (t ++ u) = attempts t ++ attempts u :=
  List.filterMap_append

@[simp] theorem accepted_append : accepted (t ++ u) = accepted t ++ accepted u := by
  simp [accepted]

@[simp] theorem progressed_append : progressed (t ++ u) = progressed t ++ progressed u :=
  List.filterMap_append

@[simp] theorem stopReads_append : stopReads (t ++ u) = stopReads t ++ stopReads u :=
  List.filterMap_append

theorem accepted_of_attempts_nil (h : attempts t = []) : accepted t = [] := by
  rw [accepted, h]
  rfl

theorem blocksBefore_succ (b : Fin 64) : blocksBefore (b + 1) = blocksBefore b ++ [b] := by
  have h := List.take_concat_get' (List.finRange 64) b (by simp)
  rw [List.getElem_finRange] at h
  exact h.symm

theorem tail_blocksBefore_succ (hb : b ≠ 0) :
    (blocksBefore (b + 1)).tail = (blocksBefore b).tail ++ [b] := by
  have hpos : 0 < b.val := Nat.pos_of_ne_zero fun h => hb (Fin.ext h)
  have hne : blocksBefore b ≠ [] := by
    apply List.ne_nil_of_length_pos
    simp only [blocksBefore, List.length_take, List.length_finRange]
    omega
  rw [blocksBefore_succ, List.tail_append_of_ne_nil hne]

theorem mem_blocksBefore {n : ℕ} (h : b ∈ blocksBefore n) : b.val < n := by
  obtain ⟨i, hi, rfl⟩ := List.mem_take_iff_getElem.mp h
  simp only [List.getElem_finRange, Fin.val_cast]
  omega

theorem TriedOn.block_eq {tried : List Attempt} (h : TriedOn formatted b tried werr) :
    ∀ a ∈ tried, a.block = b := by
  cases h with
  | keyB => simp [templateAttempt]
  | keyA => simp [templateAttempt]

end

section
variable {E : Environment FormatInterface σ} {fmt : MfcNdefFormat} {formatted given : Bool}
  {b : Fin 64} {s s' : σ} {t u : List FormatEvent} {werr : MfClassicError}

theorem Attempts.triedOn (h : Attempts E formatted b s t werr s') :
    TriedOn formatted b (attempts t) werr ∧ progressed t = [] ∧ stopReads t = [] := by
  cases h with
  | keyB => exact ⟨.keyB, rfl, rfl⟩
  | keyA herror => exact ⟨.keyA herror, rfl, rfl⟩

theorem TriedOn.accepts {tried : List Attempt} (h : TriedOn formatted b tried werr) :
    ((tried.filter fun a => a.error = .none).map Attempt.block) =
      if werr = .none then [b] else [] := by
  cases h with
  | keyB => rfl
  | keyA herror =>
    by_cases hwerr : werr = .none
    · simp [templateAttempt, herror, hwerr]
    · simp [templateAttempt, herror, hwerr]

theorem Optionally.stopRead (h : Optionally E given .readStop false s t s') :
    attempts t = [] ∧ progressed t = [] ∧ stopReads t = if given then [false] else [] := by
  cases h with
  | omitted hgiven => simp [hgiven, attempts, progressed, stopReads]
  | made hgiven =>
    rw [if_pos hgiven]
    exact ⟨rfl, rfl, rfl⟩

theorem Optionally.progress (h : Optionally E given (.progress b) () s t s') :
    attempts t = [] ∧ stopReads t = [] ∧ progressed t = if given then [b] else [] := by
  cases h with
  | omitted hgiven => simp [hgiven, attempts, progressed, stopReads]
  | made hgiven =>
    rw [if_pos hgiven]
    exact ⟨rfl, rfl, rfl⟩

/-- Block 0 was skipped and the blocks 1 to `n - 1` were accepted, each once; the
callback saw them in this order. -/
structure Handled (fmt : MfcNdefFormat) (t : List FormatEvent) (n : ℕ) : Prop where
  accepted_eq : accepted t = (blocksBefore n).tail
  progressed_eq : progressed t = if fmt.progressCb then blocksBefore n else []

structure Written (fmt : MfcNdefFormat) (formatted : Bool) (t : List FormatEvent) (n : ℕ) :
    Prop where
  handled : Handled fmt t n
  rounds : ∃ rounds, attempts t = rounds.flatten ∧ List.Forall₂
    (fun b tried => TriedOn formatted b tried .none) (blocksBefore n).tail rounds
  below : ∀ a ∈ attempts t, a.block ≠ 0 ∧ a.block < n
  reads : stopReads t = if fmt.stop then List.replicate n false else []

theorem written_nil : Written fmt formatted [] 0 :=
  ⟨⟨rfl, by simp [progressed, blocksBefore]⟩, ⟨[], rfl, .nil⟩, by simp [attempts],
    by simp [stopReads]⟩

theorem append_replicate_if {α : Type} (given : Bool) (n : ℕ) (x : α) :
    ((if given then List.replicate n x else []) ++ if given then [x] else []) =
      if given then List.replicate (n + 1) x else [] := by
  cases given
  · rfl
  · exact List.replicate_succ'.symm

theorem progressed_succ (given : Bool) (b : Fin 64) :
    ((if given then blocksBefore b else []) ++ if given then [b] else []) =
      if given then blocksBefore (b + 1) else [] := by
  cases given
  · rfl
  · exact (blocksBefore_succ b).symm

theorem Written.skip {v : List FormatEvent} (h : Written fmt formatted t b) (hb : b = 0)
    (hasked : Optionally E fmt.stop .readStop false s u s')
    {s₁ s₂ : σ} (hreported : Optionally E fmt.progressCb (.progress b) () s₁ v s₂) :
    Written fmt formatted (t ++ (u ++ v)) (b + 1) := by
  subst hb
  obtain ⟨hu, hprogress, hstop⟩ := hasked.stopRead
  obtain ⟨hv, hstop', hprogress'⟩ := hreported.progress
  have hattempts : attempts (t ++ (u ++ v)) = attempts t := by simp [hu, hv]
  refine ⟨⟨?_, ?_⟩, ?_, ?_, ?_⟩
  · rw [accepted, hattempts]
    exact h.handled.accepted_eq
  · simp only [progressed_append, h.handled.progressed_eq, hprogress, hprogress', List.nil_append]
    exact progressed_succ fmt.progressCb 0
  · obtain ⟨rounds, hrounds, hforall⟩ := h.rounds
    exact ⟨rounds, hattempts.trans hrounds, hforall⟩
  · intro a ha
    rw [hattempts] at ha
    exact absurd (h.below a ha).2 (Nat.not_lt_zero _)
  · simp only [stopReads_append, h.reads, hstop, hstop', List.append_nil]
    exact append_replicate_if fmt.stop _ false

theorem Written.write {v w : List FormatEvent} (h : Written fmt formatted t b) (hb : b ≠ 0)
    (hasked : Optionally E fmt.stop .readStop false s u s') {s₁ s₂ s₃ s₄ : σ}
    (hwritten : Attempts E formatted b s₁ v .none s₂)
    (hreported : Optionally E fmt.progressCb (.progress b) () s₃ w s₄) :
    Written fmt formatted (t ++ (u ++ (v ++ w))) (b + 1) := by
  obtain ⟨hu, hprogress, hstop⟩ := hasked.stopRead
  obtain ⟨htried, hprogress', hstop'⟩ := hwritten.triedOn
  obtain ⟨hw, hstop'', hprogress''⟩ := hreported.progress
  have hattempts : attempts (t ++ (u ++ (v ++ w))) = attempts t ++ attempts v := by simp [hu, hw]
  refine ⟨⟨?_, ?_⟩, ?_, ?_, ?_⟩
  · rw [tail_blocksBefore_succ hb, ← h.handled.accepted_eq, accepted, hattempts, List.filter_append,
      List.map_append, htried.accepts]
    rfl
  · simp only [progressed_append, h.handled.progressed_eq, hprogress, hprogress', hprogress'',
      List.nil_append]
    exact progressed_succ fmt.progressCb b
  · obtain ⟨rounds, hrounds, hforall⟩ := h.rounds
    refine ⟨rounds ++ [attempts v], ?_, ?_⟩
    · rw [hattempts, hrounds, List.flatten_append, List.flatten_singleton]
    · rw [tail_blocksBefore_succ hb]
      exact List.rel_append hforall (.cons htried .nil)
  · intro a ha
    rw [hattempts] at ha
    rcases List.mem_append.mp ha with ha | ha
    · exact ⟨(h.below a ha).1, (h.below a ha).2.trans (Nat.lt_succ_self _)⟩
    · rw [htried.block_eq a ha]
      exact ⟨hb, Nat.lt_succ_self _⟩
  · simp only [stopReads_append, h.reads, hstop, hstop', hstop'', List.append_nil]
    exact append_replicate_if fmt.stop _ false

end

inductive Ended (fmt : MfcNdefFormat) (formatted : Bool) :
    List FormatEvent → MfcNdefResult × MfcNdefFormat → Prop where
  | canceled {t : List FormatEvent} {b : Fin 64} (hstop : fmt.stop = true)
      (h : Written fmt formatted t b) :
      Ended fmt formatted (t ++ [⟨.readStop, true⟩]) (.canceled, fmt)
  | failed {t u : List FormatEvent} {b : Fin 64} {werr : MfClassicError} (hb : b ≠ 0)
      (hwerr : werr ≠ .none) (h : Written fmt formatted t b)
      (htried : TriedOn formatted b (attempts u) werr) (hprogress : progressed u = []) :
      Ended fmt formatted (t ++ u) (failureResult werr, { fmt with failBlock := b })

section
variable {E : Environment FormatInterface σ} {fmt : MfcNdefFormat} {formatted : Bool}
  {b : Fin 64} {s s' : σ} {t u : List FormatEvent}

theorem Round.written {r : Option (MfcNdefResult × MfcNdefFormat)}
    (h : Round E fmt formatted b s u r s') (ht : Written fmt formatted t b) :
    Post.early (fun t v (_ : σ) => Ended fmt formatted t v)
      (fun t _ => Written fmt formatted t (b + 1)) (t ++ u) r s' := by
  cases h with
  | canceled hstop hE => exact .canceled hstop ht
  | skipped hb hasked hreported => exact ht.skip hb hasked hreported
  | accepted hb hasked hwritten hreported => exact ht.write hb hasked hwritten hreported
  | failed hb hwerr hasked hattempts =>
    obtain ⟨hu, hprogress, _⟩ := hasked.stopRead
    obtain ⟨htried, hprogress', _⟩ := hattempts.triedOn
    refine .failed hb hwerr ht ?_ ?_
    · rwa [attempts_append, hu, List.nil_append]
    · rw [progressed_append, hprogress, hprogress', List.nil_append]

theorem loop_written :
    Always E (Program.firstSome (mfcNdefFormatBlock fmt formatted) (List.finRange 64)) s
      (Post.early (fun t v _ => Ended fmt formatted t v)
        fun t _ => Written fmt formatted t 64) := by
  apply always_firstSome_finRange (fun t n _ => Written fmt formatted t n) _ _ written_nil
  intro t b s ht
  exact formatBlock_round.mono fun u r s' hround => hround.written ht

end

structure WriteDiscipline (fmt : MfcNdefFormat) (t : List FormatEvent)
    (v : MfcNdefResult × MfcNdefFormat) : Prop where
  block_ne_zero : ∀ a ∈ attempts t, a.block ≠ 0
  undetected : foundType t ≠ some .type1k → attempts t = []
  ascending : ∃ n rounds, attempts t = rounds.flatten ∧ List.Forall₂
    (fun b tried => ∃ werr, TriedOn (probed t) b tried werr) (blocksBefore n).tail rounds
  ok_iff : v.1 = .ok ↔ ∀ b ≠ 0, (accepted t).count b = 1
  handled : ∃ n, Handled fmt t n
  canceled : v.1 = .canceled → ∃ b : Fin 64, Handled fmt t b ∧
    (∀ a ∈ attempts t, a.block < b) ∧ stopReads t = List.replicate b false ++ [true]
  failed : v.1 = .writeFailed ∨ v.1 = .noCard ∧ foundType t ≠ none →
    ∃ b : Fin 64, b ≠ 0 ∧ v.2.failBlock = b ∧ Handled fmt t b ∧
      ∃ before error werr, attempts t = before ++
        [templateAttempt (probed t) b error .b, templateAttempt (probed t) b werr .a] ∧
      error ≠ .none ∧ werr ≠ .none ∧ ∀ a ∈ before, a.block < b

section
variable {fmt : MfcNdefFormat} {formatted : Bool} {t : List FormatEvent}
  {v : MfcNdefResult × MfcNdefFormat} {n : ℕ}

theorem Handled.accepted_all (h : Handled fmt t 64) {b : Fin 64} (hb : b ≠ 0) :
    (accepted t).count b = 1 := by
  rw [h.accepted_eq]
  revert b
  decide

theorem Handled.not_accepted_all (h : Handled fmt t n) (hn : n < 64) :
    ¬ ∀ b ≠ 0, (accepted t).count b = 1 := by
  intro hall
  have hlast : (63 : Fin 64) ∈ accepted t := by
    rw [← List.count_pos_iff, hall 63 (by decide)]
    exact one_pos
  rw [h.accepted_eq] at hlast
  have hlt : 63 < n := mem_blocksBefore (List.mem_of_mem_tail hlast)
  omega

theorem undetected_discipline (hattempts : attempts t = []) (hprogress : progressed t = [])
    (hv : v.1 = .noCard ∧ foundType t = none ∨ v.1 = .notClassic1k) : WriteDiscipline fmt t v := by
  have hhandled : Handled fmt t 0 := by
    refine ⟨?_, ?_⟩
    · exact accepted_of_attempts_nil hattempts
    · rw [hprogress]
      exact (ite_self []).symm
  refine ⟨by simp [hattempts], fun _ => hattempts, ⟨0, [], hattempts, .nil⟩, ?_,
    ⟨0, hhandled⟩, ?_, ?_⟩
  · have hne : v.1 ≠ .ok := by
      rcases hv with ⟨hv, _⟩ | hv <;> simp [hv]
    exact iff_of_false hne (hhandled.not_accepted_all (by decide))
  · rcases hv with ⟨hv, _⟩ | hv <;> simp [hv]
  · rcases hv with ⟨hv, hfound⟩ | hv
    · simp [hv, hfound]
    · simp [hv]

def detected (auth : MfClassicError) (t : List FormatEvent) : List FormatEvent :=
  ⟨.detectType, (.none, .type1k)⟩ :: ⟨.auth 0 (mfcNdefSectorKeys true 0).1 .a, auth⟩ :: t

theorem Handled.append {u : List FormatEvent} (h : Handled fmt t n) (haccepted : accepted u = [])
    (hprogress : progressed u = []) : Handled fmt (t ++ u) n := by
  refine ⟨?_, ?_⟩
  · rw [accepted_append, haccepted, List.append_nil, h.accepted_eq]
  · rw [progressed_append, hprogress, List.append_nil, h.progressed_eq]

theorem Handled.detected {auth : MfClassicError} (h : Handled fmt t n) :
    Handled fmt (detected auth t) n := ⟨h.accepted_eq, h.progressed_eq⟩

theorem Written.ascending (h : Written fmt formatted t n) :
    ∃ rounds, attempts t = rounds.flatten ∧ List.Forall₂
      (fun b tried => ∃ werr, TriedOn formatted b tried werr) (blocksBefore n).tail rounds := by
  obtain ⟨rounds, hrounds, hforall⟩ := h.rounds
  exact ⟨rounds, hrounds, hforall.imp fun _ _ htried => ⟨_, htried⟩⟩

theorem Written.discipline {auth : MfClassicError} (h : Written fmt (auth == .none) t 64) :
    WriteDiscipline fmt (detected auth t) (.ok, fmt) := by
  refine ⟨fun a ha => (h.below a ha).1, fun hfound => absurd rfl hfound, ⟨64, h.ascending⟩, ?_,
    ⟨64, h.handled.detected⟩, (nomatch ·), ?_⟩
  · exact iff_of_true rfl fun b => h.handled.detected.accepted_all
  · rintro (hv | ⟨hv, _⟩) <;> cases hv

theorem canceled_discipline {auth : MfClassicError} {b : Fin 64} (hstop : fmt.stop = true)
    (h : Written fmt (auth == .none) t b) :
    WriteDiscipline fmt (detected auth (t ++ [⟨.readStop, true⟩])) (.canceled, fmt) := by
  have hattempts : attempts (t ++ [⟨.readStop, true⟩]) = attempts t := by
    rw [attempts_append]
    exact List.append_nil _
  have hhandled : Handled fmt (detected auth (t ++ [⟨.readStop, true⟩])) b :=
    (h.handled.append rfl rfl).detected
  have hreads : stopReads (t ++ [⟨.readStop, true⟩]) = List.replicate b false ++ [true] := by
    rw [stopReads_append, h.reads, if_pos hstop]
    rfl
  have hbelow : ∀ a ∈ attempts (t ++ [⟨.readStop, true⟩]), a.block ≠ 0 ∧ a.block < b := by
    rw [hattempts]
    exact h.below
  refine ⟨fun a ha => (hbelow a ha).1, fun hfound => absurd rfl hfound, ⟨b, ?_⟩, ?_,
    ⟨b, hhandled⟩, fun _ => ⟨b, hhandled, fun a ha => (hbelow a ha).2, hreads⟩, ?_⟩
  · change ∃ rounds, attempts (t ++ [⟨.readStop, true⟩]) = _ ∧ _
    rw [hattempts]
    exact h.ascending
  · exact iff_of_false (nomatch ·) (hhandled.not_accepted_all b.isLt)
  · rintro (hv | ⟨hv, _⟩) <;> cases hv

theorem TriedOn.refused {tried : List Attempt} {b : Fin 64} {werr : MfClassicError}
    (h : TriedOn formatted b tried werr) (hwerr : werr ≠ .none) :
    ∃ error, error ≠ .none ∧
      tried = [templateAttempt formatted b error .b, templateAttempt formatted b werr .a] := by
  cases h with
  | keyB => exact absurd rfl hwerr
  | keyA herror => exact ⟨_, herror, rfl⟩

theorem failed_discipline {auth werr : MfClassicError} {b : Fin 64} {u : List FormatEvent}
    (hb : b ≠ 0) (hwerr : werr ≠ .none) (h : Written fmt (auth == .none) t b)
    (htried : TriedOn (auth == .none) b (attempts u) werr) (hprogress : progressed u = []) :
    WriteDiscipline fmt (detected auth (t ++ u))
      (failureResult werr, { fmt with failBlock := b }) := by
  have haccepted : accepted u = [] := htried.accepts.trans (if_neg hwerr)
  have hhandled : Handled fmt (detected auth (t ++ u)) b :=
    (h.handled.append haccepted hprogress).detected
  obtain ⟨error, herror, hu⟩ := htried.refused hwerr
  refine ⟨?_, fun hfound => absurd rfl hfound, ⟨b + 1, ?_⟩, ?_, ⟨b, hhandled⟩, ?_, fun _ =>
    ⟨b, hb, rfl, hhandled, attempts t, error, werr, ?_, herror, hwerr,
      fun a ha => (h.below a ha).2⟩⟩
  · intro a ha
    rcases List.mem_append.mp (attempts_append ▸ ha) with ha | ha
    · exact (h.below a ha).1
    · rw [htried.block_eq a ha]
      exact hb
  · obtain ⟨rounds, hrounds, hforall⟩ := h.ascending
    refine ⟨rounds ++ [attempts u], ?_, ?_⟩
    · change attempts (t ++ u) = _
      rw [attempts_append, hrounds, List.flatten_append, List.flatten_singleton]
    · rw [tail_blocksBefore_succ hb]
      exact List.rel_append hforall (.cons ⟨werr, htried⟩ .nil)
  · exact iff_of_false (failureResult_ne werr).1 (hhandled.not_accepted_all b.isLt)
  · exact fun hv => absurd hv (failureResult_ne werr).2
  · change attempts (t ++ u) = _
    rw [attempts_append, hu]
    rfl

theorem Ended.discipline {auth : MfClassicError} (h : Ended fmt (auth == .none) t v) :
    WriteDiscipline fmt (detected auth t) v := by
  cases h with
  | canceled hstop h => exact canceled_discipline hstop h
  | failed hb hwerr h htried hprogress => exact failed_discipline hb hwerr h htried hprogress

inductive RunEnds (fmt : MfcNdefFormat) :
    List FormatEvent → MfcNdefResult × MfcNdefFormat → Prop where
  | undetected {error : MfClassicError} {type : MfClassicType} (herror : error ≠ .none) :
      RunEnds fmt [⟨.detectType, (error, type)⟩] (.noCard, fmt)
  | unsupported {type : MfClassicType} (htype : type ≠ .type1k) :
      RunEnds fmt [⟨.detectType, (.none, type)⟩] (.notClassic1k, fmt)
  | finished {auth : MfClassicError} {t : List FormatEvent}
      (h : Written fmt (auth == .none) t 64) : RunEnds fmt (detected auth t) (.ok, fmt)
  | ended {auth : MfClassicError} {t : List FormatEvent} {v : MfcNdefResult × MfcNdefFormat}
      (h : Ended fmt (auth == .none) t v) : RunEnds fmt (detected auth t) v

theorem formatRun_ends {σ : Type} {E : Environment FormatInterface σ} {s : σ} :
    Always E (mfcNdefFormatRun fmt) s fun t v _ => RunEnds fmt t v := by
  simp only [mfcNdefFormatRun, detectType_bind, auth_bind]
  rintro ⟨error, type⟩ s₁ _
  dsimp only
  split_ifs with herror htype
  · exact .undetected herror
  · obtain rfl : error = .none := by simpa using herror
    exact .unsupported htype
  · obtain rfl : error = .none := by simpa using herror
    obtain rfl : type = .type1k := by simpa using htype
    intro auth s₂ _
    apply loop_written.bind
    intro t early s' h
    cases early with
    | none =>
      change RunEnds fmt (detected auth (t ++ [])) (.ok, fmt)
      rw [List.append_nil]
      exact .finished h
    | some v =>
      change RunEnds fmt (detected auth (t ++ [])) v
      rw [List.append_nil]
      exact .ended h

theorem RunEnds.discipline (h : RunEnds fmt t v) : WriteDiscipline fmt t v := by
  cases h with
  | undetected herror => exact undetected_discipline rfl rfl (.inl ⟨rfl, if_neg herror⟩)
  | unsupported => exact undetected_discipline rfl rfl (.inr rfl)
  | finished h => exact h.discipline
  | ended h => exact h.discipline

theorem formatRun_discipline {σ : Type} {E : Environment FormatInterface σ} {s : σ} :
    Always E (mfcNdefFormatRun fmt) s fun t v _ => WriteDiscipline fmt t v :=
  formatRun_ends.mono fun _ _ _ h => h.discipline

end

section
variable {σ : Type} {E : Environment FormatInterface σ} {fmt : MfcNdefFormat} {s s' : σ}
  {t : List FormatEvent} {v : MfcNdefResult × MfcNdefFormat}

/-- In any environment, so whatever the poller and the stop flag do. -/
theorem format_write_discipline (hrun : Executes E (mfcNdefFormatRun fmt) s t v s') :
    WriteDiscipline fmt t v :=
  always_iff.mp formatRun_discipline t v s' hrun

end

def anyOutcome : Environment FormatInterface Unit := fun s _ _ s' => s' = s

/-- Block 1 takes key A only, then the run is canceled. -/
def canceledAtTwo : List FormatEvent :=
  [⟨.detectType, (.none, .type1k)⟩, ⟨.auth 0 (mfcNdefSectorKeys true 0).1 .a, .other 1⟩,
    ⟨.readStop, false⟩, ⟨.progress 0, ()⟩,
    ⟨.readStop, false⟩, attemptEvent false 1 (.other 1) .b, attemptEvent false 1 .none .a,
    ⟨.progress 1, ()⟩,
    ⟨.readStop, true⟩]

theorem format_write_discipline_canceledAtTwo :
    WriteDiscipline ⟨true, true, 0⟩ canceledAtTwo (.canceled, ⟨true, true, 0⟩) := by
  have hrun : Executes anyOutcome (mfcNdefFormatRun ⟨true, true, 0⟩) () canceledAtTwo
      (.canceled, ⟨true, true, 0⟩) () := by
    iterate 9 apply Executes.call rfl
    exact .done _ _
  exact format_write_discipline hrun

end FlipperApps.MfcNdef
