import FlipperApps.Calls.Translation
import FlipperApps.Tesla.Apdu

/-!
# What the APDU layer answers

Each checked function of `Apdu` is shown equal to its unchecked meaning: no
access leaves its buffer, no size wraps, and the one call that remains is the
authenticate callback of a selected session.
-/

namespace FlipperApps.Tesla
open Calls
variable {κ χ : Type} {request response buffer data : List UInt8} {i n : ℕ}

theorem readByte_eq (h : i < buffer.length) :
    (readByte buffer i : ApduProgram κ χ UInt8) = .done (buffer.getD i 0) := by
  simp [readByte, h, List.getD_eq_getElem?_getD]

theorem readBytes_eq (h : i + n ≤ buffer.length) :
    (readBytes buffer i n : ApduProgram κ χ (Bytes n)) = .done (Bytes.within buffer i n h) := by
  rw [readBytes, dif_pos h]
  rfl

theorem pointerTo_eq (h : i ≤ buffer.length) :
    (pointerTo buffer i : ApduProgram κ χ (List UInt8)) = .done (buffer.drop i) := by
  rw [pointerTo, if_pos h]
  rfl

theorem writeByte_eq (h : i < buffer.length) (x : UInt8) :
    (writeByte buffer i x : ApduProgram κ χ (List UInt8)) = .done (buffer.set i x) := by
  rw [writeByte, if_pos h]
  rfl

theorem copyBytes_eq (hd : n ≤ data.length) (hb : n ≤ buffer.length) :
    (copyBytes buffer data n : ApduProgram κ χ (List UInt8)) =
      .done (data.take n ++ buffer.drop n) := by
  rw [copyBytes, if_neg (by omega), if_neg (by omega)]
  rfl

theorem addSize_eq {a b : ℕ} (h : a + b < 2 ^ 32) :
    (addSize a b : ApduProgram κ χ ℕ) = .done (a + b) := by
  rw [addSize, if_pos h]
  rfl

theorem subSize_eq {a b : ℕ} (h : b ≤ a) :
    (subSize a b : ApduProgram κ χ ℕ) = .done (a - b) := by
  rw [subSize, if_pos h]
  rfl

/-- The result and the buffer of a response of `data` under a status word, where
it fits; else of a bare 6700, or of nothing. -/
def frame (command : TeslaApduCommand) (statusWord : UInt16) (data response : List UInt8) :
    TeslaApduResult × List UInt8 :=
  if response.length < 2 then (⟨command, statusWord, 0⟩, response)
  else if response.length < data.length + 2 then
    (⟨command, swWrongLength, 2⟩,
      highByte swWrongLength :: lowByte swWrongLength :: response.drop 2)
  else
    (⟨command, statusWord, data.length + 2⟩,
      data ++ highByte statusWord :: lowByte statusWord :: response.drop (data.length + 2))

theorem frame_whole (command : TeslaApduCommand) (statusWord : UInt16)
    (hfits : data.length + 2 ≤ response.length) :
    frame command statusWord data response = (⟨command, statusWord, data.length + 2⟩,
      (data ++ [highByte statusWord, lowByte statusWord]) ++
        response.drop (data.length + 2)) := by
  rw [frame, if_neg (by omega), if_neg (by omega), List.append_assoc]
  rfl

theorem frame_sends (command : TeslaApduCommand) (statusWord : UInt16)
    (hfits : data.length + 2 ≤ response.length) :
    (frame command statusWord data response).2.take
        (frame command statusWord data response).1.responseSize =
      data ++ [highByte statusWord, lowByte statusWord] := by
  rw [frame_whole command statusWord hfits]
  exact List.take_left' List.length_append

theorem putResponse_eq (command : TeslaApduCommand) (statusWord : UInt16)
    (hd : n ≤ data.length) (hr : n + 2 ≤ response.length) (hn : n + 2 < 2 ^ 32) :
    (teslaApduPutResponse command statusWord data n response :
        ApduProgram κ χ (TeslaApduResult × List UInt8)) =
      .done (⟨command, statusWord, n + 2⟩, data.take n ++ highByte statusWord ::
        lowByte statusWord :: response.drop (n + 2)) := by
  have hcopy : (if n ≠ 0 then copyBytes response data n else .done response :
      ApduProgram κ χ (List UInt8)) = .done (data.take n ++ response.drop n) := by
    split_ifs with h
    · exact copyBytes_eq hd (by omega)
    · obtain rfl : n = 0 := by omega
      rfl
  obtain ⟨x, y, rest, hrest⟩ : ∃ x y rest, response.drop n = x :: y :: rest := by
    rcases hx : response.drop n with _ | ⟨x, _ | ⟨y, rest⟩⟩
    · have := congrArg List.length hx
      simp only [List.length_drop, List.length_nil] at this
      omega
    · have := congrArg List.length hx
      simp only [List.length_drop, List.length_cons, List.length_nil] at this
      omega
    · exact ⟨x, y, rest, rfl⟩
  have hdrop : response.drop (n + 2) = rest := by
    rw [← List.drop_drop, hrest]
    rfl
  have hlen : (data.take n).length = n := by simpa using hd
  have hput : teslaApduPutResponse command statusWord data n response =
      (Program.done (data.take n ++ response.drop n) : ApduProgram κ χ (List UInt8)) >>=
        fun response => writeByte response n (highByte statusWord) >>= fun response =>
          addSize n 1 >>= fun last => writeByte response last (lowByte statusWord) >>=
            fun response => addSize n 2 >>= fun responseSize =>
              .done (⟨command, statusWord, responseSize⟩, response) := by
    rw [← hcopy]
    unfold teslaApduPutResponse
    split_ifs <;> rfl
  rw [hput, Program.done_bind, hrest, hdrop, writeByte_eq (by simp [hlen]), Program.done_bind,
    addSize_eq (by omega), Program.done_bind, writeByte_eq (by simp [hlen]),
    Program.done_bind, addSize_eq hn, Program.done_bind]
  simp [hlen]

theorem writeResponse_eq (command : TeslaApduCommand) (statusWord : UInt16)
    (hd : n ≤ data.length) (hn : n + 2 < 2 ^ 32) :
    (teslaApduWriteResponse command statusWord data n response :
        ApduProgram κ χ (TeslaApduResult × List UInt8)) =
      .done (frame command statusWord (data.take n) response) := by
  have hlen : (data.take n).length = n := by simpa using hd
  rw [teslaApduWriteResponse, addSize_eq hn, Program.done_bind, frame, hlen]
  split_ifs with hfit htwo htwo
  · rfl
  · rw [putResponse_eq _ _ (Nat.zero_le _) (by omega) (by omega)]
    rfl
  · omega
  · exact putResponse_eq _ _ hd (by omega) hn

theorem writeResponse_nil (command : TeslaApduCommand) (statusWord : UInt16) :
    (teslaApduWriteResponse command statusWord [] 0 response :
        ApduProgram κ χ (TeslaApduResult × List UInt8)) =
      .done (frame command statusWord [] response) :=
  writeResponse_eq command statusWord (Nat.le_refl 0) (by omega)

def leSize (le : UInt8) (size : ℕ) : ℕ := if le ≠ 0 ∧ le.toNat < size then le.toNat else size

theorem leSize_le (le : UInt8) (size : ℕ) : leSize le size ≤ size := by
  unfold leSize
  split_ifs with h
  · exact h.2.le
  · exact Nat.le_refl size

def case2Size (request : List UInt8) (size : ℕ) : ℕ :=
  if request.length = 5 then leSize (request.getD 4 0) size else size

theorem case2Size_le (request : List UInt8) (size : ℕ) : case2Size request size ≤ size := by
  unfold case2Size
  split_ifs
  · exact leSize_le _ _
  · exact Nat.le_refl size

def case4Size (request : List UInt8) (dataEnd size : ℕ) : ℕ :=
  if request.length = dataEnd + 1 then leSize (request.getD dataEnd 0) size else size

theorem case4Size_le (request : List UInt8) (dataEnd size : ℕ) :
    case4Size request dataEnd size ≤ size := by
  unfold case4Size
  split_ifs
  · exact leSize_le _ _
  · exact Nat.le_refl size

theorem applyLe_eq (size : ℕ) :
    (teslaApduApplyLe request size : ApduProgram κ χ ℕ) = .done (case2Size request size) := by
  unfold teslaApduApplyLe case2Size
  split_ifs with h
  · rw [readByte_eq (by omega)]
    rfl
  · rfl

theorem applyCase4Le_eq {dataEnd : ℕ} (size : ℕ) (h : dataEnd + 1 < 2 ^ 32) :
    (teslaApduApplyCase4Le request dataEnd size : ApduProgram κ χ ℕ) =
      .done (case4Size request dataEnd size) := by
  rw [teslaApduApplyCase4Le, addSize_eq h, Program.done_bind]
  unfold case4Size
  split_ifs with hlen
  · rw [readByte_eq (by omega)]
    rfl
  · rfl

def lcOf (request : List UInt8) : ℕ := (request.getD 4 0).toNat

theorem lcOf_def : lcOf request = (request.getD 4 0).toNat := rfl

theorem lcOf_lt (request : List UInt8) : lcOf request < 256 := (request.getD 4 0).toNat_lt

def SelectRequest (request : List UInt8) : Prop :=
  4 ≤ request.length ∧ request.take 3 = [0x00, 0xA4, 0x04]

instance : Decidable (SelectRequest request) := inferInstanceAs (Decidable (_ ∧ _))

/-- The length fields are consistent and name one of the two applets. -/
def OpensSession (request : List UInt8) : Prop :=
  5 ≤ request.length ∧ lcOf request ≤ (request.drop 5).length ∧ 10 ≤ lcOf request ∧
    ((request.drop 5).take 10 = teslaAid ∨ (request.drop 5).take 10 = teslaPhoneKeyAid)

instance : Decidable (OpensSession request) := inferInstanceAs (Decidable (_ ∧ _ ∧ _ ∧ _))

theorem aidMatches_eq {aid : List UInt8} (h : n ≤ aid.length) :
    (teslaApduAidMatches aid n : ApduProgram κ χ Bool) =
      .done (decide (10 ≤ n ∧ (aid.take 10 = teslaAid ∨ aid.take 10 = teslaPhoneKeyAid))) := by
  have hlen : teslaAid.length = 10 := rfl
  unfold teslaApduAidMatches
  split_ifs with hn
  · have : ¬ 10 ≤ n := by omega
    simp [this]
  · have : 10 ≤ n := by omega
    rw [readBytes_eq (by omega), Program.done_bind, Program.pure_eq]
    congr 1
    rw [Bool.eq_iff_iff]
    simp [this, hlen]

theorem selectMatches_eq :
    (teslaApduSelectMatches request : ApduProgram κ χ Bool) =
      .done (decide (OpensSession request)) := by
  unfold teslaApduSelectMatches
  split_ifs with hlen
  · rw [readByte_eq (by omega), Program.done_bind, subSize_eq hlen, Program.done_bind,
      ← lcOf_def]
    have hdrop : (request.drop 5).length = request.length - 5 := List.length_drop
    split_ifs with hlc
    · rw [pointerTo_eq hlen, Program.done_bind, aidMatches_eq (by omega)]
      simp only [OpensSession, hlen, hdrop, hlc, true_and]
    · simp [OpensSession, hlc]
  · simp [OpensSession, hlen]

theorem runCallback_none {apdu : TeslaApdu κ χ} (h : apdu.authenticateCallback = none) :
    teslaApduRunCallback apdu request = .done (false, Bytes.zero 16) := by
  simp only [teslaApduRunCallback, h, Program.pure_eq]

theorem runCallback_some {apdu : TeslaApdu κ χ} {callback : κ} (hlen : 86 ≤ request.length)
    (h : apdu.authenticateCallback = some callback) :
    teslaApduRunCallback apdu request =
      .call (.authenticate callback apdu.authenticateContext
        (Bytes.within request 5 65 (by omega)) (Bytes.within request 70 16 hlen)) .done := by
  simp only [teslaApduRunCallback, h]
  rw [readBytes_eq (by omega), Program.done_bind, readBytes_eq (by omega)]
  rfl

def WellFormedAuthenticate (request : List UInt8) : Prop :=
  5 ≤ request.length ∧ 81 ≤ lcOf request ∧ 5 + lcOf request ≤ request.length

instance : Decidable (WellFormedAuthenticate request) := inferInstanceAs (Decidable (_ ∧ _ ∧ _))

theorem authenticate_eq {apdu : TeslaApdu κ χ} :
    teslaApduAuthenticate apdu request response =
      if WellFormedAuthenticate request then
        teslaApduRunCallback apdu request >>= fun r => .done
          (if r.1 then
            frame .authenticate swSuccess
              (r.2.toList.take (case4Size request (5 + lcOf request) 16)) response
          else frame .authenticate swUnknown [] response)
      else .done (frame .authenticate swWrongLength [] response) := by
  have hlc := lcOf_lt request
  unfold teslaApduAuthenticate
  split_ifs with hlen hok hok
  · exact absurd hok.1 (by omega)
  · exact writeResponse_nil ..
  · rw [readByte_eq (by omega), Program.done_bind, ← lcOf_def, addSize_eq (by omega),
      Program.done_bind, if_neg (by have := hok.2; omega)]
    congr 1
    funext r
    dsimp only
    rw [applyCase4Le_eq 16 (by omega), Program.done_bind]
    have hsize := case4Size_le request (5 + lcOf request) 16
    split_ifs
    · exact writeResponse_eq _ _ (by simpa using hsize) (by omega)
    · exact writeResponse_nil ..
  · rw [readByte_eq (by omega), Program.done_bind, ← lcOf_def, addSize_eq (by omega),
      Program.done_bind, if_pos (by unfold WellFormedAuthenticate at hok; omega)]
    exact writeResponse_nil ..

theorem dispatch_eq {apdu : TeslaApdu κ χ} {ins : UInt8} :
    teslaApduDispatch apdu ins request response =
      if ins = 0x04 then .done (frame .getPublicKey swSuccess
        (apdu.publicKey.toList.take (case2Size request 65)) response)
      else if ins = 0x11 then teslaApduAuthenticate apdu request response
      else if ins = 0x14 then .done (frame .getCardInfo swSuccess
        (([0x00, 0x01] : List UInt8).take (case2Size request 2)) response)
      else .done (frame .unsupported swInsNotSupported [] response) := by
  have hkey := case2Size_le request 65
  have hinfo := case2Size_le request 2
  unfold teslaApduDispatch
  split_ifs
  · rw [applyLe_eq, Program.done_bind]
    exact writeResponse_eq _ _ (by simpa using hkey) (by omega)
  · rfl
  · rw [applyLe_eq, Program.done_bind]
    exact writeResponse_eq _ _ (by simpa using hinfo) (by omega)
  · exact writeResponse_nil ..

theorem selectRequest_iff (h : 4 ≤ request.length) :
    SelectRequest request ↔ request.getD 0 0 = 0x00 ∧ request.getD 1 0 = 0xA4 ∧
      request.getD 2 0 = 0x04 := by
  rcases request with _ | ⟨a, _ | ⟨b, _ | ⟨c, rest⟩⟩⟩
  · simp at h
  · simp at h
  · simp at h
  · simp [SelectRequest] at h ⊢
    omega

theorem not_select_of_cla (hcla : request.getD 0 0 &&& 0x80 ≠ 0) : ¬ SelectRequest request := by
  intro hsel
  apply hcla
  rw [((selectRequest_iff hsel.1).mp hsel).1]
  rfl

theorem process_eq (apdu : TeslaApdu κ χ) (request response : List UInt8) :
    teslaApduProcess apdu request response =
      if request.length < 4 then .done (apdu, frame .none swWrongLength [] response)
      else if SelectRequest request then
        .done ({ apdu with selected := decide (OpensSession request) },
          frame .select (if OpensSession request then swSuccess else swFileNotFound) [] response)
      else if apdu.selected = false then
        .done (apdu, frame .unsupported swCommandNotAllow [] response)
      else if request.getD 0 0 &&& 0x80 = 0 then
        .done (apdu, frame .unsupported swClaNotSupported [] response)
      else teslaApduDispatch apdu (request.getD 1 0) request response >>= fun answer =>
        .done (apdu, answer) := by
  unfold teslaApduProcess
  by_cases hlen : request.length < 4
  · rw [if_pos hlen, if_pos hlen, writeResponse_nil]
    rfl
  · rw [if_neg hlen, if_neg hlen, readByte_eq (by omega), Program.done_bind,
      readByte_eq (by omega), Program.done_bind, readByte_eq (by omega), Program.done_bind]
    simp only [← selectRequest_iff (Nat.le_of_not_lt hlen), selectMatches_eq,
      Program.done_bind, writeResponse_nil, Program.pure_eq, Bool.not_eq_true',
      decide_eq_true_eq]

def afterRequest (apdu : TeslaApdu κ χ) (request : List UInt8) : TeslaApdu κ χ :=
  if SelectRequest request then { apdu with selected := decide (OpensSession request) } else apdu

def callbackOutcome : Event (ApduInterface κ χ) → Option (Bytes 16)
  | ⟨.authenticate .., r⟩ => if r.1 then some r.2 else none
  | ⟨.fault _, e⟩ => e.elim

def reported (callbacks : List (Event (ApduInterface κ χ))) : Option (Bytes 16) :=
  callbacks.head?.bind callbackOutcome

def AsksToAuthenticate (selected : Bool) (request : List UInt8) : Prop :=
  4 ≤ request.length ∧ ¬ SelectRequest request ∧ selected = true ∧
    request.getD 0 0 &&& 0x80 ≠ 0 ∧ request.getD 1 0 = 0x11 ∧ WellFormedAuthenticate request

instance {selected : Bool} : Decidable (AsksToAuthenticate selected request) :=
  inferInstanceAs (Decidable (_ ∧ _ ∧ _ ∧ _ ∧ _ ∧ _))

def authenticateAnswer (authenticated : Option (Bytes 16)) (request response : List UInt8) :
    TeslaApduResult × List UInt8 :=
  if WellFormedAuthenticate request then match authenticated with
    | some bytes => frame .authenticate swSuccess
      (bytes.toList.take (case4Size request (5 + lcOf request) 16)) response
    | none => frame .authenticate swUnknown [] response
  else frame .authenticate swWrongLength [] response

/-- The answer as a function of what it may depend on. -/
def answer (selected : Bool) (publicKey : Bytes 65) (authenticated : Option (Bytes 16))
    (request response : List UInt8) : TeslaApduResult × List UInt8 :=
  if request.length < 4 then frame .none swWrongLength [] response
  else if SelectRequest request then
    frame .select (if OpensSession request then swSuccess else swFileNotFound) [] response
  else if selected = false then frame .unsupported swCommandNotAllow [] response
  else if request.getD 0 0 &&& 0x80 = 0 then frame .unsupported swClaNotSupported [] response
  else if request.getD 1 0 = 0x04 then
    frame .getPublicKey swSuccess (publicKey.toList.take (case2Size request 65)) response
  else if request.getD 1 0 = 0x11 then authenticateAnswer authenticated request response
  else if request.getD 1 0 = 0x14 then
    frame .getCardInfo swSuccess (([0x00, 0x01] : List UInt8).take (case2Size request 2)) response
  else frame .unsupported swInsNotSupported [] response

def InvokedBy (apdu : TeslaApdu κ χ) (request : List UInt8)
    (callbacks : List (Event (ApduInterface κ χ))) : Prop :=
  if AsksToAuthenticate apdu.selected request ∧ apdu.authenticateCallback.isSome = true then
    callbacks.length = 1
  else callbacks = []

theorem authenticate_outcome {σ : Type} (E : Environment (ApduInterface κ χ) σ)
    (apdu : TeslaApdu κ χ) (request response : List UInt8) (s : σ) :
    Always E (teslaApduAuthenticate apdu request response) s fun t a _ =>
      a = authenticateAnswer (reported t) request response ∧
        if WellFormedAuthenticate request ∧ apdu.authenticateCallback.isSome = true then
          t.length = 1
        else t = [] := by
  rw [authenticate_eq]
  unfold authenticateAnswer
  by_cases hok : WellFormedAuthenticate request
  · have hlen : 86 ≤ request.length := by
      obtain ⟨_, hlc, hend⟩ := hok
      omega
    simp only [hok, if_true, true_and]
    cases hcallback : apdu.authenticateCallback with
    | none =>
      rw [runCallback_none hcallback]
      exact ⟨rfl, rfl⟩
    | some callback =>
      rw [runCallback_some hlen hcallback]
      intro r s' _
      obtain ⟨authenticated, bytes⟩ := r
      cases authenticated with
      | false => exact ⟨rfl, rfl⟩
      | true => exact ⟨rfl, rfl⟩
  · simp only [hok, if_false, false_and]
    exact ⟨rfl, rfl⟩

theorem process_outcome {σ : Type} (E : Environment (ApduInterface κ χ) σ) (apdu : TeslaApdu κ χ)
    (request response : List UInt8) (s : σ) :
    Always E (teslaApduProcess apdu request response) s fun t a _ =>
      a = (afterRequest apdu request,
        answer apdu.selected apdu.publicKey (reported t) request response) ∧
      InvokedBy apdu request t := by
  rw [process_eq]
  unfold answer afterRequest InvokedBy AsksToAuthenticate
  by_cases hlen : request.length < 4
  · have hsel : ¬ SelectRequest request := fun h => by have := h.1; omega
    simp [hlen, hsel]
  by_cases hsel : SelectRequest request
  · simp [hlen, hsel]
  by_cases hclosed : apdu.selected = false
  · simp [hlen, hsel, hclosed]
  have hopen : apdu.selected = true := by simpa using hclosed
  simp only [hlen, hsel, hopen, dispatch_eq, Nat.le_of_not_lt hlen, Bool.true_eq_false,
    not_false_eq_true, ne_eq, true_and, if_false]
  generalize request.getD 0 0 = cla, request.getD 1 0 = ins
  by_cases hcla : cla &&& 0x80 = 0
  · simp [hcla]
  by_cases hkey : ins = 0x04
  · simp [hcla, hkey]
  by_cases hauth : ins = 0x11
  · simp only [hcla, hauth, if_false, if_true, not_false_eq_true, true_and]
    apply (authenticate_outcome E apdu request response s).bind
    intro t a s' h
    simpa [hkey, hauth] using h
  by_cases hinfo : ins = 0x14
  · simp [hcla, hinfo]
  · simp [hcla, hkey, hauth, hinfo]

def NoFault : ApduCall κ χ → Prop
  | .authenticate .. => True
  | .fault _ => False

/-- The applet's callback is handed bytes 5 to 69 of the request as peer key and bytes
70 to 85 as challenge; no access leaves its buffer. -/
def HandsFields (apdu : TeslaApdu κ χ) (request : List UInt8) : ApduCall κ χ → Prop
  | .authenticate callback context peer challenge =>
    apdu.authenticateCallback = some callback ∧ context = apdu.authenticateContext ∧
      86 ≤ request.length ∧ peer.toList = (request.drop 5).take 65 ∧
      challenge.toList = (request.drop 70).take 16
  | .fault _ => False

theorem HandsFields.noFault {apdu : TeslaApdu κ χ} {c : ApduCall κ χ}
    (h : HandsFields apdu request c) : NoFault c := by
  cases c with
  | authenticate => trivial
  | fault f => exact h

theorem authenticate_calls {apdu : TeslaApdu κ χ} :
    (teslaApduAuthenticate apdu request response).Uses (HandsFields apdu request) := by
  rw [authenticate_eq]
  split_ifs with hok
  · have hlen : 86 ≤ request.length := by
      obtain ⟨_, hlc, hend⟩ := hok
      omega
    apply Program.uses_bind
    · cases hcallback : apdu.authenticateCallback with
      | none =>
        rw [runCallback_none hcallback]
        trivial
      | some callback =>
        rw [runCallback_some hlen hcallback]
        exact ⟨⟨hcallback, rfl, hlen, rfl, rfl⟩, fun _ => trivial⟩
    · intro r
      trivial
  · trivial

theorem process_calls (apdu : TeslaApdu κ χ) (request response : List UInt8) :
    (teslaApduProcess apdu request response).Uses (HandsFields apdu request) := by
  rw [process_eq]
  split_ifs
  · trivial
  · trivial
  · trivial
  · trivial
  · trivial
  · rw [dispatch_eq]
    split_ifs
    · trivial
    · exact Program.uses_bind authenticate_calls fun _ => trivial
    · trivial
    · trivial

theorem process_noFault (apdu : TeslaApdu κ χ) (request response : List UInt8) :
    (teslaApduProcess apdu request response).Uses NoFault :=
  (process_calls apdu request response).mono fun _ h => h.noFault

theorem process_completes {σ : Type} {E : Environment (ApduInterface κ χ) σ}
    (hreturns : ∀ s c, NoFault c → ∃ r s', E s c r s') (apdu : TeslaApdu κ χ)
    (request response : List UInt8) (s : σ) :
    ∃ callbacks r s', Executes E (teslaApduProcess apdu request response) s callbacks r s' :=
  exists_executes_of_uses hreturns (process_noFault apdu request response) s

theorem anyReply_returns (s : Unit) (c : ApduCall κ χ) (hc : NoFault c) :
    ∃ r s', anyReply (ApduInterface κ χ) s c r s' := by
  cases c with
  | authenticate => exact ⟨((false, Bytes.zero 16) : Bool × Bytes 16), (), trivial⟩
  | fault => exact hc.elim

inductive Answers (selected : Bool) (request : List UInt8) :
    TeslaApduCommand → UInt16 → List UInt8 → Prop
  | tooShort (h : request.length < 4) : Answers selected request .none swWrongLength []
  | select (h : SelectRequest request) (hopens : OpensSession request) :
      Answers selected request .select swSuccess []
  | notFound (h : SelectRequest request) (hopens : ¬ OpensSession request) :
      Answers selected request .select swFileNotFound []
  | refused {statusWord : UInt16} (h : ¬ SelectRequest request)
      (hsuccess : statusWord ≠ swSuccess) (hlength : statusWord ≠ swWrongLength) :
      Answers selected request .unsupported statusWord []
  | publicKey {data : List UInt8} (hselected : selected = true) (h : ¬ SelectRequest request)
      (hins : request.getD 1 0 = 0x04) (hlen : data.length ≤ 65) :
      Answers selected request .getPublicKey swSuccess data
  | authenticated {data : List UInt8} (hselected : selected = true) (h : ¬ SelectRequest request)
      (hins : request.getD 1 0 = 0x11) (hlen : data.length ≤ 16) :
      Answers selected request .authenticate swSuccess data
  | authenticateFailed (h : ¬ SelectRequest request) :
      Answers selected request .authenticate swUnknown []
  | authenticateLength (h : ¬ SelectRequest request) (hins : request.getD 1 0 = 0x11)
      (hlen : ¬ WellFormedAuthenticate request) :
      Answers selected request .authenticate swWrongLength []
  | cardInfo {data : List UInt8} (hselected : selected = true) (h : ¬ SelectRequest request)
      (hins : request.getD 1 0 = 0x14) (hlen : data.length ≤ 2) :
      Answers selected request .getCardInfo swSuccess data

def dataSource (publicKey : Bytes 65) (authenticated : Option (Bytes 16)) :
    TeslaApduCommand → Option (List UInt8)
  | .getPublicKey => some publicKey.toList
  | .authenticate => authenticated.map Bytes.toList
  | .getCardInfo => some [0x00, 0x01]
  | _ => none

def dataSize (request : List UInt8) : TeslaApduCommand → ℕ
  | .getPublicKey => case2Size request 65
  | .authenticate => case4Size request (5 + lcOf request) 16
  | .getCardInfo => case2Size request 2
  | _ => 0

/-- The data of the answer before the capacity of the buffer is looked at. -/
def requestedData (publicKey : Bytes 65) (authenticated : Option (Bytes 16))
    (request : List UInt8) (command : TeslaApduCommand) : List UInt8 :=
  ((dataSource publicKey authenticated command).getD []).take (dataSize request command)

def Requested (selected : Bool) (publicKey : Bytes 65) (authenticated : Option (Bytes 16))
    (request : List UInt8) (command : TeslaApduCommand) (data : List UInt8) : Prop :=
  (¬ AsksToAuthenticate selected request → authenticated = none) →
    data = requestedData publicKey authenticated request command

theorem requestedData_none (publicKey : Bytes 65) (request : List UInt8) :
    requestedData publicKey none request .authenticate = [] := List.take_nil

theorem Answers.success {selected : Bool} {command : TeslaApduCommand} {statusWord : UInt16}
    {data : List UInt8} (h : Answers selected request command statusWord data) (hdata : data ≠ []) :
    statusWord = swSuccess := by
  cases h with
  | publicKey => rfl
  | authenticated => rfl
  | cardInfo => rfl
  | _ => exact absurd rfl hdata

theorem authenticateAnswer_cases {selected : Bool} (publicKey : Bytes 65)
    (authenticated : Option (Bytes 16)) (hselected : selected = true) (h : ¬ SelectRequest request)
    (hins : request.getD 1 0 = 0x11) :
    ∃ command statusWord data, Answers selected request command statusWord data ∧
      Requested selected publicKey authenticated request command data ∧
      ∀ response, authenticateAnswer authenticated request response =
        frame command statusWord data response := by
  unfold authenticateAnswer
  by_cases hok : WellFormedAuthenticate request
  · simp only [hok, if_true]
    cases authenticated with
    | none =>
      exact ⟨_, _, _, .authenticateFailed h, fun _ => (requestedData_none publicKey request).symm,
        fun _ => rfl⟩
    | some bytes =>
      exact ⟨_, _, _, .authenticated hselected h hins (by simp [requestedData, dataSource]),
        fun _ => rfl, fun _ => rfl⟩
  · simp only [hok, if_false]
    refine ⟨_, _, _, .authenticateLength h hins hok, fun hinvoked => ?_, fun _ => rfl⟩
    rw [hinvoked fun hasks => hok hasks.2.2.2.2.2, requestedData_none]

theorem answer_cases (selected : Bool) (publicKey : Bytes 65) (authenticated : Option (Bytes 16))
    (request : List UInt8) : ∃ command statusWord data,
      Answers selected request command statusWord data ∧
      Requested selected publicKey authenticated request command data ∧ ∀ response,
        answer selected publicKey authenticated request response =
          frame command statusWord data response := by
  unfold answer
  by_cases hlen : request.length < 4
  · simp only [hlen, if_true]
    exact ⟨_, _, _, .tooShort hlen, fun _ => rfl, fun _ => rfl⟩
  by_cases hsel : SelectRequest request
  · simp only [hlen, hsel, if_false, if_true]
    by_cases hopens : OpensSession request
    · simp only [hopens, if_true]
      exact ⟨_, _, _, .select hsel hopens, fun _ => rfl, fun _ => rfl⟩
    · simp only [hopens, if_false]
      exact ⟨_, _, _, .notFound hsel hopens, fun _ => rfl, fun _ => rfl⟩
  have refused (statusWord : UInt16) (hsuccess : statusWord ≠ swSuccess)
      (hlength : statusWord ≠ swWrongLength) : ∃ command statusWord' data,
        Answers selected request command statusWord' data ∧
        Requested selected publicKey authenticated request command data ∧ ∀ response,
          frame .unsupported statusWord [] response = frame command statusWord' data response :=
    ⟨_, _, _, .refused hsel hsuccess hlength, fun _ => rfl, fun _ => rfl⟩
  cases selected with
  | false =>
    simp only [hlen, hsel, if_false, if_true]
    exact refused swCommandNotAllow (by decide) (by decide)
  | true =>
    simp only [hlen, hsel, Bool.true_eq_false, if_false]
    by_cases hcla : request.getD 0 0 &&& 0x80 = 0
    · simp only [hcla, if_true]
      exact refused swClaNotSupported (by decide) (by decide)
    by_cases hkey : request.getD 1 0 = 0x04
    · simp only [hcla, hkey, if_false, if_true]
      exact ⟨_, _, _, .publicKey rfl hsel hkey (by simp [requestedData, dataSource]),
        fun _ => rfl, fun _ => rfl⟩
    by_cases hauth : request.getD 1 0 = 0x11
    · simp only [hcla, hauth, if_false, if_true]
      exact authenticateAnswer_cases publicKey authenticated rfl hsel hauth
    by_cases hinfo : request.getD 1 0 = 0x14
    · simp only [hcla, hinfo, if_false, if_true]
      exact ⟨_, _, _, .cardInfo rfl hsel hinfo (by simp [requestedData, dataSource]),
        fun _ => rfl, fun _ => rfl⟩
    · simp only [hcla, hkey, hauth, hinfo, if_false]
      exact refused swInsNotSupported (by decide) (by decide)

end FlipperApps.Tesla
