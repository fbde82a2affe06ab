import FlipperApps.Calls.Rounds
import FlipperApps.Tesla.ListenerMemory
import FlipperApps.Tesla.Session

/-!
# Nothing secret is left behind by the NFC worker

Whatever the mbedTLS calls reply, an authentication frees what it initialises and
wipes what it filled, and the callback sends a block and notifies the app only after.
-/

namespace FlipperApps.Tesla.ListenerMemory
open Calls Tenancy Program

section
variable {crypto : TeslaCrypto} {peerPublicKey : Bytes 65} {challenge : Bytes 16}

theorem sharedX_erase :
    (teslaCryptoSharedX crypto peerPublicKey).erase =
      Tesla.teslaCryptoSharedX crypto peerPublicKey := by
  simp only [teslaCryptoSharedX, Tesla.teslaCryptoSharedX, erase_bind, erase_ite]
  rfl

theorem encryptBlock_erase {sharedX : Bytes 32} {plaintext : Bytes 16} :
    (teslaCryptoEncryptBlock sharedX plaintext).erase =
      Tesla.teslaCryptoEncryptBlock sharedX plaintext := by
  simp only [teslaCryptoEncryptBlock, Tesla.teslaCryptoEncryptBlock, erase_bind, erase_ite]
  rfl

/-- Here the cleanup stands behind both parts of the calculation, not inside each. -/
theorem authenticateWithSalt_erase {salt : Bytes 4} :
    (teslaCryptoAuthenticateWithSalt crypto peerPublicKey challenge salt).erase =
      Tesla.teslaCryptoAuthenticateWithSalt crypto peerPublicKey challenge salt := by
  simp only [teslaCryptoAuthenticateWithSalt, Tesla.teslaCryptoAuthenticateWithSalt, cleanup,
    orCleanup, erase_bind, sharedX_erase, bind_assoc]
  change Tesla.teslaCryptoSharedX crypto peerPublicKey >>= _ =
    Tesla.teslaCryptoSharedX crypto peerPublicKey >>= _
  apply bind_congr
  intro r
  cases r with
  | error error => rfl
  | ok sharedX =>
    simp only [encryptBlock_erase]
    apply bind_congr
    intro r
    cases r with
    | error error => rfl
    | ok response => rfl

theorem nfcAuthenticate_erase :
    (teslaNfcAuthenticate crypto peerPublicKey challenge).erase =
      Tesla.teslaNfcAuthenticate crypto peerPublicKey challenge := by
  simp only [teslaNfcAuthenticate, Tesla.teslaNfcAuthenticate, teslaCryptoAuthenticate,
    Tesla.teslaCryptoAuthenticate, erase_bind, authenticateWithSalt_erase, bind_assoc]
  rfl

theorem carryOut_erase (c : ApduCall Unit ℕ) (cryptoTimeMs : UInt32) :
    (teslaNfcCarryOut crypto c cryptoTimeMs).erase =
      Tesla.teslaNfcCarryOut crypto c cryptoTimeMs := by
  cases c with
  | authenticate => exact nfcAuthenticate_erase
  | fault f => exact congrArg (Program.call (I := NfcInterface) (.fault f)) (funext fun e => e.elim)

end

section
variable {κ χ : Type} (apdu : TeslaApdu κ χ) (request response : List UInt8)

theorem apduAuthenticate_erase :
    (teslaApduAuthenticate apdu request response).erase =
      Tesla.teslaApduAuthenticate apdu request response := by
  have hwiped (p : ApduProgram κ χ (TeslaApduResult × List UInt8)) : (p >>= fun r =>
      (own (.wipe .authResponse) : Program (ApduMemory κ χ) Unit).erase >>= fun _ =>
        (pure r : Program (ApduMemory κ χ) _).erase) = p := bind_done p
  simp only [teslaApduAuthenticate, Tesla.teslaApduAuthenticate, erase_bind, erase_ite, erase_widen,
    hwiped]

theorem apduDispatch_erase (ins : UInt8) :
    (teslaApduDispatch apdu ins request response).erase =
      Tesla.teslaApduDispatch apdu ins request response := by
  simp only [teslaApduDispatch, Tesla.teslaApduDispatch, erase_bind, erase_ite, erase_widen,
    apduAuthenticate_erase]

theorem apduProcess_erase :
    (teslaApduProcess apdu request response).erase =
      Tesla.teslaApduProcess apdu request response := by
  simp only [teslaApduProcess, Tesla.teslaApduProcess, erase_bind, erase_ite, erase_widen,
    apduDispatch_erase]
  rfl

end

section
variable (crypto : TeslaCrypto) (callback : Bool) (nfc : TeslaNfc)

theorem receivedData_erase (data : List UInt8) :
    (teslaNfcReceivedData crypto callback nfc data).erase =
      Tesla.teslaNfcReceivedData crypto callback nfc data := by
  simp only [teslaNfcReceivedData, Tesla.teslaNfcReceivedData, teslaNfcProcess,
    Tesla.teslaNfcProcess, erase_bind, erase_interpret, erase_widen, apduProcess_erase,
    carryOut_erase]
  change Program.interpret _ _ _ >>= _ = Program.interpret _ _ _ >>= _
  apply bind_congr
  intro r
  apply bind_congr
  intro block
  refine congrArg (Program.call (I := NfcInterface) (.sendBlock block)) (funext fun sendError => ?_)
  simp only [Program.erase, Program.bind]
  cases teslaNfcAnswerEvent sendError r.1.2.1 with
  | none => rfl
  | some event =>
    simp only [erase_bind, erase_widen]
    rfl

theorem callback_erase (event : ListenerEvent) :
    (teslaNfcListenerCallback crypto callback nfc event).erase =
      Tesla.teslaNfcListenerCallback crypto callback nfc event := by
  cases event with
  | receivedData data => exact receivedData_erase crypto callback nfc data
  | fieldOff => exact erase_widen _
  | halted => exact erase_widen _

end

section
variable {α : Type} {s : Finset Object} {f F : Finset Secret}
  {Q : α → Holdings Object Secret → Prop}

theorem accepts_compute {c : NfcCall} {next : c.Reply → MemoryProgram α}
    (huses : ∀ o ∈ uses c, o ∈ s) (hbars : bars c = [])
    (hnext : ∀ r, tenancy.keeping.Accepts (next r) ⟨s, f⟩ Q) :
    tenancy.keeping.Accepts (nfcCall c >>= next) ⟨s, f⟩ Q :=
  accepts_use rfl (fun _ => rfl) huses (by simp [tenancy, hbars]) hnext

theorem accepts_init {o : Object} {next : Unit → MemoryProgram α} (ho : o ∉ s)
    (hnext : tenancy.keeping.Accepts (next ()) ⟨insert o s, f⟩ Q) :
    tenancy.keeping.Accepts (take o >>= next) ⟨s, f⟩ Q := accepts_take ⟨ho, trivial⟩ hnext

theorem accepts_free {o : Object} {next : Unit → MemoryProgram α} (ho : o ∉ s)
    (hnext : tenancy.keeping.Accepts (next ()) ⟨s, f⟩ Q) :
    tenancy.keeping.Accepts (finish o >>= next) ⟨insert o s, f⟩ Q := by
  apply accepts_finish ⟨Finset.mem_insert_self o s, fun _ _ => trivial⟩
  rw [Finset.erase_insert ho]
  exact hnext

theorem sharedX_keeps {crypto : TeslaCrypto} {peerPublicKey : Bytes 65} (hpeer : .peerPoint ∈ s)
    (hshared : .sharedPoint ∈ s) :
    tenancy.keeping.Accepts (teslaCryptoSharedX crypto peerPublicKey) ⟨s, f⟩
      fun _ m => m.held = s := by
  unfold teslaCryptoSharedX
  split
  · rfl
  refine accepts_compute (by simp [uses, hpeer]) rfl fun r => ?_
  split
  · rfl
  refine accepts_compute (by simp [uses, hpeer]) rfl fun error => ?_
  split
  · rfl
  refine accepts_compute (by simp [uses, hpeer, hshared]) rfl fun r => ?_
  split
  · rfl
  apply accepts_fill
  refine accepts_compute (by simp [uses, hshared]) rfl fun r => ?_
  split
  · rfl
  · exact accepts_fill rfl

theorem encryptBlock_keeps {sharedX : Bytes 32} {plaintext : Bytes 16} (haes : .aes ∈ s) :
    tenancy.keeping.Accepts (teslaCryptoEncryptBlock sharedX plaintext) ⟨s, f⟩
      fun _ m => m.held = s := by
  apply accepts_fill
  refine accepts_compute (by simp [uses]) rfl fun r => ?_
  split
  · rfl
  apply accepts_fill
  refine accepts_compute (by simp [uses, haes]) rfl fun r => ?_
  split
  · rfl
  apply accepts_fill
  refine accepts_compute (by simp [uses, haes]) rfl fun r => ?_
  split
  · rfl
  · rfl

theorem calculation_keeps {crypto : TeslaCrypto} {peerPublicKey : Bytes 65} {plaintext : Bytes 16}
    (hpeer : .peerPoint ∈ s) (hshared : .sharedPoint ∈ s) (haes : .aes ∈ s) :
    tenancy.keeping.Accepts
      (cleanup (orCleanup (teslaCryptoSharedX crypto peerPublicKey) fun sharedX =>
        teslaCryptoEncryptBlock sharedX plaintext) teslaCryptoAuthenticationFailed
        fun response => (true, response))
      ⟨s, f⟩ fun _ m => m.held = s := by
  have hboth : tenancy.keeping.Accepts
      (orCleanup (teslaCryptoSharedX crypto peerPublicKey) fun sharedX =>
        teslaCryptoEncryptBlock sharedX plaintext) ⟨s, f⟩ fun _ m => m.held = s := by
    apply (sharedX_keeps hpeer hshared).bind
    intro r m hm
    obtain ⟨held, filled⟩ := m
    obtain rfl : held = s := hm
    cases r with
    | error error => rfl
    | ok sharedX => exact encryptBlock_keeps haes
  apply hboth.bind
  intro r m hm
  cases r with
  | error error =>
    refine accepts_compute (by simp [uses]) rfl fun _ => ?_
    exact accepts_wipe hm
  | ok response => exact hm

theorem authenticateWithSalt_keeps {crypto : TeslaCrypto} {peerPublicKey : Bytes 65}
    {challenge : Bytes 16} {salt : Bytes 4} :
    tenancy.keeping.Accepts (teslaCryptoAuthenticateWithSalt crypto peerPublicKey challenge salt)
      ⟨∅, f⟩ fun _ => Stays ∅ {.salt, .authResponse, .response} := by
  have hwiped (f : Finset Secret) : (((f.erase .plaintext).erase .digest).erase .sharedX).erase
      .sharedEncoded ⊆ {.salt, .authResponse, .response} := by
    intro b hb
    cases b <;> simp_all
  apply accepts_init (by simp)
  apply accepts_init (by simp)
  apply accepts_init (by simp)
  apply (calculation_keeps (by simp) (by simp) (by simp)).bind
  intro r m hm
  obtain ⟨held, f'⟩ := m
  obtain rfl := hm
  apply accepts_wipe
  apply accepts_wipe
  apply accepts_wipe
  apply accepts_wipe
  apply accepts_free (by simp)
  apply accepts_free (by simp)
  apply accepts_free (by simp)
  exact ⟨rfl, hwiped f'⟩

theorem nfcAuthenticate_keeps {crypto : TeslaCrypto} {peerPublicKey : Bytes 65}
    {challenge : Bytes 16} :
    tenancy.keeping.Accepts (teslaNfcAuthenticate crypto peerPublicKey challenge) ⟨∅, f⟩
      fun _ => Stays ∅ {.authResponse, .response} := by
  have hauthenticate : tenancy.keeping.Accepts
      (teslaCryptoAuthenticate crypto peerPublicKey challenge) ⟨∅, f⟩
      fun _ => Stays ∅ {.authResponse, .response} := by
    apply accepts_fill
    refine accepts_compute (by simp [uses]) rfl fun salt => ?_
    refine Stays.bind authenticateWithSalt_keeps fun r f' hf' => ?_
    exact accepts_wipe ⟨rfl, Finset.subset_insert_iff.mp hf'⟩
  refine accepts_compute (by simp [uses]) rfl fun start => ?_
  refine Stays.bind hauthenticate fun r f' hf' => ?_
  refine accepts_compute (by simp [uses]) rfl fun stop => ?_
  exact accepts_compute (by simp [uses]) rfl fun frequency => ⟨rfl, hf'⟩

end

section
variable {κ χ : Type}

/-- What the APDU layer does to the buffers, with the callback as one call. -/
def contract (κ χ : Type) : Monitor (ApduMemory κ χ) (Finset Secret) where
  observe
    | _, ⟨.inl (.authenticate ..), _⟩ => {.authResponse, .response}
    | F, ⟨.inr (.wipe b), _⟩ => F.erase b
    | F, _ => F
  allows
    | _, .inl _ => True
    | _, .inr (.wipe _) => True
    | _, .inr _ => False

def FaultCall : ApduCall κ χ → Prop
  | .fault _ => True
  | .authenticate .. => False

section
variable {α : Type} {f : AccessFault} {buffer data request response : List UInt8} {i n : ℕ}

theorem fault_faults : (fault f : ApduProgram κ χ α).Uses FaultCall := ⟨trivial, fun e => e.elim⟩

theorem readByte_faults : (readByte buffer i : ApduProgram κ χ UInt8).Uses FaultCall := by
  unfold readByte
  split
  · trivial
  · exact fault_faults

theorem readBytes_faults : (readBytes buffer i n : ApduProgram κ χ (Bytes n)).Uses FaultCall := by
  unfold readBytes
  split
  · trivial
  · exact fault_faults

theorem pointerTo_faults :
    (pointerTo buffer i : ApduProgram κ χ (List UInt8)).Uses FaultCall := by
  unfold pointerTo
  split
  · trivial
  · exact fault_faults

theorem writeByte_faults {x : UInt8} :
    (writeByte buffer i x : ApduProgram κ χ (List UInt8)).Uses FaultCall := by
  unfold writeByte
  split
  · trivial
  · exact fault_faults

theorem copyBytes_faults :
    (copyBytes buffer data n : ApduProgram κ χ (List UInt8)).Uses FaultCall := by
  unfold copyBytes
  split
  · exact fault_faults
  split
  · exact fault_faults
  · trivial

theorem addSize_faults : (addSize i n : ApduProgram κ χ ℕ).Uses FaultCall := by
  unfold addSize
  split
  · trivial
  · exact fault_faults

theorem subSize_faults : (subSize i n : ApduProgram κ χ ℕ).Uses FaultCall := by
  unfold subSize
  split
  · trivial
  · exact fault_faults

theorem putResponse_faults {command : TeslaApduCommand} {statusWord : UInt16} :
    (teslaApduPutResponse command statusWord data n response :
      ApduProgram κ χ (TeslaApduResult × List UInt8)).Uses FaultCall := by
  have hput (response : List UInt8) : (do
      let response ← writeByte response n (highByte statusWord)
      let last ← addSize n 1
      let response ← writeByte response last (lowByte statusWord)
      let responseSize ← addSize n 2
      return (⟨command, statusWord, responseSize⟩, response) :
        ApduProgram κ χ (TeslaApduResult × List UInt8)).Uses FaultCall := by
    refine Program.uses_bind writeByte_faults fun response => ?_
    refine Program.uses_bind addSize_faults fun last => ?_
    refine Program.uses_bind writeByte_faults fun response => ?_
    exact Program.uses_bind addSize_faults fun _ => trivial
  unfold teslaApduPutResponse
  split
  · exact Program.uses_bind copyBytes_faults hput
  · exact hput response

theorem writeResponse_faults {command : TeslaApduCommand} {statusWord : UInt16} :
    (teslaApduWriteResponse command statusWord data n response :
      ApduProgram κ χ (TeslaApduResult × List UInt8)).Uses FaultCall := by
  unfold teslaApduWriteResponse
  refine Program.uses_bind addSize_faults fun needed => ?_
  split
  · split
    · trivial
    · exact putResponse_faults
  · exact putResponse_faults

theorem applyLe_faults : (teslaApduApplyLe request n : ApduProgram κ χ ℕ).Uses FaultCall := by
  unfold teslaApduApplyLe
  split
  · exact Program.uses_bind readByte_faults fun _ => trivial
  · trivial

theorem applyCase4Le_faults :
    (teslaApduApplyCase4Le request i n : ApduProgram κ χ ℕ).Uses FaultCall := by
  unfold teslaApduApplyCase4Le
  refine Program.uses_bind addSize_faults fun withLe => ?_
  split
  · exact Program.uses_bind readByte_faults fun _ => trivial
  · trivial

theorem selectMatches_faults :
    (teslaApduSelectMatches request : ApduProgram κ χ Bool).Uses FaultCall := by
  unfold teslaApduSelectMatches
  split
  · refine Program.uses_bind readByte_faults fun aidSize => ?_
    refine Program.uses_bind subSize_faults fun rest => ?_
    split
    · refine Program.uses_bind pointerTo_faults fun aid => ?_
      unfold teslaApduAidMatches
      split
      · trivial
      · exact Program.uses_bind readBytes_faults fun _ => trivial
    · trivial
  · trivial

end

section
variable {α : Type} {F : Finset Secret} {apdu : TeslaApdu κ χ} {request response : List UInt8}

theorem contract_widen {p : ApduProgram κ χ α} (hp : p.Uses FaultCall) :
    (contract κ χ).Accepts p.widen F fun _ F' => F' = F := by
  induction p with
  | done a => rfl
  | call c next ih =>
    obtain ⟨hc, hnext⟩ := hp
    cases c with
    | authenticate => exact absurd hc id
    | fault f => exact ⟨trivial, fun (e : Empty) => e.elim⟩

theorem contract_bind {β : Type} {p : ApduProgram κ χ β} {next : β → Program (ApduMemory κ χ) α}
    {Q : α → Finset Secret → Prop} (hp : p.Uses FaultCall)
    (hnext : ∀ b, (contract κ χ).Accepts (next b) F Q) :
    (contract κ χ).Accepts (p.widen >>= next) F Q := by
  apply (contract_widen hp).bind
  intro b F' hF
  rw [hF]
  exact hnext b

theorem runCallback_contract (hF : F ⊆ {.response}) :
    (contract κ χ).Accepts (teslaApduRunCallback apdu request).widen F
      fun _ F' => F' ⊆ {.authResponse, .response} := by
  unfold teslaApduRunCallback
  cases apdu.authenticateCallback with
  | none => exact hF.trans (by simp)
  | some callback =>
    dsimp only
    rw [Program.widen_bind]
    refine contract_bind readBytes_faults fun peer => ?_
    rw [Program.widen_bind]
    refine contract_bind readBytes_faults fun challenge => ?_
    exact ⟨trivial, fun _ => Finset.Subset.refl _⟩

theorem apduAuthenticate_contract (hF : F ⊆ {.response}) :
    (contract κ χ).Accepts (teslaApduAuthenticate apdu request response) F
      fun _ F' => F' ⊆ {.response} := by
  have hrefused (F : Finset Secret) (hF : F ⊆ {.response}) : (contract κ χ).Accepts
      (teslaApduWriteResponse .authenticate swWrongLength [] 0 response).widen F
      fun _ F' => F' ⊆ {.response} :=
    (contract_widen writeResponse_faults).mono fun _ _ h => h ▸ hF
  unfold teslaApduAuthenticate
  split
  · exact hrefused F hF
  refine contract_bind readByte_faults fun lc => ?_
  refine contract_bind addSize_faults fun dataEnd => ?_
  split
  · exact hrefused F hF
  apply (runCallback_contract hF).bind
  intro r F' hF'
  have hwiped : F'.erase .authResponse ⊆ {.response} := Finset.subset_insert_iff.mp hF'
  refine contract_bind applyCase4Le_faults fun size => ?_
  split
  · exact contract_bind writeResponse_faults fun result => ⟨trivial, fun _ => hwiped⟩
  · exact contract_bind writeResponse_faults fun result => ⟨trivial, fun _ => hwiped⟩

theorem apduDispatch_contract (ins : UInt8) (hF : F ⊆ {.response}) :
    (contract κ χ).Accepts (teslaApduDispatch apdu ins request response) F
      fun _ F' => F' ⊆ {.response} := by
  have hanswered {p : ApduProgram κ χ (TeslaApduResult × List UInt8)} (hp : p.Uses FaultCall) :
      (contract κ χ).Accepts p.widen F fun _ F' => F' ⊆ {.response} :=
    (contract_widen hp).mono fun _ _ h => h ▸ hF
  unfold teslaApduDispatch
  split_ifs
  · exact contract_bind applyLe_faults fun size => hanswered writeResponse_faults
  · exact apduAuthenticate_contract hF
  · exact contract_bind applyLe_faults fun size => hanswered writeResponse_faults
  · exact hanswered writeResponse_faults

theorem apduProcess_contract (hF : F ⊆ {.response}) :
    (contract κ χ).Accepts (teslaApduProcess apdu request response) F
      fun _ F' => F' ⊆ {.response} := by
  have hanswered {p : ApduProgram κ χ (TeslaApduResult × List UInt8)} (apdu : TeslaApdu κ χ)
      (hp : p.Uses FaultCall) :
      (contract κ χ).Accepts (p.widen >>= fun r => pure (apdu, r)) F
        fun _ F' => F' ⊆ {.response} := contract_bind hp fun _ => hF
  unfold teslaApduProcess
  split
  · exact hanswered _ writeResponse_faults
  refine contract_bind readByte_faults fun cla => ?_
  refine contract_bind readByte_faults fun ins => ?_
  refine contract_bind readByte_faults fun p1 => ?_
  split_ifs
  · exact contract_bind selectMatches_faults fun found => hanswered _ writeResponse_faults
  · exact hanswered _ writeResponse_faults
  · exact hanswered _ writeResponse_faults
  · exact (apduDispatch_contract ins hF).bind fun _ _ hF' => hF'

end

end

section
variable {crypto : TeslaCrypto} {callback : Bool} {nfc : TeslaNfc} {f : Finset Secret}

theorem carryOut_contract (c : (ApduMemory Unit ℕ).Call) (cryptoTimeMs : UInt32)
    (F : Finset Secret) (m : Holdings Object Secret) (hm : Stays ∅ F m)
    (hc : (contract Unit ℕ).allows F c) :
    tenancy.keeping.Accepts
      (Program.passing (I := ApduInterface Unit ℕ) (teslaNfcCarryOut crypto) c cryptoTimeMs) m
      fun r m' => Stays ∅ ((contract Unit ℕ).observe F ⟨c, r.1⟩) m' := by
  obtain ⟨held, filled⟩ := m
  obtain ⟨rfl, hfilled⟩ : held = ∅ ∧ filled ⊆ F := hm
  cases c with
  | inl c =>
    cases c with
    | authenticate => exact nfcAuthenticate_keeps
    | fault f =>
      exact ⟨⟨by simp [tenancy, uses], by simp [tenancy, bars], by simp [tenancy],
        by simp [tenancy]⟩, fun (e : Empty) => e.elim⟩
  | inr l =>
    cases l with
    | wipe b =>
      exact ⟨trivial, fun _ => ⟨rfl, Finset.erase_subset_erase b hfilled⟩⟩
    | take | finish | fill => exact absurd hc id

theorem process_keeps {request response : List UInt8} (h : f ⊆ {.response}) :
    tenancy.keeping.Accepts (teslaNfcProcess crypto nfc request response) ⟨∅, f⟩
      fun _ => Stays ∅ {.response} := by
  have hstands : Stays (R := Object) ∅ f ⟨∅, f⟩ := ⟨rfl, Finset.Subset.refl f⟩
  apply (Monitor.Accepts.interpret carryOut_contract (apduProcess_contract h) hstands).mono
  intro _ m hm
  obtain ⟨F, hF, hheld, hfilled⟩ := hm
  exact ⟨hheld, hfilled.trans hF⟩

theorem appendBytes_passive {capacity size : ℕ} {buffer data : List UInt8} :
    (bitBufferAppendBytes capacity buffer data size).Uses (tenancy.Passive ∅) := by
  have hfault (f : AccessFault) : tenancy.Passive ∅ (.fault f) :=
    ⟨by simp [tenancy, uses], rfl, rfl, fun _ => rfl⟩
  unfold bitBufferAppendBytes
  split
  · exact ⟨hfault _, fun e => e.elim⟩
  split
  · exact ⟨hfault _, fun e => e.elim⟩
  · trivial

theorem notify_keeps (event : TeslaNfcEvent) :
    tenancy.keeping.Accepts (teslaNfcNotify callback nfc event).widen .none
      fun _ m => m = .none := by
  unfold teslaNfcNotify
  cases callback with
  | false => rfl
  | true =>
    exact accepts_use (f := fun _ => Program.done ()) rfl (fun _ => rfl) (by simp [tenancy, uses])
      (by simp [Holdings.none]) fun _ => rfl

theorem receivedData_keeps (data : List UInt8) :
    tenancy.keeping.Accepts (teslaNfcReceivedData crypto callback nfc data) .none
      fun _ m => m = .none := by
  apply accepts_fill
  refine Stays.bind (process_keeps (Finset.Subset.refl _)) fun r f hf => ?_
  apply (accepts_widen appendBytes_passive (Program.returns_true _)).bind
  intro block m hm
  obtain ⟨-, rfl⟩ := hm
  have hbars : ∀ b ∈ bars (.sendBlock block), b ∉ f := by
    intro b hb hmem
    obtain rfl := Finset.mem_singleton.mp (hf hmem)
    simp [bars] at hb
  refine accepts_use rfl (fun _ => rfl) (by simp [tenancy, uses]) hbars fun sendError => ?_
  have hempty : f.erase .response = ∅ := by
    rw [Finset.erase_eq_empty_iff]
    exact Finset.subset_singleton_iff.mp hf
  apply accepts_wipe
  dsimp only
  rw [hempty]
  cases teslaNfcAnswerEvent sendError r.1.2.1 with
  | none => rfl
  | some event => exact (notify_keeps event).bind fun _ _ hm => hm

theorem callback_keeps (event : ListenerEvent) :
    tenancy.keeping.Accepts (teslaNfcListenerCallback crypto callback nfc event) .none
      fun _ m => m = .none := by
  have hend (nfc' : TeslaNfc) (event : TeslaNfcEvent) : tenancy.keeping.Accepts
      (teslaNfcNotify callback nfc' event >>= fun _ => pure nfc').widen .none
      fun _ m => m = .none := by
    rw [Program.widen_bind]
    exact (notify_keeps event).bind fun _ _ hm => hm
  cases event with
  | receivedData data => exact receivedData_keeps data
  | fieldOff => exact hend _ .fieldOff
  | halted => exact hend _ .halted

end

/-- One callback, whatever its calls reply. Between two of them the thread of the app
may have stopped and started the listener, or built another object. -/
inductive WorkerRound : TeslaNfc → List MemoryEvent → TeslaNfc → Prop
  | callback (crypto : TeslaCrypto) (callback : Bool) (event : ListenerEvent) {nfc nfc' : TeslaNfc}
      {t : List MemoryEvent} (hx : Executes (anyReply MemoryInterface)
        (teslaNfcListenerCallback crypto callback nfc event) () t nfc' ()) : WorkerRound nfc t nfc'
  | changed (nfc nfc' : TeslaNfc) : WorkerRound nfc [] nfc'

inductive PlainRound : TeslaNfc → List NfcCallEvent → TeslaNfc → Prop
  | callback (crypto : TeslaCrypto) (callback : Bool) (event : ListenerEvent) {nfc nfc' : TeslaNfc}
      {t : List NfcCallEvent} (hx : Executes (anyReply NfcInterface)
        (Tesla.teslaNfcListenerCallback crypto callback nfc event) () t nfc' ()) :
      PlainRound nfc t nfc'
  | changed (nfc nfc' : TeslaNfc) : PlainRound nfc [] nfc'

section
variable {nfc nfc' : TeslaNfc} {t : List MemoryEvent} {rounds : List (List MemoryEvent)}

theorem WorkerRound.keeps (h : WorkerRound nfc t nfc') :
    tenancy.keeping.Obeyed .none t ∧ tenancy.keeping.after .none t = .none := by
  cases h with
  | callback crypto callback event hx => exact (callback_keeps event).executes hx
  | changed => exact ⟨Monitor.obeyed_nil, rfl⟩

theorem WorkerRound.erased (h : WorkerRound nfc t nfc') :
    PlainRound nfc (t.filterMap Event.outside) nfc' := by
  cases h with
  | callback crypto callback event hx =>
    have hplain := hx.erase_anyReply
    rw [callback_erase] at hplain
    exact .callback crypto callback event hplain
  | changed => exact .changed nfc nfc'

theorem run_erased (hrun : Run WorkerRound nfc rounds nfc') :
    Run PlainRound nfc (rounds.map fun t => t.filterMap Event.outside) nfc' := by
  induction hrun with
  | nil => exact .nil _
  | snoc _ hround ih =>
    rw [List.map_append]
    exact ih.snoc hround.erased

/-- Whatever comes over the air and whatever the calls reply: each call finds the
objects it uses initialised, they are all freed again, every filled buffer is wiped
before the callback returns, a block is sent with nothing but itself in the buffers,
and the app is notified with nothing in them. -/
theorem worker_upkeep (hrun : Run WorkerRound nfc rounds nfc') :
    tenancy.keeping.Obeyed .none rounds.flatten ∧
      (∀ past rest, rounds = past ++ rest → tenancy.keeping.after .none past.flatten = .none) ∧
      (∀ o, tenancy.takings o rounds.flatten = tenancy.endings o rounds.flatten) ∧
      (∀ t ∈ rounds, ∀ past b rest, t = past ++ ⟨.inr (.fill b), ()⟩ :: rest →
        (⟨.inr (.wipe b), ()⟩ : MemoryEvent) ∈ rest) ∧
      (∀ past block error rest,
        rounds.flatten = past ++ ⟨.inl (.sendBlock block), error⟩ :: rest →
        (tenancy.keeping.after .none past).filled ⊆ {.response}) ∧
      (∀ past event time u rest,
        rounds.flatten = past ++ ⟨.inl (.notify event time), u⟩ :: rest →
        (tenancy.keeping.after .none past).filled = ∅) ∧
      Run PlainRound nfc (rounds.map fun t => t.filterMap Event.outside) nfc' := by
  have hstep (nfc : TeslaNfc) (t : List MemoryEvent) (nfc' : TeslaNfc)
      (m : Holdings Object Secret) (hround : WorkerRound nfc t nfc') (hm : m = .none) :
      tenancy.keeping.Obeyed m t ∧ tenancy.keeping.after m t = .none := by
    rw [hm]
    exact hround.keeps
  obtain ⟨hobeyed, hnone, hbetween⟩ := hrun.monitored hstep rfl
  refine ⟨hobeyed, ?_, fun o => ?_, ?_, ?_, ?_, run_erased hrun⟩
  · exact hbetween.mono fun _ ⟨_, hm⟩ => hm
  · have hbalance := balance hobeyed o
    rw [hnone] at hbalance
    simpa [Holdings.none, share] using hbalance
  · intro t ht past b rest heq
    obtain ⟨_, _, hround⟩ := hrun.exists_step t ht
    have hempty : b ∉ (tenancy.keeping.after .none
        (past ++ ⟨.inr (.fill b), ()⟩ :: rest)).filled := by
      rw [← heq, hround.keeps.2]
      simp [Holdings.none]
    exact wiped hempty
  · intro past block error rest heq b hb
    have hbars := (hobeyed past _ rest heq).bars
    cases b with
    | response => exact Finset.mem_singleton_self _
    | _ => exact absurd hb (hbars _ (by simp [tenancy, bars]))
  · intro past event time u rest heq
    have hbars := (hobeyed past _ rest heq).bars
    refine Finset.eq_empty_of_forall_notMem fun b => ?_
    cases b <;> exact hbars _ (by simp [tenancy, bars])

end

def listeningNfc (selected : Bool) : TeslaNfc :=
  ⟨1, 0, Bytes.zero 4, true, ⟨selected, Bytes.zero 65, some (), 1⟩, 0⟩

def selectRound : List MemoryEvent :=
  [⟨.inr (.fill .response), ()⟩, ⟨.inl (.sendBlock [0x90, 0x00]), .none⟩,
    ⟨.inr (.wipe .response), ()⟩, ⟨.inl (.notify .select 0), ()⟩]

def zeroAuthenticate : List UInt8 := [0x80, 0x11, 0x00, 0x00, 81, 0x04] ++ List.replicate 80 0

def zeroPoint : EcpPoint := ⟨0, 0, 1⟩

def zeroGroup : EcpGroup := (TeslaCrypto.zeroed 0).group

def authenticateRound : List MemoryEvent :=
  [⟨.inr (.fill .response), ()⟩, ⟨.inl .furiGetTick, 0⟩, ⟨.inr (.fill .salt), ()⟩,
    ⟨.inl (.furiHalRandomFillBuf 4), Bytes.zero 4⟩, ⟨.inr (.take .peerPoint), ()⟩,
    ⟨.inr (.take .sharedPoint), ()⟩, ⟨.inr (.take .aes), ()⟩,
    ⟨.inl (.ecpPointReadBinary zeroGroup ⟨0x04 :: List.replicate 64 0, rfl⟩), (0, zeroPoint)⟩,
    ⟨.inl (.ecpCheckPubkey zeroGroup zeroPoint), (0 : ℤ)⟩,
    ⟨.inl (.ecpMul zeroGroup 1 zeroPoint), (0, zeroPoint)⟩, ⟨.inr (.fill .sharedEncoded), ()⟩,
    ⟨.inl (.ecpPointWriteBinary zeroGroup zeroPoint), (0, 65, Bytes.zero 65)⟩,
    ⟨.inr (.fill .sharedX), ()⟩, ⟨.inr (.fill .digest), ()⟩,
    ⟨.inl (.sha1 (Bytes.zero 32)), (0, Bytes.zero 20)⟩, ⟨.inr (.fill .plaintext), ()⟩,
    ⟨.inl (.aesSetkeyEnc (Bytes.zero 16)), (0, ⟨[]⟩)⟩, ⟨.inr (.fill .authResponse), ()⟩,
    ⟨.inl (.aesCryptEcb ⟨[]⟩ (Bytes.zero 16)), (0, Bytes.zero 16)⟩,
    ⟨.inr (.wipe .plaintext), ()⟩, ⟨.inr (.wipe .digest), ()⟩,
    ⟨.inr (.wipe .sharedX), ()⟩, ⟨.inr (.wipe .sharedEncoded), ()⟩, ⟨.inr (.finish .aes), ()⟩,
    ⟨.inr (.finish .sharedPoint), ()⟩, ⟨.inr (.finish .peerPoint), ()⟩, ⟨.inr (.wipe .salt), ()⟩,
    ⟨.inl .furiGetTick, 0⟩, ⟨.inl .furiKernelGetTickFrequency, 0⟩,
    ⟨.inr (.wipe .authResponse), ()⟩,
    ⟨.inl (.sendBlock (List.replicate 16 0 ++ [0x90, 0x00])), .none⟩,
    ⟨.inr (.wipe .response), ()⟩, ⟨.inl (.notify .authenticate 0), ()⟩]

theorem anyReply_memory {c : MemoryInterface.Call} {r : MemoryInterface.Reply c} :
    anyReply MemoryInterface () c r () := trivial

theorem selectRound_executes :
    WorkerRound (listeningNfc false) selectRound (listeningNfc true) := by
  apply WorkerRound.callback (TeslaCrypto.zeroed 0) true (.receivedData selectTesla)
  iterate 4 apply Executes.call anyReply_memory
  exact .done _ ()

theorem authenticateRound_executes :
    WorkerRound (listeningNfc true) authenticateRound (listeningNfc true) := by
  apply WorkerRound.callback
    { TeslaCrypto.zeroed 0 with privateKey := 1, keyReady := true } true
    (.receivedData zeroAuthenticate)
  iterate 33 apply Executes.call anyReply_memory
  exact .done _ ()

theorem worker_upkeep_authenticate :
    Run WorkerRound (listeningNfc false) [selectRound, authenticateRound] (listeningNfc true) ∧
      tenancy.keeping.Obeyed .none (selectRound ++ authenticateRound) ∧
      tenancy.keeping.after .none (selectRound ++ authenticateRound) = .none ∧
      (∀ o, tenancy.takings o (selectRound ++ authenticateRound) =
        tenancy.endings o (selectRound ++ authenticateRound)) ∧
      (∀ past b rest, authenticateRound = past ++ ⟨.inr (.fill b), ()⟩ :: rest →
        (⟨.inr (.wipe b), ()⟩ : MemoryEvent) ∈ rest) ∧
      (∀ past block error rest,
        selectRound ++ authenticateRound = past ++ ⟨.inl (.sendBlock block), error⟩ :: rest →
        (tenancy.keeping.after .none past).filled ⊆ {.response}) ∧
      Run PlainRound (listeningNfc false)
        [selectRound.filterMap Event.outside, authenticateRound.filterMap Event.outside]
        (listeningNfc true) := by
  have hselect := Run.snoc (Run.nil _) selectRound_executes
  have hrun := hselect.snoc authenticateRound_executes
  obtain ⟨hobeyed, hnone, hbalance, hwiped, hsent, -, hplain⟩ := worker_upkeep hrun
  exact ⟨hrun, hobeyed, hnone [selectRound, authenticateRound] [] rfl, hbalance,
    hwiped authenticateRound (by simp), hsent, hplain⟩

end FlipperApps.Tesla.ListenerMemory
