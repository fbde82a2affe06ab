import FlipperApps.MfcNdef.NoLockout
import FlipperApps.Ndef.Tag

/-!
# The formatted card is an empty NDEF tag

A reader that knows only the public keys A finds the directory and an empty
message on it. Whatever is written with keys A afterwards, and however later
format runs end, the card remains a tag that takes any message that fits.
-/

namespace FlipperApps.MfcNdef
open Calls Mifare Ndef

structure Prepared (card : Card) : Prop where
  formatted : Formatted card
  first : card 1 = mfcNdefFirstblocks 1
  second : card 2 = mfcNdefFirstblocks 2

def dataSectors : List (Fin 16) := (List.finRange 16).filter (· ≠ 0)

def messageBlocks : List (Fin 64) := dataSectors.flatMap dataBlocks

/-- What may befall a tag in use: a format run of any outcome, or a write without
the sector's key B. -/
inductive TagUse
  | format (fmt : MfcNdefFormat)
  | write (b : Fin 64) (key : Key) (type : KeyType) (data : Block)

def TagUse.Public : TagUse → Prop
  | .format _ => True
  | .write b key type _ => type = .b → key ≠ (mfcNdefSectorKeys true (sectorOf b)).2

def TagStep (card : Card) (use : TagUse) (card' : Card) : Prop :=
  match use with
  | .format fmt => FormatAttempt card fmt card'
  | .write b key type data => card' = (write card b key type data).getD card

section
variable {card card' : Card} {b : Fin 64} {s : Fin 16}

theorem formattedTrailer_general (s : Fin 16) :
    generalByte (formattedTrailer s) = if s = 0 then 0xC1 else 0x40 := by
  revert s
  decide

theorem listedSectors_templates :
    listedSectors ((mfcNdefFirstblocks 1).append (mfcNdefFirstblocks 2)) = some dataSectors := by
  decide +kernel

theorem mem_messageBlocks : b ∈ messageBlocks ↔ sectorOf b ≠ 0 ∧ ¬ IsTrailer b := by
  revert b
  decide

theorem messageBlocks_nodup : messageBlocks.Nodup := by decide

theorem length_messageBlocks : messageBlocks.length = 45 := by decide

theorem keyA_formatted (hcard : Formatted card) (b : Fin 64) :
    authenticates card b (if sectorOf b = 0 then directoryKey else dataKey) .a := by
  have hkey : (mfcNdefSectorKeys true (sectorOf b)).1 =
      if sectorOf b = 0 then directoryKey else dataKey := by
    generalize sectorOf b = s
    revert s
    decide
  simp only [authenticates, hcard (sectorOf b), formattedTrailer_keys, hkey]

theorem read_formatted_data (hcard : Formatted card) (hb : ¬ IsTrailer b) :
    read card b (if sectorOf b = 0 then directoryKey else dataKey) .a = some (card b) := by
  have haccess := formattedTrailer_access (sectorOf b)
  rw [← hcard (sectorOf b)] at haccess
  apply read_data (keyA_formatted hcard b) haccess rfl hb
  have hgroup : group b ≠ 3 := fun h => hb (congrArg Fin.val h)
  rw [if_neg hgroup]
  cases decide (sectorOf b = 0) <;> rfl

theorem read_formatted_trailer (hcard : Formatted card) (s : Fin 16) :
    ∃ t, read card (trailerOf s) (if s = 0 then directoryKey else dataKey) .a = some t ∧
      generalByte t = if s = 0 then 0xC1 else 0x40 := by
  have haccess := formattedTrailer_access s
  rw [← hcard s] at haccess
  have hauth := keyA_formatted hcard (trailerOf s)
  have htrailer : IsTrailer (trailerOf s) := by
    simp only [IsTrailer, trailerOf]
    omega
  have hread := read_trailer hauth (by rw [sectorOf_trailerOf]; exact haccess) rfl htrailer
  rw [sectorOf_trailerOf] at hread
  refine ⟨_, hread, ?_⟩
  rw [generalByte_masked, hcard, formattedTrailer_general]

theorem Prepared.openBlocks (h : Prepared card) {granted : UInt8 → Bool}
    (hgranted : granted 0x40 = true) : openBlocks card granted = some messageBlocks := by
  obtain ⟨trailer, htrailer, hbyte⟩ := read_formatted_trailer h.formatted 0
  rw [if_pos rfl] at htrailer hbyte
  have hfirst : read card 1 directoryKey .a = some (mfcNdefFirstblocks 1) :=
    (read_formatted_data (b := 1) h.formatted (by decide)).trans (congrArg some h.first)
  have hsecond : read card 2 directoryKey .a = some (mfcNdefFirstblocks 2) :=
    (read_formatted_data (b := 2) h.formatted (by decide)).trans (congrArg some h.second)
  have hdirectory : readDirectory card =
      some ((mfcNdefFirstblocks 1).append (mfcNdefFirstblocks 2)) := by
    have hgeneral : hasDirectory (generalByte trailer) = true := by
      rw [hbyte]
      decide
    simp only [readDirectory, htrailer, hfirst, hsecond]
    exact if_pos hgeneral
  have hall : dataSectors.all (sectorGrants card granted) = true := by
    rw [List.all_eq_true]
    intro s hs
    have hne : s ≠ 0 := by simpa [dataSectors] using hs
    obtain ⟨t, ht, hbyte⟩ := read_formatted_trailer h.formatted s
    rw [if_neg hne] at ht hbyte
    have hmapping : mappingOne 0x40 = true := rfl
    rw [sectorGrants, ht]
    simp only [hbyte, hmapping, hgranted, Bool.and_self]
  simp only [Ndef.openBlocks, hdirectory, listedSectors_templates, hall, if_true, messageBlocks]

theorem Prepared.readMessage (h : Prepared card) :
    readMessage card = firstMessage (contents card messageBlocks) := by
  have hblocks : ∀ b ∈ messageBlocks, read card b dataKey .a = some (card b) := by
    intro b hb
    obtain ⟨hsector, htrailer⟩ := mem_messageBlocks.mp hb
    have hread := read_formatted_data h.formatted htrailer
    rwa [if_neg hsector] at hread
  have hopen : Ndef.openBlocks card readGranted = some messageBlocks := h.openBlocks rfl
  simp only [Ndef.readMessage, hopen, readBlocks_eq hblocks]

theorem write_public {key : Key} {type : KeyType} {data : Block} (hcard : Formatted card)
    (hpublic : (TagUse.write b key type data).Public)
    (h : write card b key type data = some card') :
    b ∈ messageBlocks ∧ card' = Function.update card b data := by
  cases type with
  | a =>
    have hb : b ∈ messageBlocks := by
      rw [mem_messageBlocks]
      by_contra hb
      have hrefused : write card b key .a data = none :=
        write_formatted_keyA_refused (by tauto) (hcard _)
      exact nomatch h.symm.trans hrefused
    exact ⟨hb, write_known (.inr (hcard _)) h⟩
  | b =>
    have hrefused : write card b key .b data = none := by
      apply write_refused_of_key
      simp only [authenticates, hcard _, formattedTrailer_keys]
      exact hpublic rfl
    exact nomatch h.symm.trans hrefused

theorem messageBlocks_apart (hb : b ∈ messageBlocks) :
    (∀ s, trailerOf s ≠ b) ∧ (0 : Fin 64) ≠ b ∧ (1 : Fin 64) ≠ b ∧ (2 : Fin 64) ≠ b := by
  revert b
  decide

theorem Prepared.update (h : Prepared card) (hb : b ∈ messageBlocks) (data : Block) :
    Prepared (Function.update card b data) := by
  obtain ⟨htrailer, -, hfirst, hsecond⟩ := messageBlocks_apart hb
  refine ⟨fun s => ?_, ?_, ?_⟩
  · rw [Function.update_of_ne (htrailer s)]
    exact h.formatted s
  · rw [Function.update_of_ne hfirst, h.first]
  · rw [Function.update_of_ne hsecond, h.second]

theorem Prepared.template (h : Prepared card) :
    Prepared (Function.update card b (mfcNdefBuildBlock b).2) := by
  refine ⟨fun s => ?_, ?_, ?_⟩
  · rcases update_trailer card b s with hs | hs
    · rw [hs]
      exact h.formatted s
    · exact hs
  · by_cases hb : (1 : Fin 64) = b
    · subst hb
      rfl
    · rw [Function.update_of_ne hb, h.first]
  · by_cases hb : (2 : Fin 64) = b
    · subst hb
      rfl
    · rw [Function.update_of_ne hb, h.second]

theorem write_manufacturer (card : Card) (key : Key) (type : KeyType) (data : Block) :
    write card 0 key type data = none := by
  simp [write]

structure InUse (original card : Card) : Prop where
  prepared : Prepared card
  manufacturer : card 0 = original 0

variable {original : Card}

theorem InUse.rewritten (h : InUse original card) {key : Key} {type : KeyType}
    (hwrite : write card b key type (mfcNdefBuildBlock b).2 = some card') :
    InUse original card' := by
  have hb : (0 : Fin 64) ≠ b := by
    rintro rfl
    exact nomatch hwrite.symm.trans (write_manufacturer _ _ _ _)
  obtain rfl := write_known (.inr (h.prepared.formatted _)) hwrite
  refine ⟨h.prepared.template, ?_⟩
  rw [Function.update_of_ne hb, h.manufacturer]

theorem InUse.attempt {fmt : MfcNdefFormat} (h : InUse original card)
    (hrun : FormatAttempt card fmt card') : InUse original card' := by
  have hstep {card card' : Card} {c : FormatCall} {r : c.Reply} (hc : WritesTemplate c)
      (h : InUse original card) (hE : unreliablePoller card c r card') :
      InUse original card' := by
    cases c with
    | writeBlock b key type data =>
      obtain rfl : data = (mfcNdefBuildBlock b).2 := hc
      rcases hE with hwrite | ⟨-, rfl⟩
      · exact h.rewritten hwrite
      · exact h
    | detectType => exact hE ▸ h
    | auth => exact hE ▸ h
    | readStop => exact hE ▸ h
    | progress => exact hE ▸ h
  obtain ⟨t, hstop⟩ := hrun
  refine throughout_iff.mp (throughout_of_uses h ?_ ?_ formatRun_uses) t card' hstop
  · intro card c card' hc h ⟨r, hE⟩
    exact hstep hc h hE
  · intro card c r card' hc h hE
    exact hstep hc h hE

theorem InUse.step {use : TagUse} (h : InUse original card) (hpublic : use.Public)
    (hstep : TagStep card use card') : InUse original card' := by
  cases use with
  | format fmt => exact h.attempt hstep
  | write b key type data =>
    obtain rfl : card' = (write card b key type data).getD card := hstep
    cases hwrite : write card b key type data with
    | none => exact h
    | some card' =>
      obtain ⟨hb, rfl⟩ := write_public h.prepared.formatted hpublic hwrite
      obtain ⟨-, hzero, -, -⟩ := messageBlocks_apart hb
      refine ⟨h.prepared.update hb data, ?_⟩
      rw [Option.getD_some, Function.update_of_ne hzero, h.manufacturer]

theorem InUse.writeMessage (h : InUse original card) {message : List UInt8}
    (hlength : message.length ≤ 715) :
    ∃ card', writeMessage card message = some card' ∧ InUse original card' ∧
      Ndef.readMessage card' = some message := by
  have hfits : (encodeMessage message).length ≤ 16 * messageBlocks.length := by
    rw [length_encodeMessage, length_messageBlocks]
    split_ifs <;> omega
  have hwrite : ∀ card b data, InUse original card → b ∈ messageBlocks →
      write card b dataKey .a data = some (Function.update card b data) ∧
        InUse original (Function.update card b data) := by
    intro card b data h hb
    obtain ⟨hsector, htrailer⟩ := mem_messageBlocks.mp hb
    obtain ⟨-, hzero, -, -⟩ := messageBlocks_apart hb
    have hkey : (mfcNdefSectorKeys true (sectorOf b)).1 = dataKey := by
      simp only [mfcNdefSectorKeys, hsector, if_false]
      rfl
    have hgranted : write card b dataKey .a data = some (Function.update card b data) :=
      hkey ▸ write_formatted_keyA hzero.symm hsector htrailer (h.prepared.formatted _)
    refine ⟨hgranted, h.prepared.update hb data, ?_⟩
    rw [Function.update_of_ne hzero, h.manufacturer]
  obtain ⟨card', rest, hwrites, hcard', hcontents, -⟩ :=
    writeBlocks_spec h messageBlocks_nodup hwrite (encodeMessage message) hfits
  refine ⟨card', ?_, hcard', ?_⟩
  · have hopen : Ndef.openBlocks card writeGranted = some messageBlocks :=
      h.prepared.openBlocks rfl
    simp only [Ndef.writeMessage, hopen, hwrites]
  · rw [hcard'.prepared.readMessage, hcontents, firstMessage_encodeMessage (by omega)]

theorem inUse_imageUpTo_all (card : Card) : InUse card (imageUpTo card 64) :=
  ⟨⟨formatted_imageUpTo_all card, rfl, rfl⟩, rfl⟩

theorem imageUpTo_all_empty (card : Card) :
    Ndef.readMessage (imageUpTo card 64) = some [] := by
  have htemplates : contents (imageUpTo card 64) messageBlocks =
      contents (fun b => (mfcNdefBuildBlock b).2) messageBlocks := by
    apply List.flatMap_congr
    intro b hb
    obtain ⟨-, hzero, -, -⟩ := messageBlocks_apart hb
    rw [imageUpTo_all, if_neg hzero.symm]
  obtain ⟨rest, hrest⟩ : ∃ rest, contents (fun b => (mfcNdefBuildBlock b).2) messageBlocks =
      encodeMessage [] ++ rest := ⟨_, rfl⟩
  rw [(inUse_imageUpTo_all card).prepared.readMessage, htemplates, hrest]
  exact firstMessage_encodeMessage (by simp) rest

/-- From the format run on, whatever is done to the tag without the keys B and however
further format runs end, it takes and returns messages, and a format run that is
left to finish empties it. -/
theorem formatted_tag_in_use (refusals : Refusals) (fmt : MfcNdefFormat) {uses : List TagUse}
    (hcard : Blank card ∨ Formatted card) (hpublic : ∀ use ∈ uses, use.Public)
    (hrun : Run TagStep (formatOnCard refusals none fmt card).2 uses card') :
    readMessage (formatOnCard refusals none fmt card).2 = some [] ∧ card' 0 = card 0 ∧
    (∀ message, message.length ≤ 715 →
      ∃ card'', writeMessage card' message = some card'' ∧ card'' 0 = card 0 ∧
        readMessage card'' = some message) ∧
    ∀ refusals fmt, (formatOnCard refusals none fmt card').1 = .ok ∧
      readMessage (formatOnCard refusals none fmt card').2 = some [] := by
  have hformat {card : Card} (hcard : Blank card ∨ Formatted card) (refusals : Refusals)
      (fmt : MfcNdefFormat) : (formatOnCard refusals none fmt card).1 = .ok ∧
        readMessage (formatOnCard refusals none fmt card).2 = some [] := by
    rw [formatOnCard_ok refusals fmt hcard]
    exact ⟨rfl, imageUpTo_all_empty card⟩
  rw [formatOnCard_ok refusals fmt hcard] at hrun
  have huse : (∀ use ∈ uses, use.Public) → InUse card card' := by
    apply hrun.invariant (P := fun uses card' => (∀ use ∈ uses, use.Public) → InUse card card')
    · exact fun _ => inUse_imageUpTo_all card
    · intro uses s use s' ih hstep hpublic
      have hpast := ih fun use huse => hpublic use (List.mem_append_left _ huse)
      exact hpast.step (hpublic use (List.mem_append_right _ List.mem_cons_self)) hstep
  have hcard' := huse hpublic
  refine ⟨(hformat hcard refusals fmt).2, hcard'.manufacturer, fun message hlength => ?_,
    hformat (.inr hcard'.prepared.formatted)⟩
  obtain ⟨card'', hwrite, hcard'', hread⟩ := hcard'.writeMessage hlength
  exact ⟨card'', hwrite, hcard''.manufacturer, hread⟩

theorem formatted_tag_in_use_factoryCard :
    let card := (formatOnCard plainRefusals none appFormat factoryCard).2
    let card' := (write card 4 dataKey .a (Bytes.zero 16)).getD card
    readMessage card = some [] ∧ card' 0 = factoryCard 0 ∧
    (∀ message, message.length ≤ 715 →
      ∃ card'', writeMessage card' message = some card'' ∧ card'' 0 = factoryCard 0 ∧
        readMessage card'' = some message) ∧
    ∀ refusals fmt, (formatOnCard refusals none fmt card').1 = .ok ∧
      readMessage (formatOnCard refusals none fmt card').2 = some [] := by
  intro card card'
  have hrun : Run TagStep card [.write 4 dataKey .a (Bytes.zero 16)] card' :=
    .snoc (.nil card) rfl
  have hpublic : ∀ use ∈ [TagUse.write 4 dataKey .a (Bytes.zero 16)], use.Public := by
    intro use huse
    obtain rfl := List.mem_singleton.mp huse
    exact fun h => nomatch h
  exact formatted_tag_in_use plainRefusals appFormat (.inl factoryCard_blank) hpublic hrun

end

end FlipperApps.MfcNdef
