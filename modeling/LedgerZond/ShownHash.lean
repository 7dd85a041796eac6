import LedgerZond.Chunking
import LedgerZond.SignedBytes
import LedgerZond.ReviewFields

/-! # The hash on screen

A review with data, and any review under the setting that asks for it, ends
with the hash of the transaction. It is the message that is signed when that
review is approved, in full, so reviews that show it tell messages apart; and
the first line of every review tells the signing keys apart. -/
namespace LedgerZond.ShownHash
open LedgerZond.CTypes LedgerZond.Types LedgerZond.Platform LedgerZond.AppState LedgerZond.Address
open LedgerZond.Amount LedgerZond.Review LedgerZond.App LedgerZond.Requests LedgerZond.Displays
open LedgerZond.Steps LedgerZond.SignedBytes LedgerZond.QrlTx LedgerZond.AddressText
open LedgerZond.ReviewFields LedgerZond.DecodeGrammar LedgerZond.Chunking
open LedgerZond.Independence (openSession)

variable {sdk sdk' : Sdk} {nvm : InternalStorage} {tx : ZondTx} {mHash mHash' : Bytes 32}
  {fromText toText : List Char} {hist hist' : History} {s s' : State} {en en' : Entry}

/-! ## The lines of a review -/

/-- The lines with a hash, under either of the names they have. -/
def hashLines (pairs : List Pair) : List (List Char) :=
  valuesOf "Transaction hash" pairs ++ valuesOf "Tx hash" pairs

/-- The hash is shown with data, or where the setting asks for it. -/
def showsHash (nvm : InternalStorage) (tx : ZondTx) : Prop :=
  tx.dataLen > 0 ∨ nvm.displayTxHash ≠ 0

instance (nvm : InternalStorage) (tx : ZondTx) : Decidable (showsHash nvm tx) :=
  inferInstanceAs (Decidable (_ ∨ _))

theorem hashLines_reviewPairs : hashLines (reviewPairs sdk nvm tx mHash fromText toText) =
    if showsHash nvm tx then [txHashText mHash] else [] := by
  have hitem : txHashItem sdk = "Transaction hash" ∨ txHashItem sdk = "Tx hash" := by
    unfold txHashItem
    split
    · exact .inl rfl
    · exact .inr rfl
  unfold reviewPairs showsHash
  rcases hitem with hitem | hitem
  all_goals
    rw [hitem]
    split_ifs <;> simp_all [hashLines, valuesOf]

theorem valuesOf_from :
    valuesOf "From" (reviewPairs sdk nvm tx mHash fromText toText) = [fromText] := by
  have hhash : (txHashItem sdk == "From") = false := by
    unfold txHashItem
    split
    · decide
    · decide
  unfold reviewPairs
  split_ifs <;> simp [valuesOf, hhash]

/-- All of the hash is in its text. -/
theorem txHashText_eq (mHash : Bytes 32) :
    txHashText mHash = "0x".toList ++ bytesToHexString mHash.toList := by
  have hlen : (bytesToHexString mHash.toList).length = 64 := by
    rw [length_bytesToHexString, mHash.size_eq]
  unfold txHashText snprintf
  refine List.take_of_length_le ?_
  rw [List.length_append, hlen]
  decide

theorem txHashText_injective (h : txHashText mHash = txHashText mHash') : mHash = mHash' := by
  rw [txHashText_eq, txHashText_eq] at h
  apply CArray.ext
  rw [← pairs_bytesToHexString mHash.toList, List.append_cancel_left h, pairs_bytesToHexString]

/-! ## The approved review -/

/-- The step approves a review drawn for its session: the first line is the
address of the signing key, and the message is in the last where there is one. -/
structure ShowsMessage (sdk : Sdk) (hist : History) (en : Entry) (msg : Bytes 32) (sk : SecretKey)
    (pairs : List Pair) (d : Entry) : Prop where
  screen : ∃ blind, en.pre.screen = .transaction pairs blind
  drawn : DrawnBy sdk hist en.pre en.pre.screen pairs d
  key : sk = secretKey sdk en.pre.ctx.bip32Path en.pre.ctx.bip32PathLen
  address : ∃ text, valuesOf "From" pairs = [text] ∧
    formatChecksummedAddress sdk true
      (addressOf sdk (publicKey sdk en.pre.ctx.bip32Path en.pre.ctx.bip32PathLen)) uiBufferSize =
      some text
  hash : hashLines pairs =
    if showsHash d.post.nvm en.pre.ctx.txInfo.txData then [txHashText msg] else []

/-- A signature call signs what the approved review shows. -/
theorem exists_showsMessage {msg : Bytes 32} {c : List UInt8} {sk : SecretKey}
    (h : Run sdk Serial (en :: hist) s) (hsign : Effect.sign msg c sk ∈ en.out) :
    ∃ pairs d, ShowsMessage sdk hist en msg sk pairs d := by
  obtain ⟨hrun, -, hen, -⟩ := h.last
  have hout : en.out = (step sdk en.pre en.event).2 := by rw [hen]; rfl
  obtain ⟨⟨o, pairs, blind, -, hscr, -⟩, hmsg, hsk⟩ :=
    (step_did sdk en.pre en.event).sign_mem (hout ▸ hsign)
  obtain ⟨-, -, d, hdrawn⟩ := (streams_of_run hrun).review pairs blind hscr
  obtain ⟨fromText, toText, hfrom, -, hpairs⟩ := hdrawn.review
  refine ⟨pairs, d, ⟨blind, hscr⟩, hdrawn, hsk, ⟨fromText, ?_, hfrom⟩, ?_⟩
  · rw [hpairs, valuesOf_from]
  · rw [hpairs, hashLines_reviewPairs, hmsg]

/-- **What is signed is what is shown**, in every run: the approved review
names the address of the key, and the message wherever it shows a hash. -/
theorem run_showsMessage (h : Run sdk Serial hist s) :
    Throughout (fun hist en => ∀ msg c sk, Effect.sign msg c sk ∈ en.out →
      ∃ pairs d, ShowsMessage sdk hist en msg sk pairs d) hist := by
  refine h.throughout_of_step fun hist s e hrun hserial msg c sk hsign => ?_
  exact exists_showsMessage (.next e hrun hserial) hsign

/-- **Signatures behind the same screen**, on any two devices, are under keys
of the same address, and on the same message if the screen shows a hash. -/
theorem sameScreen_sameMessage {msg msg' : Bytes 32} {c c' : List UInt8} {sk sk' : SecretKey}
    (h : Run sdk Serial (en :: hist) s) (h' : Run sdk' Serial (en' :: hist') s')
    (hsign : Effect.sign msg c sk ∈ en.out) (hsign' : Effect.sign msg' c' sk' ∈ en'.out)
    (hscreen : en.pre.screen = en'.pre.screen) :
    addressOf sdk (publicKey sdk en.pre.ctx.bip32Path en.pre.ctx.bip32PathLen) =
        addressOf sdk' (publicKey sdk' en'.pre.ctx.bip32Path en'.pre.ctx.bip32PathLen) ∧
      ((∃ pairs blind, en.pre.screen = .transaction pairs blind ∧ hashLines pairs ≠ []) →
        msg = msg') := by
  obtain ⟨pairs, d, hshow⟩ := exists_showsMessage h hsign
  obtain ⟨pairs', d', hshow'⟩ := exists_showsMessage h' hsign'
  obtain ⟨blind, hscr⟩ := hshow.screen
  obtain ⟨blind', hscr'⟩ := hshow'.screen
  have hsame := hscr.symm.trans (hscreen.trans hscr')
  simp only [Screen.transaction.injEq] at hsame
  obtain ⟨rfl, rfl⟩ := hsame
  refine ⟨?_, ?_⟩
  · obtain ⟨text, hvalues, hformat⟩ := hshow.address
    obtain ⟨text', hvalues', hformat'⟩ := hshow'.address
    cases hvalues.symm.trans hvalues'
    obtain ⟨body, rfl, hbody⟩ := formatChecksummedAddress_reads hformat
    obtain ⟨body', hcons, hbody'⟩ := formatChecksummedAddress_reads hformat'
    apply CArray.ext
    rw [← hbody, ← hbody', (List.cons.inj hcons).2]
  · rintro ⟨pairs', blind', hscr', hlines⟩
    have hsame := hscr.symm.trans hscr'
    simp only [Screen.transaction.injEq] at hsame
    obtain ⟨rfl, -⟩ := hsame
    have hboth := hshow.hash.symm.trans hshow'.hash
    rw [hshow.hash] at hlines
    split at hlines
    · rename_i hshows
      rw [if_pos hshows] at hboth
      split at hboth
      · exact txHashText_injective (List.cons.inj hboth).1
      · cases hboth
    · exact absurd rfl hlines

/-! ## One creation, sent in two ways -/

/-- The lines with a hash that are on screen. -/
def shownHashes : Screen → List (List Char)
  | .transaction pairs _ => hashLines pairs
  | _ => []

/-- In two chunks, on a device that shows the hash, the latest event first. -/
def inTwoEvents : List Event :=
  [signTx 2 0 (validCreation.drop 8) creationBack_fits,
    signTx 1 0 (validCreation.take 8) creationFront_fits, openSession, .toggle .txHash]

/-- In one chunk, behind a session in which the hash is switched on. -/
def wholeEvents : List Event :=
  [signTx 2 0 validCreation validCreation_fits, .toggle .txHash, openSession]

def inTwo : History × State := runOf creationSdk inTwoEvents

def whole : History × State := runOf creationSdk wholeEvents

theorem inTwo_run : Run creationSdk Serial (entry creationSdk inTwo.2 approve :: inTwo.1)
    (step creationSdk inTwo.2 approve).1 :=
  Lib.Machine.Run.exec ⟨.zero, rfl⟩ (approve :: inTwoEvents) (by decide)

theorem whole_run : Run creationSdk Serial (entry creationSdk whole.2 approve :: whole.1)
    (step creationSdk whole.2 approve).1 :=
  Lib.Machine.Run.exec ⟨.zero, rfl⟩ (approve :: wholeEvents) (by decide)

/-- The two runs have come to one state. -/
theorem inTwo_whole : inTwo.2 = whole.2 := by
  have hopen : IsOpen (runOf creationSdk [openSession, .toggle .txHash]).2.ctx :=
    ⟨by decide, by decide⟩
  have hempty : (runOf creationSdk [openSession, .toggle .txHash]).2.ctx.txInfo.rawTx.bytes = [] := by
    decide
  have hlen : validCreation.length ≤ maxTransactionLen := by decide
  have hsent := @feed_whole creationSdk _ (.good (.zero _)) _ hopen hempty hlen
  have htwo := (hsent creationInTwo).1
  have hone := (hsent (wholeOf validCreation (by decide) (by decide))).1
  exact htwo.trans hone.symm

theorem inTwo_shown : shownHashes inTwo.2.screen ≠ [] := by decide

theorem inTwo_signs : ∃ msg c sk,
    Effect.sign msg c sk ∈ (entry creationSdk inTwo.2 approve).out := signs_of_any (by decide)

theorem whole_signs : ∃ msg c sk,
    Effect.sign msg c sk ∈ (entry creationSdk whole.2 approve).out := signs_of_any (by decide)

theorem inTwo_showsMessage : shownHashes inTwo.2.screen ≠ [] ∧
    (∃ msg c sk, Effect.sign msg c sk ∈ (entry creationSdk inTwo.2 approve).out) ∧
    Throughout (fun hist en => ∀ msg c sk, Effect.sign msg c sk ∈ en.out →
      ∃ pairs d, ShowsMessage creationSdk hist en msg sk pairs d)
      (entry creationSdk inTwo.2 approve :: inTwo.1) :=
  ⟨inTwo_shown, inTwo_signs, run_showsMessage inTwo_run⟩

theorem inTwo_sameMessage : inTwo.1.length ≠ whole.1.length ∧ ∃ msg msg' c c' sk sk',
    Effect.sign msg c sk ∈ (entry creationSdk inTwo.2 approve).out ∧
      Effect.sign msg' c' sk' ∈ (entry creationSdk whole.2 approve).out ∧
      addressOf creationSdk (publicKey creationSdk inTwo.2.ctx.bip32Path
          inTwo.2.ctx.bip32PathLen) =
        addressOf creationSdk (publicKey creationSdk whole.2.ctx.bip32Path
          whole.2.ctx.bip32PathLen) ∧ msg = msg' := by
  obtain ⟨msg, c, sk, hsign⟩ := inTwo_signs
  obtain ⟨msg', c', sk', hsign'⟩ := whole_signs
  obtain ⟨haddress, hmessage⟩ :=
    sameScreen_sameMessage inTwo_run whole_run hsign hsign' (congrArg State.screen inTwo_whole)
  refine ⟨by decide, msg, msg', c, c', sk, sk', hsign, hsign', haddress, hmessage ?_⟩
  show ∃ pairs blind, inTwo.2.screen = .transaction pairs blind ∧ hashLines pairs ≠ []
  have hshown := inTwo_shown
  cases hscr : inTwo.2.screen with
  | transaction pairs blind =>
    rw [hscr] at hshown
    exact ⟨pairs, blind, rfl, hshown⟩
  | _ =>
    rw [hscr] at hshown
    exact absurd rfl hshown

end LedgerZond.ShownHash
