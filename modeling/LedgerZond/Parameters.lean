import LedgerZond.App
import LedgerZond.Lib.Slices
import Mathlib.Data.List.TakeWhile
import Mathlib.Tactic.IntervalCases

/-! # The parameters of a call and their text

`abi_calldata_parse` keeps the selector of a call and its first sixteen slots.
`buildScreen` shows a slot in eight parts of eight bytes, each without the zero
bytes in front, with a colon behind each part but the fourth and the last; none
of them is written behind its buffer. -/
namespace LedgerZond.Parameters
open LedgerZond.CTypes LedgerZond.Types LedgerZond.Platform LedgerZond.AppState LedgerZond.Review
open LedgerZond.App Lib.Slices

/-! ## The call data -/

/-- The bytes the parser hands on: the selector and the parameters. -/
def keptBytes (out : AbiCalldata) : List UInt8 :=
  out.selector.toList ++ (out.params.toList.take out.paramCount.toNat).flatMap CArray.toList

/-- Call data that is accepted is handed on whole, and only a selector and
whole slots are accepted. -/
def DropsNothing (calldata : List UInt8) : Prop :=
  (∀ out, abiCalldataParse calldata = (true, out) → keptBytes out = calldata) ∧
    ((∀ k, calldata.length ≠ 4 + 64 * k) → (abiCalldataParse calldata).1 = false)

/-- What becomes of call data: sixteen slots of it are handed on. -/
structure Keeps (calldata : List UInt8) : Prop where
  kept : ∀ out, abiCalldataParse calldata = (true, out) →
    keptBytes out = calldata.take (4 + 64 * abiMaxParams)
  refused : (∀ k, calldata.length ≠ 4 + 64 * k) → (abiCalldataParse calldata).1 = false
  whole : DropsNothing calldata ↔ ∀ k, calldata.length = 4 + 64 * k → k ≤ abiMaxParams

/-- `params[i]` is slot `i` of what is behind the selector. -/
theorem slot_eq {calldata : List UInt8} {k i : Nat} (hlen : calldata.length = 4 + 64 * k)
    (hi : i < k) : ((Bytes.zero abiSlotSize).overlay
      ((calldata.drop (4 + i * abiSlotSize)).take 64)).toList = slice 64 (calldata.drop 4) i := by
  have hslot : abiSlotSize = 64 := rfl
  have hfull : ((calldata.drop (4 + i * abiSlotSize)).take 64).length = abiSlotSize := by
    rw [List.length_take, List.length_drop, hlen, hslot]
    omega
  rw [overlay_of_length _ hfull, slice, List.drop_drop, hslot]

/-- The parser accepts a selector and whole slots, and keeps sixteen of them. -/
theorem abiCalldataParse_cases (calldata : List UInt8) :
    ((abiCalldataParse calldata).1 = false ∧ ∀ k, calldata.length ≠ 4 + 64 * k) ∨
      ∃ k out, calldata.length = 4 + 64 * k ∧ abiCalldataParse calldata = (true, out) ∧
        out.paramCount.toNat = min k abiMaxParams ∧
        keptBytes out = calldata.take (4 + 64 * abiMaxParams) := by
  have hsel : abiSelectorSize = 4 := rfl
  have hmax : abiMaxParams = 16 := rfl
  unfold abiCalldataParse
  by_cases hshort : calldata.length < abiSelectorSize
  · rw [if_pos hshort]
    exact .inl ⟨rfl, fun k => by omega⟩
  rw [if_neg hshort]
  by_cases hrest : (calldata.length - abiSelectorSize) % abiSlotSize > 0
  · have hbytes : (calldata.length - 4) % 64 > 0 := hrest
    simp only [if_pos hrest]
    exact .inl ⟨trivial, fun k => by omega⟩
  have hbytes : ¬(calldata.length - 4) % 64 > 0 := hrest
  simp only [if_neg hrest]
  obtain ⟨k, hk⟩ : ∃ k, calldata.length = 4 + 64 * k := ⟨(calldata.length - 4) / 64, by omega⟩
  have hslots : (calldata.length - abiSelectorSize) / abiSlotSize = k := by
    show (calldata.length - 4) / 64 = k
    omega
  rw [hslots]
  refine .inr ⟨k, _, hk, rfl, ?_, ?_⟩
  · rw [UInt8.toNat_ofNat']
    omega
  · have hcount : (UInt8.ofNat (min k abiMaxParams)).toNat =
        ((List.range (min k abiMaxParams)).map fun i => (Bytes.zero abiSlotSize).overlay
          ((calldata.drop (4 + i * abiSlotSize)).take 64)).length := by
      rw [UInt8.toNat_ofNat', List.length_map, List.length_range]
      omega
    have hselector : (AbiCalldata.zero.selector.overlay (calldata.take abiSelectorSize)).toList =
        calldata.take 4 := overlay_of_length _ (by rw [List.length_take]; omega)
    have hparams : ((List.range (min k abiMaxParams)).map fun i =>
          (Bytes.zero abiSlotSize).overlay
            ((calldata.drop (4 + i * abiSlotSize)).take 64)).flatMap CArray.toList =
        (List.range (min k abiMaxParams)).flatMap (slice 64 (calldata.drop 4)) := by
      rw [List.flatMap_map]
      refine List.flatMap_congr fun i hi => ?_
      have hlt := List.mem_range.mp hi
      exact slot_eq hk (by omega)
    simp only [keptBytes, hselector]
    rw [hcount, overlay_take _ (by rw [List.length_map, List.length_range]; omega), hparams,
      flatMap_slice, ← List.take_add]
    by_cases hfew : k ≤ abiMaxParams
    · rw [List.take_of_length_le (by omega), List.take_of_length_le (by omega)]
    · rw [Nat.min_eq_right (by omega), Nat.mul_comm]

/-- **The call data of a review**: of more than sixteen slots, the first sixteen. -/
theorem abiCalldataParse_keeps (calldata : List UInt8) : Keeps calldata := by
  rcases abiCalldataParse_cases calldata with ⟨hfalse, hno⟩ | ⟨k, out, hk, hparse, -, hkept⟩
  · have hnone : ∀ out, abiCalldataParse calldata ≠ (true, out) := by
      intro out hout
      rw [hout] at hfalse
      cases hfalse
    exact ⟨fun out hout => absurd hout (hnone out), fun _ => hfalse,
      iff_of_true ⟨fun out hout => absurd hout (hnone out), fun _ => hfalse⟩
        fun k hk => absurd hk (hno k)⟩
  · have hrefused : (∀ k, calldata.length ≠ 4 + 64 * k) → (abiCalldataParse calldata).1 = false :=
      fun hno => absurd hk (hno k)
    have honly : ∀ out', abiCalldataParse calldata = (true, out') → out' = out := by
      intro out' hout
      rw [hparse] at hout
      exact (Prod.mk.inj hout).2.symm
    have hmax : abiMaxParams = 16 := rfl
    refine ⟨fun out' hout => by rw [honly out' hout, hkept], hrefused, ?_, ?_⟩
    · intro hwhole k' hk'
      have hall := congrArg List.length (hkept.symm.trans (hwhole.1 out hparse))
      rw [List.length_take] at hall
      omega
    · intro hfew
      have hle := hfew k hk
      refine ⟨fun out' hout => ?_, hrefused⟩
      rw [honly out' hout, hkept, List.take_of_length_le (by omega)]

/-- A call with seventeen parameters, the last of which is not handed on. -/
theorem seventeenSlots_drops :
    (List.replicate 1092 (0 : UInt8)).length ≤ maxDataSize ∧
      ¬DropsNothing (List.replicate 1092 0) := by
  have hlen : (List.replicate 1092 (0 : UInt8)).length = 4 + 64 * 17 := List.length_replicate
  refine ⟨by rw [hlen]; decide, fun hdrops => ?_⟩
  rcases abiCalldataParse_cases (List.replicate 1092 0) with
    ⟨-, hno⟩ | ⟨k, out, -, hparse, -, hkept⟩
  · exact hno 17 hlen
  · have hall := congrArg List.length (hkept.symm.trans (hdrops.1 out hparse))
    rw [List.length_take, hlen] at hall
    exact absurd hall (by decide)

/-! ## The text of a parameter -/

def hexText (bytes : List UInt8) : List Char :=
  let digit n := "0123456789ABCDEF".toList.getD n '0'
  bytes.flatMap fun b => [digit (b.toNat / 16), digit (b.toNat % 16)]

/-- `format_hex` as the SDK documents it: upper-case digits and a NUL where
they fit, else nothing. -/
structure FormatsHex (sdk : Sdk) : Prop where
  writes : ∀ bytes outLen, 2 * bytes.length + 1 ≤ outLen →
    sdk.formatHex bytes outLen = some (hexText bytes ++ ['\x00'])
  refuses : ∀ bytes outLen, outLen < 2 * bytes.length + 1 → sdk.formatHex bytes outLen = none

theorem referenceSdk_formatsHex (keccak256 : List UInt8 → Bytes 32) :
    FormatsHex (referenceSdk keccak256) where
  writes bytes outLen h := if_neg (by omega)
  refuses bytes outLen h := if_pos h

/-- Eight bytes of a parameter. -/
def part (parameter : List UInt8) (i : Nat) : List UInt8 := (parameter.drop (8 * i)).take 8

/-- The text of eight bytes: those behind the zero bytes in front. -/
def partText (part : List UInt8) : List Char :=
  let rest := part.dropWhile (· == 0)
  if rest = [] then ['0', '0'] else hexText rest

/-- What `buildScreen` shows of a parameter. -/
def parameterText (parameter : List UInt8) : List Char :=
  let text i := partText (part parameter i)
  [':'].intercalate [text 0, text 1, text 2, text 3 ++ text 4, text 5, text 6, text 7]

theorem length_hexText (bytes : List UInt8) : (hexText bytes).length = 2 * bytes.length := by
  induction bytes with
  | nil => rfl
  | cons b bytes ih =>
    simp only [hexText, List.flatMap_cons, List.length_append, List.length_cons,
      List.length_nil] at ih ⊢
    omega

theorem mem_hexText {bytes : List UInt8} {c : Char} (h : c ∈ hexText bytes) :
    c ≠ ':' ∧ c ≠ '\x00' := by
  obtain ⟨b, -, hc⟩ := List.mem_flatMap.mp h
  have hb := b.toNat_lt
  have hdigit : ∀ n < 16, "0123456789ABCDEF".toList.getD n '0' ≠ ':' ∧
      "0123456789ABCDEF".toList.getD n '0' ≠ '\x00' := by
    intro n hn
    interval_cases n <;> decide
  rcases List.mem_cons.mp hc with rfl | hc
  · exact hdigit _ (by omega)
  · rw [List.mem_singleton.mp hc]
    exact hdigit _ (by omega)

theorem mem_partText {part : List UInt8} {c : Char} (h : c ∈ partText part) :
    c ≠ ':' ∧ c ≠ '\x00' := by
  unfold partText at h
  dsimp only at h
  split at h
  · simp only [List.mem_cons, List.not_mem_nil, or_false, or_self] at h
    rw [h]
    decide
  · exact mem_hexText h

theorem partText_length (part : List UInt8) (h : part.length = 8) :
    2 ≤ (partText part).length ∧ (partText part).length ≤ 16 := by
  have hle := (List.dropWhile_suffix (l := part) (· == 0)).length_le
  unfold partText
  dsimp only
  split
  · decide
  · rename_i hne
    have hpos := List.length_pos_iff.mpr hne
    rw [length_hexText]
    omega

/-! ## What is written for it -/

theorem drop_zeros (part : List UInt8) :
    part.drop (part.takeWhile (· == 0)).length = part.dropWhile (· == 0) :=
  calc part.drop (part.takeWhile (· == 0)).length
    _ = (part.takeWhile (· == 0) ++ part.dropWhile (· == 0)).drop
          (part.takeWhile (· == 0)).length := by rw [List.takeWhile_append_dropWhile]
    _ = part.dropWhile (· == 0) := List.drop_left

/-- One part: its text and a NUL, where there is room for sixteen digits. -/
theorem splitBinaryParameterPart_eq {sdk : Sdk} (hsdk : FormatsHex sdk) {resultSize : Nat}
    {part : List UInt8} (hlen : part.length = 8) (hroom : 17 ≤ resultSize) :
    splitBinaryParameterPart sdk resultSize part =
      (partText part ++ ['\x00'], (partText part).length) := by
  have hsplit := List.takeWhile_append_dropWhile (p := (· == 0)) (l := part)
  have hlens := congrArg List.length hsplit
  rw [List.length_append, hlen] at hlens
  unfold splitBinaryParameterPart partText
  dsimp only
  rw [drop_zeros]
  by_cases hzero : part.dropWhile (· == 0) = []
  · rw [if_pos (by rw [hzero] at hlens; exact hlens), if_pos hzero]
    rfl
  · have hpos := List.length_pos_iff.mpr hzero
    rw [if_neg (by omega), if_neg hzero, hsdk.writes _ _ (by omega), length_hexText]
    rw [Option.getD_some, Prod.mk.injEq]
    exact ⟨rfl, by omega⟩

/-- A buffer of 140 characters that starts with `text` and is zero behind it. -/
def filled (text : List Char) : List Char :=
  text ++ List.replicate (uiBufferSize - text.length) '\x00'

/-- Writing behind the text, with `k` NULs at the end of what is written. -/
theorem writeAt_filled {text cs : List Char} (k : Nat)
    (hroom : text.length + cs.length + k ≤ uiBufferSize) :
    writeAt (filled text) text.length (cs ++ List.replicate k '\x00') = filled (text ++ cs) := by
  have hrest : (filled text).drop (text.length + (cs ++ List.replicate k '\x00').length) =
      List.replicate (uiBufferSize - text.length - cs.length - k) '\x00' := by
    rw [filled, ← List.drop_drop, List.drop_left, List.drop_replicate, List.length_append,
      List.length_replicate]
    congr 1
    omega
  rw [writeAt, hrest, filled, List.take_left, filled, List.append_assoc, List.append_assoc,
    List.append_assoc, List.replicate_append_replicate, List.length_append]
  congr 3
  omega

/-- What the rounds before round `n` write. -/
def roundsText (parameter : List UInt8) (n : Nat) : List Char :=
  (List.range n).flatMap fun i =>
    partText (part parameter i) ++ if i ≠ 3 then [':'] else []

theorem roundsText_succ (parameter : List UInt8) (n : Nat) :
    roundsText parameter (n + 1) = roundsText parameter n ++
      (partText (part parameter n) ++ if n ≠ 3 then [':'] else []) := by
  rw [roundsText, List.range_succ, List.flatMap_append, List.flatMap_singleton]
  rfl

theorem part_length {parameter : List UInt8} (hlen : parameter.length = 64) {i : Nat} (hi : i < 8) :
    (part parameter i).length = 8 := by
  rw [part, List.length_take, List.length_drop, hlen]
  omega

theorem roundsText_length_le {parameter : List UInt8} (hlen : parameter.length = 64) {n : Nat}
    (hn : n ≤ 8) : (roundsText parameter n).length ≤ 17 * n := by
  induction n with
  | zero => exact Nat.le_refl 0
  | succ n ih =>
    have hpart := (partText_length _ (part_length hlen (by omega : n < 8))).2
    have hsep : (if n ≠ 3 then [':'] else [] : List Char).length ≤ 1 := by split <;> decide
    have hrec := ih (by omega)
    rw [roundsText_succ, List.length_append, List.length_append]
    omega

/-- **One round** appends its part, and a colon unless it is the fourth. -/
theorem writePart_eq {sdk : Sdk} (hsdk : FormatsHex sdk) {parameter : List UInt8}
    (hlen : parameter.length = 64) {n : Nat} (hn : n < 8) :
    writePart sdk parameter (filled (roundsText parameter n), (roundsText parameter n).length) n =
      (filled (roundsText parameter (n + 1)), (roundsText parameter (n + 1)).length) := by
  have hbuffer : uiBufferSize = 140 := rfl
  have hle := roundsText_length_le hlen (le_of_lt hn)
  have hpart := part_length hlen hn
  have htext := (partText_length _ hpart).2
  have hnul : writeAt (filled (roundsText parameter n)) (roundsText parameter n).length
      (partText (part parameter n) ++ ['\x00']) =
        filled (roundsText parameter n ++ partText (part parameter n)) :=
    writeAt_filled 1 (by omega)
  have hlength : (roundsText parameter n).length + (partText (part parameter n)).length =
      (roundsText parameter n ++ partText (part parameter n)).length := List.length_append.symm
  have hsplit := @splitBinaryParameterPart_eq sdk hsdk
    (uiBufferSize - (roundsText parameter n).length) _ hpart (by omega)
  rw [part] at hsplit
  simp only [writePart, hsplit]
  rw [← part, hnul, hlength, roundsText_succ]
  by_cases h3 : n = 3
  · rw [if_neg (not_not.mpr h3), if_neg (not_not.mpr h3), List.append_nil]
  · have hcolon : writeAt (filled (roundsText parameter n ++ partText (part parameter n)))
        (roundsText parameter n ++ partText (part parameter n)).length [':'] =
          filled ((roundsText parameter n ++ partText (part parameter n)) ++ [':']) :=
      @writeAt_filled _ [':'] 0 (by rw [← hlength, List.length_singleton]; omega)
    rw [if_pos h3, if_pos h3, hcolon, List.append_assoc, List.length_append, List.length_append,
      List.length_append, List.length_singleton, Nat.add_assoc]

/-- The eight rounds, from a buffer of zeros. -/
theorem foldl_writePart {sdk : Sdk} (hsdk : FormatsHex sdk) {parameter : List UInt8}
    (hlen : parameter.length = 64) {n : Nat} (hn : n ≤ 8) :
    (List.range n).foldl (writePart sdk parameter) (List.replicate uiBufferSize '\x00', 0) =
      (filled (roundsText parameter n), (roundsText parameter n).length) := by
  induction n with
  | zero => rfl
  | succ n ih =>
    rw [List.range_succ, List.foldl_append, ih (by omega)]
    exact writePart_eq hsdk hlen hn

/-! ## What is shown -/

/-- A text without a NUL is what stands before the first NUL behind it. -/
theorem cString_append {text : List Char} (htext : ∀ c ∈ text, c ≠ '\x00') (rest : List Char) :
    cString (text ++ '\x00' :: rest) = text := by
  rw [cString, List.takeWhile_append_of_pos fun c hc => bne_iff_ne.mpr (htext c hc)]
  simp

theorem mem_roundsText {parameter : List UInt8} {n : Nat} {c : Char}
    (h : c ∈ roundsText parameter n) : c ≠ '\x00' := by
  obtain ⟨i, -, hc⟩ := List.mem_flatMap.mp h
  rcases List.mem_append.mp hc with hc | hc
  · exact (mem_partText hc).2
  · split at hc
    · rw [List.mem_singleton.mp hc]
      decide
    · cases hc

/-- The eight rounds write the text and a colon at its end. -/
theorem roundsText_eight (parameter : List UInt8) :
    roundsText parameter 8 = parameterText parameter ++ [':'] := by
  simp [roundsText, parameterText, List.range_succ, List.intercalate]

theorem cString_filled {text : List Char} (htext : ∀ c ∈ text, c ≠ '\x00')
    (hlen : text.length < uiBufferSize) : cString (filled text) = text := by
  obtain ⟨z, hz⟩ : ∃ z, uiBufferSize - text.length = z + 1 :=
    ⟨uiBufferSize - text.length - 1, by omega⟩
  rw [filled, hz, List.replicate_succ]
  exact cString_append htext _

/-- A NUL over the last character of a text. -/
theorem writeAt_last (text : List Char) (c : Char) (hlen : text.length < uiBufferSize) :
    writeAt (filled (text ++ [c])) text.length ['\x00'] = filled text := by
  have hlast : text.length + 1 = (text ++ [c]).length := by
    rw [List.length_append, List.length_singleton]
  have hrest : (filled (text ++ [c])).drop (text.length + ['\x00'].length) =
      List.replicate (uiBufferSize - text.length - 1) '\x00' := by
    rw [filled, List.length_singleton, hlast, List.drop_left, ← hlast, Nat.sub_add_eq]
  have hnuls : uiBufferSize - text.length = uiBufferSize - text.length - 1 + 1 := by omega
  rw [writeAt, hrest, filled, List.append_assoc text [c], List.take_left, filled, hnuls,
    List.replicate_succ, List.append_assoc, Nat.add_sub_cancel]
  rfl

theorem parameterText_noNul (parameter : List UInt8) :
    ∀ c ∈ parameterText parameter, c ≠ '\x00' := by
  intro c hc
  have hmem : c ∈ roundsText parameter 8 := by
    rw [roundsText_eight]
    exact List.mem_append_left _ hc
  exact mem_roundsText hmem

theorem parameterText_length {parameter : List UInt8} (hlen : parameter.length = 64) :
    (parameterText parameter).length + 1 ≤ 136 := by
  have hle := roundsText_length_le hlen (le_refl 8)
  rwa [roundsText_eight, List.length_append, List.length_singleton] at hle

/-- **The strip** takes the colon behind the last part away, and nothing else. -/
theorem parameterBuffer_filled {sdk : Sdk} (hsdk : FormatsHex sdk) {parameter : List UInt8}
    (hlen : parameter.length = 64) :
    parameterBuffer sdk parameter = filled (parameterText parameter) := by
  have hbuffer : uiBufferSize = 140 := rfl
  have hle := parameterText_length hlen
  have hnul : ∀ c ∈ roundsText parameter 8, c ≠ '\x00' := fun c => mem_roundsText
  have hstrlen : cString (filled (roundsText parameter 8)) = roundsText parameter 8 :=
    cString_filled hnul (by rw [roundsText_eight, List.length_append, List.length_singleton]; omega)
  rw [parameterBuffer, foldl_writePart hsdk hlen (le_refl 8)]
  dsimp only
  rw [hstrlen, roundsText_eight, List.length_append, List.length_singleton, Nat.add_sub_cancel]
  exact writeAt_last _ _ (by omega)

/-- **The text of a parameter** is what `buildScreen` leaves in its buffer. -/
theorem parameterBuffer_eq {sdk : Sdk} (hsdk : FormatsHex sdk) {parameter : List UInt8}
    (hlen : parameter.length = 64) :
    cString (parameterBuffer sdk parameter) = parameterText parameter := by
  have hbuffer : uiBufferSize = 140 := rfl
  have hle := parameterText_length hlen
  rw [parameterBuffer_filled hsdk hlen]
  exact cString_filled (parameterText_noNul parameter) (by omega)

/-- The screen of a parameter. -/
theorem buildScreen_parameter {sdk : Sdk} (hsdk : FormatsHex sdk) {p : Bytes abiSlotSize}
    {s : State} (hcount : s.paramCount > 0)
    (hp : s.ctx.txInfo.calldata.params.toList[s.paramIndex.toNat]? = some p) :
    (buildScreen sdk .parameterConfirmation s).2 =
      [.draw (.confirm ("Parameter", parameterText p.toList))] := by
  have hget : s.ctx.txInfo.calldata.params.toList.getD s.paramIndex.toNat (.zero _) = p := by
    rw [List.getD_eq_getElem?_getD, hp, Option.getD_some]
  simp only [buildScreen, nbglUseCase, hget, if_pos hcount, parameterBuffer_eq hsdk p.size_eq]

/-! ## Inside the buffer -/

/-- `g_ui_buffer` and `offset` before round `i` of `buildScreen`. -/
def beforeRound (sdk : Sdk) (parameter : List UInt8) (i : Nat) : List Char × Nat :=
  (List.range i).foldl (writePart sdk parameter) (List.replicate uiBufferSize '\x00', 0)

/-- The zero bytes in front of a part. -/
def zerosBefore (part : List UInt8) : Nat := (part.takeWhile (· == 0)).length

/-- One part, written at `offset`: `format_hex` is given the room it needs and
does not fail, and the part, its NUL and the colon behind it are written inside
the buffer. -/
structure PartFits (sdk : Sdk) (part : List UInt8) (offset : Nat) : Prop where
  before : offset ≤ uiBufferSize - 1
  room : zerosBefore part ≠ 8 → 2 * (8 - zerosBefore part) + 1 ≤ uiBufferSize - offset
  formats : zerosBefore part ≠ 8 →
    (sdk.formatHex (part.drop (zerosBefore part)) (uiBufferSize - offset)).isSome
  inside : offset + (splitBinaryParameterPart sdk (uiBufferSize - offset) part).1.length ≤
    uiBufferSize
  behind : offset + (splitBinaryParameterPart sdk (uiBufferSize - offset) part).2 ≤
    uiBufferSize - 1

/-- `buildScreen` renders the parameter `p` inside `g_ui_buffer`. -/
structure FitsUiBuffer (sdk : Sdk) (p : Bytes abiSlotSize) : Prop where
  rounds : ∀ i < 8, PartFits sdk (part p.toList i) (beforeRound sdk p.toList i).2
  last : (beforeRound sdk p.toList 8).2 = (parameterText p.toList).length + 1 ∧
    (beforeRound sdk p.toList 8).2 ≤ uiBufferSize - 1
  /-- The rounds leave the text and a colon, of which the strip leaves the text. -/
  stripped : (beforeRound sdk p.toList 8).1 = filled (parameterText p.toList ++ [':']) ∧
    parameterBuffer sdk p.toList = filled (parameterText p.toList)
  /-- The text has the digits of all eight parts in order. -/
  parts : (parameterText p.toList).filter (· != ':') =
    (List.range 8).flatMap fun i => partText (part p.toList i)
  shown : ∀ s, s.paramCount > 0 →
    s.ctx.txInfo.calldata.params.toList[s.paramIndex.toNat]? = some p →
    (buildScreen sdk .parameterConfirmation s).2 =
      [.draw (.confirm ("Parameter", parameterText p.toList))]

/-- A part fits where there is room for sixteen digits and a NUL. -/
theorem partFits {sdk : Sdk} (hsdk : FormatsHex sdk) {part : List UInt8} {offset : Nat}
    (hlen : part.length = 8) (hroom : offset + 17 ≤ uiBufferSize) : PartFits sdk part offset := by
  have hsplit := @splitBinaryParameterPart_eq sdk hsdk (uiBufferSize - offset) _ hlen (by omega)
  have htext := (partText_length part hlen).2
  have hdigits : (part.drop (zerosBefore part)).length = 8 - zerosBefore part := by
    rw [List.length_drop, hlen]
  constructor
  · omega
  · intro _
    omega
  · intro _
    rw [hsdk.writes _ _ (by omega)]
    rfl
  · rw [hsplit, List.length_append, List.length_singleton]
    omega
  · rw [hsplit]
    show offset + (partText part).length ≤ _
    omega

theorem filter_partText (part : List UInt8) : (partText part).filter (· != ':') = partText part :=
  List.filter_eq_self.mpr fun _ hc => bne_iff_ne.mpr (mem_partText hc).1

/-- Without the colons, a text is the texts of its parts. -/
theorem filter_parameterText (parameter : List UInt8) :
    (parameterText parameter).filter (· != ':') =
      (List.range 8).flatMap fun i => partText (part parameter i) := by
  have hall : (roundsText parameter 8).filter (· != ':') =
      (List.range 8).flatMap fun i => partText (part parameter i) := by
    rw [roundsText, List.filter_flatMap]
    refine List.flatMap_congr fun i _ => ?_
    rw [List.filter_append, filter_partText]
    split <;> simp
  rw [roundsText_eight, List.filter_append] at hall
  simpa using hall

/-- **A parameter is rendered inside the buffer**, and whole. -/
theorem buildScreen_fitsUiBuffer {sdk : Sdk} (hsdk : FormatsHex sdk) (p : Bytes abiSlotSize) :
    FitsUiBuffer sdk p := by
  have hbuffer : uiBufferSize = 140 := rfl
  have hbefore : ∀ n ≤ 8, beforeRound sdk p.toList n =
      (filled (roundsText p.toList n), (roundsText p.toList n).length) :=
    fun n hn => foldl_writePart hsdk p.size_eq hn
  have hle := parameterText_length p.size_eq
  have height := hbefore 8 le_rfl
  rw [roundsText_eight, List.length_append, List.length_singleton] at height
  refine ⟨fun i hi => ?_, ?_, ?_, filter_parameterText _, fun s => buildScreen_parameter hsdk⟩
  · have hrounds := roundsText_length_le p.size_eq (le_of_lt hi)
    rw [hbefore i (le_of_lt hi)]
    refine partFits hsdk (part_length p.size_eq hi) ?_
    show (roundsText p.toList i).length + 17 ≤ uiBufferSize
    omega
  · rw [height]
    exact ⟨rfl, by show (parameterText p.toList).length + 1 ≤ _; omega⟩
  · rw [height]
    exact ⟨rfl, parameterBuffer_filled hsdk p.size_eq⟩

/-- A parameter without zero bytes, whose text is the longest. -/
theorem longestParameter_fitsUiBuffer :
    FitsUiBuffer (referenceSdk fun _ => .zero _) (.replicate abiSlotSize 0xff) :=
  buildScreen_fitsUiBuffer (referenceSdk_formatsHex _) _

/-! ## Telling parameters apart -/

/-- `text` is what `buildScreen` shows for the parameter `p`. -/
def ShowsParameter (sdk : Sdk) (p : Bytes abiSlotSize) (text : List Char) : Prop :=
  ∃ s, s.paramCount > 0 ∧ s.ctx.txInfo.calldata.params.toList[s.paramIndex.toNat]? = some p ∧
    (buildScreen sdk .parameterConfirmation s).2 = [.draw (.confirm ("Parameter", text))]

def LooksDifferent (sdk : Sdk) (p q : Bytes abiSlotSize) : Prop :=
  p ≠ q → ∀ text, ShowsParameter sdk p text → ¬ShowsParameter sdk q text

/-- The text of `p` has a separator between every two neighbouring parts. -/
def SeparatesParts (sdk : Sdk) (p : Bytes abiSlotSize) : Prop :=
  ∀ text, ShowsParameter sdk p text →
    text = [':'].intercalate ((List.range 8).map fun i => partText (part p.toList i))

/-- The bytes of a part that are shown: a zero byte, where it has no others. -/
def significant (part : List UInt8) : List UInt8 :=
  let rest := part.dropWhile (· == 0)
  if rest = [] then [0] else rest

/-- Two parameters whose fourth and fifth parts run together to the same bytes,
and that differ nowhere else. -/
structure Confusable (p q : Bytes abiSlotSize) : Prop where
  ne : p ≠ q
  others : ∀ i < 8, i ≠ 3 → i ≠ 4 → part p.toList i = part q.toList i
  joined : significant (part p.toList 3) ++ significant (part p.toList 4) =
    significant (part q.toList 3) ++ significant (part q.toList 4)

theorem partText_eq (part : List UInt8) : partText part = hexText (significant part) := by
  unfold partText significant
  dsimp only
  split
  · rfl
  · rfl

theorem hexText_append (xs ys : List UInt8) : hexText (xs ++ ys) = hexText xs ++ hexText ys :=
  List.flatMap_append

theorem hexText_injective {xs ys : List UInt8} (h : hexText xs = hexText ys) : xs = ys := by
  have hdigit : ∀ m < 16, ∀ n < 16, "0123456789ABCDEF".toList.getD m '0' =
      "0123456789ABCDEF".toList.getD n '0' → m = n := by decide
  induction xs generalizing ys with
  | nil =>
    have hlen := congrArg List.length h
    rw [length_hexText, length_hexText] at hlen
    exact (List.eq_nil_of_length_eq_zero (by simpa using hlen.symm)).symm
  | cons x xs ih =>
    cases ys with
    | nil => cases h
    | cons y ys =>
      have hx := x.toNat_lt
      have hy := y.toNat_lt
      simp only [hexText, List.flatMap_cons, List.cons_append, List.nil_append,
        List.cons.injEq] at h
      have hhigh := hdigit _ (by omega) _ (by omega) h.1
      have hlow := hdigit _ (by omega) _ (by omega) h.2.1
      have hxy : x = y := UInt8.toNat_inj.mp (by omega)
      rw [hxy, ih h.2.2]

/-- The bytes that are shown determine a part. -/
theorem significant_injective {a b : List UInt8} (hlen : a.length = b.length)
    (h : significant a = significant b) : a = b := by
  have hzeros : ∀ c : List UInt8,
      c = List.replicate (c.length - (c.dropWhile (· == 0)).length) 0 ++ c.dropWhile (· == 0) := by
    intro c
    have hsplit := List.takeWhile_append_dropWhile (p := (· == 0)) (l := c)
    have hfront : c.takeWhile (· == 0) = List.replicate (c.takeWhile (· == 0)).length 0 := by
      refine List.eq_replicate_iff.mpr ⟨rfl, fun x hx => ?_⟩
      have hzero : (x == 0) = true := List.mem_takeWhile_imp (p := (· == 0)) hx
      exact beq_iff_eq.mp hzero
    have hcount := congrArg List.length hsplit
    rw [List.length_append] at hcount
    conv_lhs => rw [← hsplit, hfront]
    congr 2
    omega
  -- a rest does not start with a zero, so it is not the one zero shown for no rest
  have hhead : ∀ c : List UInt8, c.dropWhile (· == 0) ≠ [0] := by
    intro c hc
    have hnot := List.head?_dropWhile_not (· == 0) c
    rw [hc] at hnot
    exact Bool.noConfusion (show true = false from hnot)
  have hrest : a.dropWhile (· == 0) = b.dropWhile (· == 0) := by
    unfold significant at h
    dsimp only at h
    split at h <;> split at h
    · rename_i ha hb
      rw [ha, hb]
    · exact absurd h.symm (hhead b)
    · exact absurd h (hhead a)
    · exact h
  rw [hzeros a, hzeros b, hlen, hrest]

theorem showsParameter_iff {sdk : Sdk} (hsdk : FormatsHex sdk) {p : Bytes abiSlotSize}
    {text : List Char} : ShowsParameter sdk p text ↔ text = parameterText p.toList := by
  constructor
  · intro h
    obtain ⟨s, hcount, hp, hshown⟩ := h
    rw [buildScreen_parameter hsdk hcount hp] at hshown
    simp only [List.cons.injEq, Effect.draw.injEq, Screen.confirm.injEq, Prod.mk.injEq, true_and,
      and_true] at hshown
    exact hshown.symm
  · intro htext
    have hone : (1 : UInt8) > 0 := by decide
    -- a call whose sixteen parameters are all `p`
    refine ⟨{ startUp .zero with
      paramCount := 1
      ctx := { GlobalCtx.zero with txInfo := { GlobalCtx.zero.txInfo with
        calldata := { AbiCalldata.zero with params := .replicate _ p } } } }, hone, rfl, ?_⟩
    rw [htext]
    exact buildScreen_parameter hsdk hone rfl

/-- The pieces the colons of a text separate. -/
theorem parameterText_eq_iff {x y : List UInt8} : parameterText x = parameterText y ↔
    (∀ i < 8, i ≠ 3 → i ≠ 4 → partText (part x i) = partText (part y i)) ∧
      partText (part x 3) ++ partText (part x 4) = partText (part y 3) ++ partText (part y 4) := by
  have hpieces : ∀ z : List UInt8, (parameterText z).splitOn ':' =
      [partText (part z 0), partText (part z 1), partText (part z 2),
        partText (part z 3) ++ partText (part z 4), partText (part z 5), partText (part z 6),
        partText (part z 7)] := by
    intro z
    have hno : ∀ i, ':' ∉ partText (part z i) := fun i hc => (mem_partText hc).1 rfl
    refine List.splitOn_intercalate ':' ?_ (List.cons_ne_nil _ _)
    intro l hl
    simp only [List.mem_cons, List.not_mem_nil, or_false] at hl
    rcases hl with rfl | rfl | rfl | rfl | rfl | rfl | rfl
    · exact hno 0
    · exact hno 1
    · exact hno 2
    · rw [List.mem_append, not_or]
      exact ⟨hno 3, hno 4⟩
    · exact hno 5
    · exact hno 6
    · exact hno 7
  constructor
  · intro h
    have hsplit := congrArg (List.splitOn ':') h
    rw [hpieces x, hpieces y] at hsplit
    simp only [List.cons.injEq, and_true] at hsplit
    obtain ⟨h0, h1, h2, h34, h5, h6, h7⟩ := hsplit
    refine ⟨?_, h34⟩
    intro i hi h3 h4
    interval_cases i
    · exact h0
    · exact h1
    · exact h2
    · exact absurd rfl h3
    · exact absurd rfl h4
    · exact h5
    · exact h6
    · exact h7
  · intro h
    obtain ⟨hother, hjoined⟩ := h
    unfold parameterText
    dsimp only
    rw [hother 0 (by decide) (by decide) (by decide), hother 1 (by decide) (by decide) (by decide),
      hother 2 (by decide) (by decide) (by decide), hother 5 (by decide) (by decide) (by decide),
      hother 6 (by decide) (by decide) (by decide), hother 7 (by decide) (by decide) (by decide),
      hjoined]

/-- **Two parameters look different** exactly where they cannot be confused;
and no text separates the fourth part from the fifth. -/
theorem looksDifferent_iff {sdk : Sdk} (hsdk : FormatsHex sdk) (p q : Bytes abiSlotSize) :
    (LooksDifferent sdk p q ↔ ¬Confusable p q) ∧ ¬SeparatesParts sdk p := by
  have hsame : parameterText p.toList = parameterText q.toList ↔
      (∀ i < 8, i ≠ 3 → i ≠ 4 → part p.toList i = part q.toList i) ∧
        significant (part p.toList 3) ++ significant (part p.toList 4) =
          significant (part q.toList 3) ++ significant (part q.toList 4) := by
    simp only [parameterText_eq_iff, partText_eq, ← hexText_append]
    constructor
    · intro h
      refine ⟨fun i hi h3 h4 => ?_, hexText_injective h.2⟩
      have hlens : (part p.toList i).length = (part q.toList i).length := by
        rw [part_length p.size_eq hi, part_length q.size_eq hi]
      exact significant_injective hlens (hexText_injective (h.1 i hi h3 h4))
    · intro h
      exact ⟨fun i hi h3 h4 => by rw [h.1 i hi h3 h4], by rw [h.2]⟩
  refine ⟨⟨?_, ?_⟩, ?_⟩
  · intro hlooks hconf
    refine hlooks hconf.ne _ ((showsParameter_iff hsdk).mpr rfl) ((showsParameter_iff hsdk).mpr ?_)
    exact hsame.mpr ⟨hconf.others, hconf.joined⟩
  · intro hno hne text hp hq
    rw [showsParameter_iff hsdk] at hp hq
    obtain ⟨hothers, hjoined⟩ := hsame.mp (hp.symm.trans hq)
    exact hno ⟨hne, hothers, hjoined⟩
  · intro hsep
    have hlen := congrArg List.length (hsep _ ((showsParameter_iff hsdk).mpr rfl))
    simp [parameterText, List.intercalate, List.range_succ] at hlen

/-- A parameter whose fourth part ends with `fourth` and whose fifth ends with `fifth`. -/
def twoParts (fourth fifth : List UInt8) : Bytes abiSlotSize :=
  (Bytes.zero _).overlay (List.replicate (32 - fourth.length) 0 ++ fourth ++
    List.replicate (8 - fifth.length) 0 ++ fifth)

/-- The reference device, and parameters that differ in their last digit shown. -/
theorem lastDigit_looksDifferent :
    ¬Confusable (twoParts [0x12] [0x34, 0x56]) (twoParts [0x12] [0x34, 0x57]) ∧
      (LooksDifferent (referenceSdk fun _ => .zero _) (twoParts [0x12] [0x34, 0x56])
          (twoParts [0x12] [0x34, 0x57]) ↔
        ¬Confusable (twoParts [0x12] [0x34, 0x56]) (twoParts [0x12] [0x34, 0x57])) ∧
      ¬SeparatesParts (referenceSdk fun _ => .zero _) (twoParts [0x12] [0x34, 0x56]) := by
  refine ⟨fun hconfusable => ?_, looksDifferent_iff (referenceSdk_formatsHex _) _ _⟩
  exact absurd hconfusable.joined (by decide)

/-- `12:3456` and `1234:56`, without the colon. -/
theorem twoParts_lookAlike : twoParts [0x12] [0x34, 0x56] ≠ twoParts [0x12, 0x34] [0x56] ∧
    ¬LooksDifferent (referenceSdk fun _ => .zero _) (twoParts [0x12] [0x34, 0x56])
      (twoParts [0x12, 0x34] [0x56]) := by
  have hsdk := referenceSdk_formatsHex fun _ => .zero _
  have hne : twoParts [0x12] [0x34, 0x56] ≠ twoParts [0x12, 0x34] [0x56] := by decide
  refine ⟨hne, fun hlooks => hlooks hne (parameterText (twoParts [0x12] [0x34, 0x56]).toList) ?_ ?_⟩
  · exact (showsParameter_iff hsdk).mpr rfl
  · rw [showsParameter_iff hsdk]
    decide

end LedgerZond.Parameters
