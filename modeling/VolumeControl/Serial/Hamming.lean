import VolumeControl.Lib.Xor

/-!
# The Hamming code of the serial link

`hamming1611Encode` packs 11 bits of data with four parity bits and an overall
one into 16 bits; `hamming1611Decode` corrects one flipped bit and detects two.
Both are written with macros over shifts of the data, here `parityOf`.

Encoder and checks are additive, so they are known from single bits:
`errorPos_encode_xor` and `pxCheck_encode_xor` say that the checks of a packet
see its errors only, `extractData_encode` that the data comes back.
-/

namespace VolumeControl

open Xor

/-- `(data >> s_1 ^ data >> s_2 ^ ...) & 1`. -/
def parityOf (shifts : List Nat) (data : BitVec 16) : BitVec 16 :=
  Xor.sum (shifts.map (data >>> ·)) &&& 1

/-! ## The encoder -/

def p1 : BitVec 16 → BitVec 16 := parityOf [9, 6, 2, 10, 7, 4, 0]
def p2 : BitVec 16 → BitVec 16 := parityOf [10, 8, 7, 5, 4, 1, 0]
def p3 : BitVec 16 → BitVec 16 := parityOf [9, 8, 7, 3, 2, 1, 0]
def p4 : BitVec 16 → BitVec 16 := parityOf [6, 5, 4, 3, 2, 1, 0]

def px (data : BitVec 16) : BitVec 16 :=
  (Xor.sum ((List.range 11).map (data >>> ·)) ^^^ p1 data ^^^ p2 data ^^^ p3 data ^^^ p4 data) &&& 1

def hamming1611Encode (data : BitVec 16) : BitVec 16 :=
  px data <<< 15 ||| p1 data <<< 14 ||| p2 data <<< 13 ||| p3 data <<< 11 ||| p4 data <<< 7 |||
    (data &&& 0b0000000001111111) ||| (data <<< 1 &&& 0b0000011100000000) |||
    (data <<< 2 &&& 0b0001000000000000)

/-! ## The decoder -/

def p1Check : BitVec 16 → BitVec 16 := parityOf [14, 10, 6, 2, 12, 8, 4, 0]
def p2Check : BitVec 16 → BitVec 16 := parityOf [13, 9, 5, 1, 12, 8, 4, 0]
def p3Check : BitVec 16 → BitVec 16 := parityOf [11, 10, 9, 8, 3, 2, 1, 0]
def p4Check : BitVec 16 → BitVec 16 := parityOf [7, 6, 5, 4, 3, 2, 1, 0]
def pxCheck : BitVec 16 → BitVec 16 := parityOf (List.range 16)

/-- The four checks in one word. -/
def checks (data : BitVec 16) : BitVec 16 :=
  p1Check data <<< 0 ||| p2Check data <<< 1 ||| p3Check data <<< 2 ||| p4Check data <<< 3

def hammingErrorPos (data : BitVec 16) : BitVec 16 := ~~~checks data &&& 0xf

def hammingExtractData (data : BitVec 16) : BitVec 16 :=
  (data &&& 0b0000000001111111) ||| (data >>> 1 &&& 0b0000001110000000) |||
    (data >>> 2 &&& 0b0000010000000000)

/-- A line of diagnostics. -/
structure Printf where
  format : String
  args : List (BitVec 16)
  deriving DecidableEq, Repr

/-- The data of a packet, and what is printed about it. -/
def hamming1611Decode (packet : BitVec 16) : BitVec 16 × List Printf :=
  let errpos := hammingErrorPos packet
  let pxParity := pxCheck packet
  if errpos ≠ 0xf then
    if pxParity = 1 then
      let corrected := packet ^^^ 1#16 <<< errpos.toNat
      (hammingExtractData corrected,
        [⟨"HAMMING_DECODE: Recoverable error found at pos %i, in 0x%04x\r\n", [errpos, packet]⟩,
          ⟨"HAMMING_DECODE: Corrected packet: 0x%04x\r\n", [corrected]⟩])
    else
      (0, [⟨"HAMMING_DECODE: Hamming error indicated but even extended parity", []⟩,
        ⟨" aborting, 0x%04x\r\n", [packet]⟩])
  else if pxParity = 1 then
    (hammingExtractData packet,
      [⟨"HAMMING_DECODE: no error detected but overall parity failed, assuming flipped overal parity 0x%04x\r\n",
        [packet]⟩])
  else (hammingExtractData packet, [])

theorem decode_value (packet : BitVec 16) : (hamming1611Decode packet).1 =
    if hammingErrorPos packet = 0xf then hammingExtractData packet
    else if pxCheck packet = 1 then
      hammingExtractData (packet ^^^ 1#16 <<< (hammingErrorPos packet).toNat)
    else 0 := by
  unfold hamming1611Decode
  by_cases hpos : hammingErrorPos packet = 0xf <;> by_cases hpx : pxCheck packet = 1 <;>
    simp only [hpos, hpx, ne_eq, not_true_eq_false, not_false_eq_true, if_true, if_false]

/-! ## Everything is additive -/

theorem additive_sum_shifts (shifts : List Nat) :
    Additive fun data : BitVec 16 => Xor.sum (shifts.map (data >>> ·)) := by
  induction shifts with
  | nil => exact additive_zero
  | cons s shifts ih => exact (additive_ushiftRight s).xor ih

theorem fits_parityOf (shifts : List Nat) : Fits 1 (parityOf shifts) :=
  (additive_sum_shifts shifts).fits 1

theorem fits_px : Fits 1 px :=
  ((((((additive_sum_shifts _).xor (fits_parityOf _).additive).xor (fits_parityOf _).additive).xor
    (fits_parityOf _).additive).xor (fits_parityOf _).additive)).fits 1

theorem additive_encode : Additive hamming1611Encode :=
  (((((((((fits_px.shiftLeft 15).or ((fits_parityOf _).shiftLeft 14) (by decide)).or
    ((fits_parityOf _).shiftLeft 13) (by decide)).or
    ((fits_parityOf _).shiftLeft 11) (by decide)).or
    ((fits_parityOf _).shiftLeft 7) (by decide)).or
    (additive_id.fits 0b0000000001111111) (by decide)).or
    ((additive_shiftLeft 1).fits 0b0000011100000000) (by decide)).or
    ((additive_shiftLeft 2).fits 0b0001000000000000) (by decide))).additive

theorem additive_checks : Additive checks :=
  (((((fits_parityOf _).shiftLeft 0).or ((fits_parityOf _).shiftLeft 1) (by decide)).or
    ((fits_parityOf _).shiftLeft 2) (by decide)).or
    ((fits_parityOf _).shiftLeft 3) (by decide)).additive

theorem additive_extractData : Additive hammingExtractData :=
  (((additive_id.fits 0b0000000001111111).or
    ((additive_ushiftRight 1).fits 0b0000001110000000) (by decide)).or
    ((additive_ushiftRight 2).fits 0b0000010000000000) (by decide)).additive

/-! ## Packets of the encoder -/

/-- The packet of a payload of 11 bits. -/
def packetOf (data : BitVec 11) : BitVec 16 := hamming1611Encode (data.setWidth 16)

theorem additive_packetOf : Additive packetOf := additive_encode.comp additive_setWidth

/-- A packet passes the four checks. -/
theorem checks_packetOf (data : BitVec 11) : checks (packetOf data) = 0#16 :=
  (additive_checks.comp additive_packetOf).ext additive_zero (by decide) data

theorem pxCheck_packetOf (data : BitVec 11) : pxCheck (packetOf data) = 0#16 :=
  ((fits_parityOf _).additive.comp additive_packetOf).ext additive_zero (by decide) data

theorem extractData_packetOf (data : BitVec 11) :
    hammingExtractData (packetOf data) = data.setWidth 16 :=
  (additive_extractData.comp additive_packetOf).ext additive_setWidth (by decide) data

/-! ## Packets with errors -/

section
variable (data : BitVec 11) (error : BitVec 16)

/-- The checks of a packet see its errors only. -/
theorem errorPos_packetOf_xor : hammingErrorPos (packetOf data ^^^ error) = hammingErrorPos error := by
  rw [hammingErrorPos, additive_checks, checks_packetOf, BitVec.zero_xor]
  rfl

theorem pxCheck_packetOf_xor : pxCheck (packetOf data ^^^ error) = pxCheck error := by
  rw [pxCheck, (fits_parityOf _).additive, ← pxCheck, pxCheck_packetOf, BitVec.zero_xor]

/-- The error at position `i` is found there, or at no position if it is the overall parity. -/
theorem checks_one : ∀ i < 16, hammingErrorPos (BitVec.twoPow 16 i) = BitVec.ofNat 16 i ∧
    pxCheck (BitVec.twoPow 16 i) = 1 := by decide

theorem checks_two : ∀ i < 16, ∀ j < 16, i ≠ j →
    hammingErrorPos (BitVec.twoPow 16 i ^^^ BitVec.twoPow 16 j) ≠ 0xf ∧
      pxCheck (BitVec.twoPow 16 i ^^^ BitVec.twoPow 16 j) = 0 := by
  decide +kernel

theorem decode_packetOf : (hamming1611Decode (packetOf data)).1 = data.setWidth 16 := by
  have hpos : hammingErrorPos (packetOf data) = 0xf := by
    rw [hammingErrorPos, checks_packetOf]
    rfl
  rw [decode_value, if_pos hpos, extractData_packetOf]

/-- One flipped bit is corrected, wherever it is. -/
theorem decode_packetOf_xor_one {i : Nat} (hi : i < 16) :
    (hamming1611Decode (packetOf data ^^^ BitVec.twoPow 16 i)).1 = data.setWidth 16 := by
  obtain ⟨hpos, hpx⟩ := checks_one i hi
  rw [decode_value, errorPos_packetOf_xor, pxCheck_packetOf_xor, hpos]
  by_cases hlast : i = 15
  · -- the overall parity bit carries no data
    subst hlast
    have hextract : hammingExtractData (BitVec.twoPow 16 15) = 0#16 := by decide
    rw [if_pos (by rfl), additive_extractData, extractData_packetOf, hextract, BitVec.xor_zero]
  · have hne : BitVec.ofNat 16 i ≠ 0xf := by
      intro h
      have := congrArg BitVec.toNat h
      simp at this
      omega
    have hflip : 1#16 <<< (BitVec.ofNat 16 i).toNat = BitVec.twoPow 16 i := by
      rw [BitVec.twoPow_eq, BitVec.toNat_ofNat, Nat.mod_eq_of_lt (by omega)]
    rw [if_neg hne, if_pos hpx, hflip, BitVec.xor_assoc, BitVec.xor_self, BitVec.xor_zero,
      extractData_packetOf]

/-- Two flipped bits are noticed. -/
theorem decode_packetOf_xor_two {i j : Nat} (hi : i < 16) (hj : j < 16) (hij : i ≠ j) :
    (hamming1611Decode (packetOf data ^^^ (BitVec.twoPow 16 i ^^^ BitVec.twoPow 16 j))).1 = 0 := by
  obtain ⟨hpos, hpx⟩ := checks_two i hi j hj hij
  have hne : (0 : BitVec 16) ≠ 1 := by decide
  rw [decode_value, errorPos_packetOf_xor, pxCheck_packetOf_xor, if_neg hpos, hpx, if_neg hne]

/-- **The code corrects one flipped bit and notices two.** -/
theorem decode_packetOf_xor (h : (ones error).length ≤ 2) :
    (hamming1611Decode (packetOf data ^^^ error)).1 =
      if (ones error).length ≤ 1 then data.setWidth 16 else 0 := by
  rcases eq_of_length_ones h with ⟨hlen, rfl⟩ | ⟨hlen, i, hi, rfl⟩ | ⟨hlen, i, hi, j, hj, hij, rfl⟩
  · rw [if_pos (by omega)]
    simpa using decode_packetOf data
  · rw [if_pos (by omega), decode_packetOf_xor_one data hi]
  · rw [if_neg (by omega), decode_packetOf_xor_two data hi hj hij]

end

end VolumeControl
