import VolumeControl.Serial.Hamming

/-!
# What the decoder makes of any word

`Serial/Hamming.lean` follows packets through errors of up to two bits. Here it
is all 2^16 words. The checks of a word tell it from the packet of its own data
(`xor_packetOf_extractData`), so that a word that passes them is a packet. It
follows that `hamming1611Decode` returns the payload of the packet at distance 1
or less, and 0 if there is none (`decode_nearest`): a word has one such packet
at most, since packets are at distance 4 (`distance_packetOf`).
-/

namespace VolumeControl

open Xor

/-- The checks and the overall parity. -/
def syndrome (w : BitVec 16) : BitVec 16 := checks w ||| pxCheck w <<< 4

/-- The parity bits that a packet is off by, for its syndrome. -/
def parityBits (s : BitVec 16) : BitVec 16 :=
  (s &&& 1) <<< 14 ||| (s >>> 1 &&& 1) <<< 13 ||| (s >>> 2 &&& 1) <<< 11 |||
    (s >>> 3 &&& 1) <<< 7 ||| parityOf [0, 1, 2, 3, 4] s <<< 15

theorem fits_checks : Fits 0xf checks :=
  (((fits_parityOf _).shiftLeft 0).or ((fits_parityOf _).shiftLeft 1) (by decide)).or
    ((fits_parityOf _).shiftLeft 2) (by decide) |>.or ((fits_parityOf _).shiftLeft 3) (by decide)

theorem additive_syndrome : Additive syndrome :=
  (fits_checks.or ((fits_parityOf _).shiftLeft 4) (by decide)).additive

theorem additive_parityBits : Additive parityBits :=
  ((((((additive_id.fits 1).shiftLeft 14).or
    (((additive_ushiftRight 1).fits 1).shiftLeft 13) (by decide)).or
    (((additive_ushiftRight 2).fits 1).shiftLeft 11) (by decide)).or
    (((additive_ushiftRight 3).fits 1).shiftLeft 7) (by decide)).or
    ((fits_parityOf _).shiftLeft 15) (by decide)).additive

/-- **A word is the packet of its data**, but for the parity bits its checks ask for. -/
theorem xor_packetOf_extractData (w : BitVec 16) :
    w ^^^ packetOf ((hammingExtractData w).setWidth 11) = parityBits (syndrome w) :=
  (additive_id.xor (additive_packetOf.comp (additive_setWidth.comp additive_extractData))).ext
    (additive_parityBits.comp additive_syndrome) (by decide) w

theorem packetOf_of_syndrome {w : BitVec 16} (h : syndrome w = 0) :
    packetOf ((hammingExtractData w).setWidth 11) = w := by
  have hw := xor_packetOf_extractData w
  rw [h, additive_parityBits.zero] at hw
  exact (BitVec.xor_eq_zero_iff.1 hw).symm

theorem errorPos_eq (w : BitVec 16) : hammingErrorPos w = checks w ^^^ 0xf := by
  rw [hammingErrorPos, ← fits_checks.within w]
  ext i
  simp only [BitVec.getElem_and, BitVec.getElem_not, BitVec.getElem_xor]
  cases (checks w)[i] <;> cases (0xf : BitVec 16)[i] <;> rfl

/-- Words that the decoder tells apart by nothing but their data. -/
theorem syndrome_xor_eq_zero {w v : BitVec 16} (hpos : hammingErrorPos w = hammingErrorPos v)
    (hpx : pxCheck w = pxCheck v) : syndrome (w ^^^ v) = 0 := by
  rw [errorPos_eq, errorPos_eq, BitVec.xor_left_inj] at hpos
  have h : syndrome w = syndrome v := by rw [syndrome, hpos, hpx, syndrome]
  rw [additive_syndrome, h]
  exact BitVec.xor_self

theorem syndrome_eq_zero {w : BitVec 16} (hpos : hammingErrorPos w = 0xf) (hpx : pxCheck w = 0) :
    syndrome w = 0 := by
  have h := syndrome_xor_eq_zero (v := 0#16) (hpos.trans (by decide)) (hpx.trans (by decide))
  rwa [BitVec.xor_zero] at h

theorem pxCheck_eq (w : BitVec 16) : pxCheck w = BitVec.ofNat 16 ((ones w).length % 2) := by
  have hone : ∀ i ∈ ones w, pxCheck (BitVec.twoPow 16 i) = 1 := fun i hi =>
    (checks_one i (lt_of_mem_ones hi)).2
  have hsum : pxCheck w = sum ((ones w).map fun i => pxCheck (BitVec.twoPow 16 i)) :=
    (fits_parityOf (List.range 16)).additive.eq_sum w
  rw [List.map_congr_left hone, List.map_const', sum_replicate_one] at hsum
  exact hsum

theorem pxCheck_cases (w : BitVec 16) : pxCheck w = 0 ∨ pxCheck w = 1 := by
  rw [pxCheck_eq]
  rcases Nat.mod_two_eq_zero_or_one (ones w).length with h | h
  · exact .inl (by rw [h]; rfl)
  · exact .inr (by rw [h]; rfl)

/-! ## The packets -/

theorem packetOf_passes (d : BitVec 11) :
    hammingErrorPos (packetOf d) = 0xf ∧ pxCheck (packetOf d) = 0 := by
  rw [hammingErrorPos, checks_packetOf, pxCheck_packetOf]
  exact ⟨rfl, rfl⟩

/-- The packet at distance 1 or less, when there is one. -/
theorem exists_near {w : BitVec 16} (h : hammingErrorPos w = 0xf ∨ pxCheck w = 1) :
    ∃ d, distance (packetOf d) w ≤ 1 := by
  rcases pxCheck_cases w with hpx | hpx
  · have hpos : hammingErrorPos w = 0xf := h.resolve_right (by rw [hpx]; decide)
    have hzero := distance_eq_zero.2 (packetOf_of_syndrome (syndrome_eq_zero hpos hpx))
    exact ⟨_, Nat.le_trans (Nat.le_of_eq hzero) (Nat.zero_le 1)⟩
  · -- the checks are those of a flip at the position they name
    have hlt : (hammingErrorPos w).toNat < 16 := by
      rw [hammingErrorPos, BitVec.toNat_and]
      exact Nat.lt_of_le_of_lt Nat.and_le_right (by decide)
    obtain ⟨hpos, hone⟩ := checks_one _ hlt
    rw [BitVec.ofNat_toNat, BitVec.setWidth_eq] at hpos
    have hs := syndrome_xor_eq_zero hpos.symm (hpx.trans hone.symm)
    have hone := distance_twoPow w hlt
    rw [← packetOf_of_syndrome hs, distance_comm] at hone
    exact ⟨_, Nat.le_of_eq hone⟩

theorem near_of_distance {w : BitVec 16} {d : BitVec 11} (h : distance (packetOf d) w ≤ 1) :
    (hammingErrorPos w = 0xf ∨ pxCheck w = 1) ∧ (hamming1611Decode w).1 = d.setWidth 16 := by
  have hw : packetOf d ^^^ (packetOf d ^^^ w) = w := by
    rw [← BitVec.xor_assoc, BitVec.xor_self, BitVec.zero_xor]
  have hdecode := decode_packetOf_xor d (packetOf d ^^^ w) (Nat.le_succ_of_le h)
  rw [hw] at hdecode
  refine ⟨?_, hdecode.trans (if_pos h)⟩
  rcases eq_of_length_ones (Nat.le_succ_of_le h) with ⟨-, he⟩ | ⟨-, i, hi, he⟩ | ⟨hlen, -⟩
  · left
    rw [← hw, errorPos_packetOf_xor, he]
    decide
  · right
    rw [← hw, pxCheck_packetOf_xor, he]
    exact (checks_one i hi).2
  · exact absurd h (by rw [distance, hlen]; decide)

theorem setWidth_inj {d d' : BitVec 11} (h : d.setWidth 16 = d'.setWidth 16) : d = d' := by
  have h' := congrArg (·.setWidth 11) h
  simpa using h'

theorem decode_prints (w : BitVec 16) :
    (hamming1611Decode w).2 = [] ↔ hammingErrorPos w = 0xf ∧ pxCheck w = 0 := by
  have hne : (0 : BitVec 16) ≠ 1 := by decide
  unfold hamming1611Decode
  rcases pxCheck_cases w with hpx | hpx <;> by_cases hpos : hammingErrorPos w = 0xf <;>
    simp only [hpos, hpx, hne, hne.symm, ne_eq, not_true_eq_false, not_false_eq_true, if_true,
      if_false, reduceCtorEq, and_self, and_false, false_and]

/-- **The decoder finds the nearest packet.** A word within one bit of a packet decodes to the
payload of that packet, of which there is one; any other word decodes to 0. Nothing is printed
exactly about packets. -/
theorem decode_nearest (w : BitVec 16) :
    ((∃ d, distance (packetOf d) w ≤ 1 ∧ (hamming1611Decode w).1 = d.setWidth 16 ∧
        ∀ d', distance (packetOf d') w ≤ 1 → d' = d) ∨
      (∀ d, 1 < distance (packetOf d) w) ∧ (hamming1611Decode w).1 = 0) ∧
    ((hamming1611Decode w).2 = [] ↔ ∃ d, packetOf d = w) := by
  refine ⟨?_, ?_, ?_⟩
  · by_cases hnear : hammingErrorPos w = 0xf ∨ pxCheck w = 1
    · obtain ⟨d, hd⟩ := exists_near hnear
      have hdecode := (near_of_distance hd).2
      refine .inl ⟨d, hd, hdecode, fun d' hd' => ?_⟩
      exact setWidth_inj ((near_of_distance hd').2.symm.trans hdecode)
    · obtain ⟨hpos, hpx⟩ := not_or.1 hnear
      refine .inr ⟨fun d => ?_, ?_⟩
      · by_contra hle
        exact hnear (near_of_distance (Nat.le_of_not_lt hle)).1
      · rw [decode_value, if_neg hpos, if_neg hpx]
  · intro hprint
    obtain ⟨hpos, hpx⟩ := (decode_prints w).1 hprint
    exact ⟨_, packetOf_of_syndrome (syndrome_eq_zero hpos hpx)⟩
  · rintro ⟨d, rfl⟩
    exact (decode_prints _).2 (packetOf_passes d)

/-- **Packets are at distance 4**, and no further. -/
theorem distance_packetOf :
    (∀ d d' : BitVec 11, d = d' ∨ 4 ≤ distance (packetOf d) (packetOf d')) ∧
      ∃ d d' : BitVec 11, distance (packetOf d) (packetOf d') = 4 := by
  refine ⟨fun d d' => ?_, 0, 0x400, by decide⟩
  by_contra h
  obtain ⟨hne, hlt⟩ := not_or.1 h
  obtain ⟨hpos, hpx⟩ := packetOf_passes (d ^^^ d')
  rw [additive_packetOf.distance] at hlt
  -- an odd distance fails the overall parity, 2 the checks
  have heven : (ones (packetOf (d ^^^ d'))).length % 2 = 0 := by
    rw [pxCheck_eq] at hpx
    rcases Nat.mod_two_eq_zero_or_one (ones (packetOf (d ^^^ d'))).length with h | h
    · exact h
    · rw [h] at hpx
      exact absurd hpx (by decide)
  rcases eq_of_length_ones (x := packetOf (d ^^^ d')) (by omega) with ⟨-, he⟩ | ⟨hlen, -⟩ |
    ⟨-, i, hi, j, hj, hij, he⟩
  · have hdecode := decode_packetOf d
    rw [BitVec.xor_eq_zero_iff.1 ((additive_packetOf d d').symm.trans he),
      decode_packetOf d'] at hdecode
    exact hne (setWidth_inj hdecode).symm
  · omega
  · exact (checks_two i hi j hj hij).1 (he ▸ hpos)

end VolumeControl
