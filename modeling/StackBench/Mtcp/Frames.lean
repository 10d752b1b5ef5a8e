import Mathlib.Data.Nat.ModEq

/-!
# Received frames of mTCP

`TCPCalcChecksum` folds a sum of 32 bits twice, which is enough for every segment.
`ProcessIPv4Packet` and `ProcessTCPPacket` compare the IP length with the header lengths, but not
with the length of the frame, and accept headers of less than five words.
-/

namespace StackBench.Mtcp.Frame

open List

/-- The words of a segment in the order of the machine; an odd byte is padded. -/
def words : List UInt8 → List UInt16
  | a :: b :: bs => (a.toUInt16 + b.toUInt16 * 256) :: words bs
  | [a] => [a.toUInt16]
  | [] => []

def htons (x : UInt16) : UInt16 := (x <<< 8) ||| (x >>> 8)

/-- The words of the pseudo header. -/
def pseudo (len : ℕ) (saddr daddr : UInt32) : List UInt16 :=
  [saddr.toUInt16, (saddr >>> 16).toUInt16, daddr.toUInt16, (daddr >>> 16).toUInt16,
    htons (UInt16.ofNat len), htons 6]

/-- The end of `TCPCalcChecksum`. -/
def folded (sum : UInt32) : UInt16 :=
  let sum := (sum >>> 16) + (sum &&& 0xFFFF)
  let sum := sum + (sum >>> 16)
  (~~~sum).toUInt16

def tcpCalcChecksum (buf : List UInt8) (saddr daddr : UInt32) : UInt16 :=
  folded ((words buf ++ pseudo buf.length saddr daddr).foldl (fun sum w => sum + w.toUInt32) 0)

variable {buf buf' : List UInt8} (saddr daddr : UInt32)

/-- The sum of all words. -/
def total (buf : List UInt8) (saddr daddr : UInt32) : ℕ :=
  ((words buf ++ pseudo buf.length saddr daddr).map (·.toNat)).sum

theorem foldl_toNat (ws : List UInt16) (sum : UInt32)
    (hsum : sum.toNat + 65535 * ws.length < 2 ^ 32) :
    (ws.foldl (fun sum w => sum + w.toUInt32) sum).toNat =
      sum.toNat + (ws.map (·.toNat)).sum := by
  induction ws generalizing sum with
  | nil => simp
  | cons w ws ih =>
    have hw := w.toNat_lt
    rw [length_cons] at hsum
    have hadd : (sum + w.toUInt32).toNat = sum.toNat + w.toNat := by
      rw [UInt32.toNat_add, UInt16.toNat_toUInt32, Nat.mod_eq_of_lt (by omega)]
    rw [foldl_cons, ih _ (by omega), hadd, map_cons, sum_cons, Nat.add_assoc]

theorem length_words : ∀ buf, (words buf).length ≤ buf.length / 2 + 1
  | [] => by simp [words]
  | [_] => by simp [words]
  | a :: b :: bs => by
    have := length_words bs
    simp only [words, length_cons]
    omega

theorem folded_toNat (sum : UInt32) : (folded sum).toNat =
    65535 - (sum.toNat / 65536 + sum.toNat % 65536 +
      (sum.toNat / 65536 + sum.toNat % 65536) / 65536) % 65536 := by
  have hlt := sum.toNat_lt
  have hand : (sum &&& 0xFFFF).toNat = sum.toNat % 65536 := Nat.and_two_pow_sub_one_eq_mod _ 16
  have hshift (x : UInt32) : (x >>> 16).toNat = x.toNat / 65536 := Nat.shiftRight_eq_div_pow ..
  have hadd : (sum >>> 16 + (sum &&& 0xFFFF)).toNat = sum.toNat / 65536 + sum.toNat % 65536 := by
    rw [UInt32.toNat_add, hshift, hand, Nat.mod_eq_of_lt (by omega)]
  rw [folded, UInt32.toNat_toUInt16, UInt32.toNat_not, UInt32.toNat_add, hshift, hadd, UInt32.size]
  omega

/-- The checksum completes the sum to a multiple of 65535. -/
theorem checksum_spec (hlen : buf.length < 65536) :
    65535 ∣ total buf saddr daddr + (tcpCalcChecksum buf saddr daddr).toNat ∧
      (tcpCalcChecksum buf saddr daddr).toNat < 65535 := by
  have hwords := length_words buf
  have hsum : _ = total buf saddr daddr :=
    (foldl_toNat (words buf ++ pseudo buf.length saddr daddr) 0 (by
      rw [length_append]
      simp only [pseudo, length_cons, length_nil, UInt32.toNat_zero]
      omega)).trans (Nat.zero_add _)
  have hpos : 0 < total buf saddr daddr := by
    have : 0 < (htons 6).toNat := by decide
    simp only [total, pseudo, map_append, sum_append, map_cons, sum_cons]
    omega
  rw [tcpCalcChecksum, folded_toNat, hsum]
  have hlt := hsum ▸ UInt32.toNat_lt _
  generalize total buf saddr daddr = S at hpos hlt
  have hcarry : (S / 65536 + S % 65536) / 65536 ≤ 1 := by omega
  have hsum : S + (65535 - (S / 65536 + S % 65536 + (S / 65536 + S % 65536) / 65536) % 65536) =
      65535 * (S / 65536 + 1 + (S / 65536 + S % 65536) / 65536) := by omega
  exact ⟨⟨_, hsum⟩, by omega⟩

theorem checksum_eq_zero (hlen : buf.length < 65536) :
    tcpCalcChecksum buf saddr daddr = 0 ↔ 65535 ∣ total buf saddr daddr := by
  obtain ⟨hdvd, hlt⟩ := checksum_spec saddr daddr hlen
  rw [← UInt16.toNat_inj, UInt16.toNat_zero]
  omega

theorem words_append : ∀ hd tl : List UInt8, hd.length % 2 = 0 →
    words (hd ++ tl) = words hd ++ words tl
  | [], _, _ => rfl
  | [_], _, h => absurd h (by simp)
  | a :: b :: bs, tl, h => by
    rw [cons_append, cons_append, words, words, cons_append, words_append bs tl (by grind)]

/-- The store of the field `check`. -/
def setCheck (buf : List UInt8) (check : UInt16) : List UInt8 :=
  (buf.set 16 check.toUInt8).set 17 (check >>> 8).toUInt8

theorem words_setCheck (hmin : 20 ≤ buf.length) :
    ∃ ws vs, ∀ c, words (setCheck buf c) = ws ++ c :: vs := by
  obtain ⟨hd, a, b, tl, rfl, hhd⟩ : ∃ hd a b tl, buf = hd ++ a :: b :: tl ∧ hd.length = 16 := by
    refine ⟨buf.take 16, buf.get ⟨16, by omega⟩, buf.get ⟨17, by omega⟩, buf.drop 18, by simp, ?_⟩
    simp only [length_take]
    omega
  refine ⟨words hd, words tl, fun c => ?_⟩
  have hset : setCheck (hd ++ a :: b :: tl) c = hd ++ c.toUInt8 :: (c >>> 8).toUInt8 :: tl := by
    simp [setCheck, hhd]
  have hword : c.toUInt8.toUInt16 + (c >>> 8).toUInt8.toUInt16 * 256 = c := by
    have hlt := c.toNat_lt
    rw [← UInt16.toNat_inj]
    simp [Nat.shiftRight_eq_div_pow]
    omega
  rw [hset, words_append _ _ (by rw [hhd]), words, hword]

theorem total_add (hlen : buf'.length = buf.length) {ws vs : List UInt16} {w w' : UInt16}
    (hws : words buf = ws ++ w :: vs) (hws' : words buf' = ws ++ w' :: vs) :
    total buf' saddr daddr + w.toNat = total buf saddr daddr + w'.toNat := by
  simp only [total, hws, hws', hlen, map_append, sum_append, map_cons, sum_cons]
  omega

/-- The checksum of a segment that carries its checksum is zero, and not zero behind a change of one
word that is none modulo 65535. -/
theorem checksum_round_trip (buf : List UInt8) (saddr daddr : UInt32) (hmin : 20 ≤ buf.length)
    (hlen : buf.length < 65536) :
    tcpCalcChecksum (setCheck buf (tcpCalcChecksum (setCheck buf 0) saddr daddr)) saddr daddr = 0 ∧
    ∀ (buf' : List UInt8) (ws vs : List UInt16) (w w' : UInt16), buf'.length = buf.length →
      words buf = ws ++ w :: vs → words buf' = ws ++ w' :: vs → ¬w.toNat ≡ w'.toNat [MOD 65535] →
      tcpCalcChecksum buf saddr daddr = 0 → tcpCalcChecksum buf' saddr daddr ≠ 0 := by
  have hset (c : UInt16) : (setCheck buf c).length = buf.length := by simp [setCheck]
  constructor
  · obtain ⟨ws, vs, hwords⟩ := words_setCheck hmin
    have hdvd := (checksum_spec saddr daddr ((hset 0).trans_lt hlen)).1
    rw [checksum_eq_zero saddr daddr ((hset _).trans_lt hlen)]
    rwa [← total_add saddr daddr ((hset _).trans (hset 0).symm) (hwords 0) (hwords _)] at hdvd
  · intro buf' ws vs w w' hlen' hws hws' hne hzero hzero'
    have hadd := total_add saddr daddr hlen' hws hws'
    rw [checksum_eq_zero saddr daddr (by omega)] at hzero hzero'
    rw [Nat.ModEq] at hne
    omega

/-- A segment of twenty zero bytes that gets its checksum. -/
theorem checksum_round_trip_zeros :
    tcpCalcChecksum (setCheck (replicate 20 0) (tcpCalcChecksum (setCheck (replicate 20 0) 0) 1 2))
      1 2 = 0 :=
  (checksum_round_trip (replicate 20 0) 1 2 (by decide) (by decide)).1

/-- What `ProcessTCPPacket` goes on with: the offsets in the frame, and `payloadlen`. -/
structure Segment where
  tcph : ℕ
  payload : ℕ
  payloadlen : ℤ
deriving DecidableEq

variable (mem : ℕ → UInt8)

/-- The header lengths in bytes: the low half of the first byte, and the high half. -/
def ihl (iph : ℕ) : ℕ := (mem iph).toNat % 16 * 4

def doff (tcph : ℕ) : ℕ := (mem (tcph + 12)).toNat / 16 * 4

def totLen (iph : ℕ) : ℕ := (mem (iph + 2)).toNat * 256 + (mem (iph + 3)).toNat

/-- A word of four bytes in the order of the machine. -/
def load32 (p : ℕ) : UInt32 :=
  (mem p).toUInt32 + ((mem (p + 1)).toUInt32 <<< 8) + ((mem (p + 2)).toUInt32 <<< 16) +
    ((mem (p + 3)).toUInt32 <<< 24)

/-- `ProcessTCPPacket` up to the search for the stream. With `hw` the device has checked. -/
def processTCPPacket (hw : Bool) (iph ipLen : ℕ) : Option Segment :=
  let tcph := iph + ihl mem iph
  let payload := tcph + doff mem tcph
  let payloadlen : ℤ := ipLen - (payload - iph)
  if ipLen < ihl mem iph + doff mem tcph then none
  else if !hw && tcpCalcChecksum
      ((range (doff mem tcph + payloadlen).toNat).map fun i => mem (tcph + i))
      (load32 mem (iph + 12)) (load32 mem (iph + 16)) != 0 then none
  else some ⟨tcph, payload, payloadlen⟩

/-- `ProcessIPv4Packet` for the frame at `mem`, if it is a TCP segment; `csum` is the result of the
device or of `ip_fast_csum`. The length of the frame is not looked at. -/
def processIPv4Packet (csum hw : Bool) : Option Segment :=
  let iph := 14
  let ipLen := totLen mem iph
  if ipLen < 20 then none
  else if !csum then none
  else if (mem iph).toNat / 16 ≠ 4 then none
  else if mem (iph + 9) = 6 then processTCPPacket mem hw iph ipLen
  else none

/-- The headers have at least twenty bytes, and all parts lie in the `len` bytes of the frame. -/
structure Segment.Inside (mem : ℕ → UInt8) (len : ℕ) (s : Segment) : Prop where
  ipHeader : 20 ≤ ihl mem 14 ∧ s.tcph = 14 + ihl mem 14
  tcpHeader : 20 ≤ doff mem s.tcph ∧ s.payload = s.tcph + doff mem s.tcph ∧ s.payload ≤ len
  payload : 0 ≤ s.payloadlen ∧ s.payload + s.payloadlen ≤ len

/-- The payload length is never negative. All parts are in the frame exactly if the headers are
whole and the IP length is in the frame. -/
theorem frame_parsed_inside (mem : ℕ → UInt8) (len : ℕ) (csum hw : Bool) (s : Segment)
    (hs : processIPv4Packet mem csum hw = some s) :
    0 ≤ s.payloadlen ∧ (s.Inside mem len ↔
      14 + totLen mem 14 ≤ len ∧ 20 ≤ ihl mem 14 ∧ 20 ≤ doff mem s.tcph) := by
  simp only [processIPv4Packet, processTCPPacket, Option.ite_none_left_eq_some,
    Option.ite_none_right_eq_some, Option.some.injEq] at hs
  obtain ⟨-, -, -, -, hle, -, rfl⟩ := hs
  refine ⟨by dsimp only; omega, fun h => ?_, ?_⟩
  · have hend := h.payload.2
    refine ⟨?_, h.ipHeader.1, h.tcpHeader.1⟩
    dsimp only at hend
    omega
  · rintro ⟨hlen, hihl, hdoff⟩
    refine ⟨⟨hihl, rfl⟩, ⟨hdoff, rfl, ?_⟩, ?_, ?_⟩ <;> dsimp only at * <;> omega

/-- A frame of 54 bytes with a version and a header length, a total length and a data offset. -/
def testFrame (first tot doff : UInt8) (i : ℕ) : UInt8 :=
  (replicate 14 0 ++ [first, 0, 0, tot, 0, 0, 0, 0, 0, 6] ++ replicate 22 0 ++ [doff]).getD i 0

theorem frame_parsed_inside_forty :
    processIPv4Packet (testFrame 0x45 40 0x50) true true = some ⟨34, 54, 0⟩ ∧
      Segment.Inside (testFrame 0x45 40 0x50) 54 ⟨34, 54, 0⟩ :=
  ⟨by decide, (frame_parsed_inside (testFrame 0x45 40 0x50) 54 true true ⟨34, 54, 0⟩
    (by decide)).2.mpr (by decide)⟩

/-- A frame of 54 bytes with the IP length 41 has a byte of payload behind its end. And one with a
header length of zero is read as if its TCP header were the IP header. -/
theorem frame_parsed_outside :
    processIPv4Packet (testFrame 0x45 41 0x50) true true = some ⟨34, 54, 1⟩ ∧
      processIPv4Packet (testFrame 0x40 20 0) true true = some ⟨14, 14, 20⟩ := by
  decide

end StackBench.Mtcp.Frame
