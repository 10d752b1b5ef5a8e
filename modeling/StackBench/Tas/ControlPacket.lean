import StackBench.Tas.Parse
import StackBench.Tas.SlowTcp

/-!
# Control packets of the slow path

`send_control_raw` builds a packet in a buffer that still holds an older one.
Both parsers find exactly the options that were asked for.
-/

namespace StackBench.Tas

/-- Store bytes from the offset `off` on. -/
def writeBytes (mem : ℕ → UInt8) (off : ℕ) (bytes : List UInt8) : ℕ → UInt8 := fun i =>
  if off ≤ i ∧ i < off + bytes.length then bytes.getD (i - off) 0 else mem i

def toBe16 (x : UInt16) : List UInt8 := [(x >>> 8).toUInt8, x.toUInt8]

def toBe32 (x : UInt32) : List UInt8 := toBe16 (x >>> 16).toUInt16 ++ toBe16 x.toUInt16

/-- The six bytes of a MAC address. -/
def macBytes (mac : UInt64) : List UInt8 :=
  (List.range 6).map fun i => (mac >>> (8 * i.toUInt64)).toUInt8

/-- What the function takes from elsewhere: the addresses of the host, and the checksums
of DPDK. -/
structure CtrlHost where
  ethAddr : UInt64
  ip : UInt32
  ipCksum : (ℕ → UInt8) → UInt16
  tcpCksum : (ℕ → UInt8) → UInt16

/-- Which options `send_control_raw` writes. -/
structure CtrlOpts where
  mss : Bool
  ts : Bool
  ws : Bool

namespace CtrlOpts

def offTs (o : CtrlOpts) : ℕ := if o.mss then 4 else 0

def offWs (o : CtrlOpts) : ℕ := o.offTs + if o.ts then 10 else 0

/-- The length of what is written, with the byte behind the window scale. -/
def written (o : CtrlOpts) : ℕ := o.offWs + if o.ws then 4 else 0

def optlen (o : CtrlOpts) : ℕ := (o.written + 3) / 4 * 4

/-- The options at `p + 1`. The timestamp clears `optlen` bytes from its place on, the
window scale four. -/
def fill (o : CtrlOpts) (mssOpt : UInt16) (tsEcho : UInt32) (p : ℕ → UInt8) : ℕ → UInt8 :=
  let p := if o.mss then writeBytes p pktTcpSize ([2, 4] ++ toBe16 mssOpt) else p
  let p := if o.ts then
      writeBytes (writeBytes p (pktTcpSize + o.offTs) (List.replicate o.optlen 0))
        (pktTcpSize + o.offTs) ([8, 10] ++ toBe32 0 ++ toBe32 tsEcho)
    else p
  if o.ws then
    writeBytes (writeBytes p (pktTcpSize + o.offWs) (List.replicate 4 0)) (pktTcpSize + o.offWs)
      [3, 3, 0]
  else p

/-- The options, and then the checksums. -/
def finish (o : CtrlOpts) (host : CtrlHost) (mssOpt : UInt16) (tsEcho : UInt32) (p : ℕ → UInt8) :
    ℕ → UInt8 :=
  let p := o.fill mssOpt tsEcho p
  let p := writeBytes p 24 (toBe16 (host.ipCksum p))
  writeBytes p 50 (toBe16 (host.tcpCksum p))

end CtrlOpts

structure CtrlArgs where
  remoteMac : UInt64
  remoteIp : UInt32
  remotePort : UInt16
  localPort : UInt16
  localSeq : UInt32
  remoteSeq : UInt32
  flags : UInt16
  tsOpt : Bool
  tsEcho : UInt32
  mssOpt : UInt16

namespace CtrlArgs

/-- An MSS of zero asks for no MSS option, and a SYN has a window scale. -/
def opts (a : CtrlArgs) : CtrlOpts := ⟨a.mssOpt ≠ 0, a.tsOpt, a.flags &&& SlowTcp.tcpSyn ≠ 0⟩

def len (a : CtrlArgs) : UInt16 := (pktTcpSize + a.opts.optlen).toUInt16

/-- The Ethernet and IP headers, and the TCP header up to its length. -/
def fillHeaders (a : CtrlArgs) (host : CtrlHost) (p : ℕ → UInt8) : ℕ → UInt8 :=
  let p := writeBytes p 0 (macBytes a.remoteMac ++ macBytes host.ethAddr ++ toBe16 0x0800)
  let p := writeBytes p 14 ([0x45, 0] ++ toBe16 (a.len - 14) ++ toBe16 3 ++ toBe16 0 ++
    [0xff, 6, 0, 0] ++ toBe32 host.ip ++ toBe32 a.remoteIp)
  writeBytes p 34 (toBe16 a.localPort ++ toBe16 a.remotePort ++ toBe32 a.localSeq ++
    toBe32 a.remoteSeq)

/-- `TCPH_HDRLEN_FLAGS_SET`. -/
def hdrlenFlags (a : CtrlArgs) : UInt16 := (5 + a.opts.optlen / 4).toUInt16 <<< 12 ||| a.flags

/-- `send_control_raw` in the buffer that `nicif_tx_alloc` returns. -/
def sendControlRaw (a : CtrlArgs) (host : CtrlHost) (p : ℕ → UInt8) : ℕ → UInt8 :=
  let p := writeBytes (a.fillHeaders host p) 46 (toBe16 a.hdrlenFlags)
  a.opts.finish host a.mssOpt a.tsEcho (writeBytes p 48 (toBe16 11680 ++ [0, 0] ++ toBe16 0))

end CtrlArgs

/-- `f_beui32` of the field at the offset `i`. -/
def beui32 (i : ℕ) : MemScan UInt8 ℕ := do
  let high ← beui16 i
  let low ← beui16 (i + 2)
  pure (65536 * high + low)

/-- The values of the options that a parser found: MSS, timestamp echo, window scale. -/
def TcpOpts.values (opts : TcpOpts) (mem : ℕ → UInt8) : Option ℕ × Option ℕ × Option UInt8 :=
  (opts.mss.map fun off => (beui16 (pktTcpSize + off + 2)).run mem,
    opts.ts.map fun off => (beui32 (pktTcpSize + off + 6)).run mem,
    opts.ws.map fun off => mem (pktTcpSize + off + 2))

theorem toBe16_toNat (x : UInt16) : 256 * (x >>> 8).toUInt8.toNat + x.toUInt8.toNat = x.toNat := by
  have := x.toNat_lt
  simp [Nat.shiftRight_eq_div_pow]
  omega

theorem toBe32_toNat (x : UInt32) :
    65536 * (x >>> 16).toUInt16.toNat + x.toUInt16.toNat = x.toNat := by
  have := x.toNat_lt
  simp [Nat.shiftRight_eq_div_pow]
  omega

/-- Store the pointer if the parser knows the option. -/
def TcpOpts.note (sizes : UInt8 → Option UInt8) (opts : TcpOpts) (kind : UInt8) (off : ℕ) :
    TcpOpts :=
  if (sizes kind).isSome then opts.set kind off else opts

/-- With `k` rounds or more the loop returns `r`. -/
def Parses (sizes : UInt8 → Option UInt8) (mem : ℕ → UInt8) (n k off : ℕ) (opts r : TcpOpts) :
    Prop :=
  ∀ fuel, k ≤ fuel → (optionLoop sizes n fuel off opts).run mem = some (some r)

section Parses

variable {sizes : UInt8 → Option UInt8} {mem : ℕ → UInt8} {n k off : ℕ} {opts r : TcpOpts}

theorem Parses.stop (h : n ≤ off ∨ mem (pktTcpSize + off) = 0) :
    Parses sizes mem n 1 off opts opts := by
  intro fuel hfuel
  obtain _ | fuel := fuel
  · omega
  by_cases hlt : off < n
  · simp [optionLoop, hlt, h.resolve_left (by omega)]
  · simp [optionLoop, hlt]

theorem Parses.option (asked : Bool) {kind size : UInt8} (hkind : kind ≠ 0 ∧ kind ≠ 1)
    (hsize : sizes kind = none ∨ sizes kind = some size)
    (hat : asked = true → off + 1 < n ∧ mem (pktTcpSize + off) = kind ∧
      mem (pktTcpSize + off + 1) = size)
    (hrest : Parses sizes mem n k (off + if asked then size.toNat else 0)
      (if asked then opts.note sizes kind off else opts) r) :
    Parses sizes mem n (k + 1) off opts r := by
  intro fuel hfuel
  cases asked with
  | false => exact hrest fuel (by omega)
  | true =>
    obtain _ | fuel := fuel
    · omega
    obtain ⟨hlt, hk, hs⟩ := hat rfl
    have hin : off < n := by omega
    have hroom : ¬ n - off < 2 := by omega
    rw [← hrest fuel (by omega)]
    rcases hsize with hsize | hsize
    · simp [optionLoop, hin, hroom, hk, hs, hkind, hsize, TcpOpts.note]
    · simp [optionLoop, hin, hroom, hk, hs, hkind, hsize, TcpOpts.note]

end Parses

namespace CtrlOpts

variable (o : CtrlOpts) (host : CtrlHost) (mssOpt : UInt16) (tsEcho : UInt32) (p : ℕ → UInt8)

theorem optlen_spec : o.written ≤ o.optlen ∧ o.optlen < o.written + 4 ∧ o.optlen / 4 ≤ 5 ∧
    o.optlen = 4 * (o.optlen / 4) := by
  obtain ⟨_ | _, _ | _, _ | _⟩ := o <;> decide

/-- What a parser is to find. -/
def pointers (sizes : UInt8 → Option UInt8) : TcpOpts :=
  let opts : TcpOpts := if o.mss then ({} : TcpOpts).note sizes 2 0 else {}
  let opts := if o.ts then opts.note sizes 8 o.offTs else opts
  if o.ws then opts.note sizes 3 o.offWs else opts

/-- Behind the options are zeros: the bytes of an older packet do not show. -/
theorem finish_padding {i : ℕ} (hi : o.written ≤ i) (hlt : i < o.optlen) :
    o.finish host mssOpt tsEcho p (pktTcpSize + i) = 0 := by
  obtain ⟨j, rfl⟩ := Nat.exists_eq_add_of_le hi
  have hj : j = 0 ∨ j = 1 ∨ j = 2 := by
    have := o.optlen_spec
    omega
  rcases hj with rfl | rfl | rfl
  all_goals
    obtain ⟨_ | _, _ | _, _ | _⟩ := o <;> first | rfl | exact absurd hlt (by decide)

theorem parses_finish {sizes : UInt8 → Option UInt8} (hmss : sizes 2 = none ∨ sizes 2 = some 4)
    (hts : sizes 8 = some 10) (hws : sizes 3 = none ∨ sizes 3 = some 3) :
    Parses sizes (o.finish host mssOpt tsEcho p) o.optlen 4 0 {} (o.pointers sizes) := by
  -- each option that was asked for stands at its offset, whatever the others are
  refine Parses.option o.mss (by decide) hmss (fun h => ?_) ?_
  · obtain ⟨_ | _, _ | _, _ | _⟩ := o <;> first | exact ⟨by decide, rfl, rfl⟩ | cases h
  rw [show (0 + if o.mss = true then (4 : UInt8).toNat else 0) = o.offTs from Nat.zero_add _]
  refine Parses.option o.ts (by decide) (Or.inr hts) (fun h => ?_) ?_
  · obtain ⟨_ | _, _ | _, _ | _⟩ := o <;> first | exact ⟨by decide, rfl, rfl⟩ | cases h
  refine Parses.option o.ws (by decide) hws (fun h => ?_) (Parses.stop ?_)
  · obtain ⟨_ | _, _ | _, _ | _⟩ := o <;> first | exact ⟨by decide, rfl, rfl⟩ | cases h
  · obtain ⟨_ | _, _ | _, _ | _⟩ := o <;> first | exact Or.inl (by decide) | exact Or.inr rfl

theorem values_finish : (o.pointers slowSizes).values (o.finish host mssOpt tsEcho p) =
        (if o.mss then some mssOpt.toNat else none, if o.ts then some tsEcho.toNat else none,
          if o.ws then some 0 else none) ∧
      (o.pointers fastSizes).values (o.finish host mssOpt tsEcho p) =
        (none, if o.ts then some tsEcho.toNat else none, none) := by
  rw [← toBe16_toNat mssOpt, ← toBe32_toNat tsEcho, ← toBe16_toNat (tsEcho >>> 16).toUInt16,
    ← toBe16_toNat tsEcho.toUInt16]
  obtain ⟨_ | _, _ | _, _ | _⟩ := o <;> exact ⟨rfl, rfl⟩

theorem tcphHdrlen_finish (x : UInt16) (rest : List UInt8) :
    tcphHdrlen.run (o.finish host mssOpt tsEcho
      (writeBytes (writeBytes p 46 (toBe16 x)) 48 rest)) = x.toNat / 4096 := by
  rw [← toBe16_toNat x]
  obtain ⟨_ | _, _ | _, _ | _⟩ := o <;> rfl

end CtrlOpts

namespace CtrlArgs

theorem hdrlenFlags_div (a : CtrlArgs) (hflags : a.flags < 4096) :
    a.hdrlenFlags.toNat / 4096 = 5 + a.opts.optlen / 4 := by
  have hlt : a.flags.toNat < 2 ^ 12 := hflags
  have hopt := a.opts.optlen_spec
  have hsmall : (5 + a.opts.optlen / 4).toUInt16.toNat = 5 + a.opts.optlen / 4 :=
    Nat.mod_eq_of_lt (by omega)
  have hword : a.hdrlenFlags.toNat = (5 + a.opts.optlen / 4) <<< 12 + a.flags.toNat := by
    rw [hdrlenFlags, Nat.shiftLeft_add_eq_or_of_lt hlt, UInt16.toNat_or, UInt16.toNat_shiftLeft,
      hsmall, Nat.shiftLeft_eq, Nat.shiftLeft_eq]
    congr 1
    exact Nat.mod_eq_of_lt (by simp; omega)
  omega

/-- Whatever the buffer contained, both parsers find exactly the options asked for. -/
theorem control_packet_round_trip (a : CtrlArgs) (host : CtrlHost) (p : ℕ → UInt8)
    (hflags : a.flags < 4096) (fuel : ℕ) (hfuel : 4 ≤ fuel) :
    let o := a.opts
    let pkt := a.sendControlRaw host p
    let ts := if a.tsOpt then some a.tsEcho.toNat else none
    (∃ opts, (slowParseOptions a.len fuel).run pkt = some (some opts) ∧ opts.values pkt =
        (if a.mssOpt ≠ 0 then some a.mssOpt.toNat else none, ts,
          if a.flags &&& SlowTcp.tcpSyn ≠ 0 then some 0 else none)) ∧
      (∃ opts, (tcpParseOptions a.len fuel).run pkt = some (some opts) ∧
        opts.values pkt = (none, ts, none)) ∧
      4 * tcphHdrlen.run pkt = 20 + o.optlen ∧ o.written ≤ o.optlen ∧ o.optlen < o.written + 4 ∧
      ∀ i, o.written ≤ i → i < o.optlen → pkt (pktTcpSize + i) = 0 := by
  intro o pkt ts
  obtain ⟨hle, hlt, hwords, hword⟩ := o.optlen_spec
  have hhdrlen : tcphHdrlen.run pkt = 5 + o.optlen / 4 :=
    (o.tcphHdrlen_finish host _ _ _ _ _).trans (a.hdrlenFlags_div hflags)
  have hlen : a.len.toNat = pktTcpSize + o.optlen :=
    Nat.mod_eq_of_lt (by change 54 + o.optlen < 65536; omega)
  have harea : optsLen (tcphHdrlen.run pkt) = o.optlen := by
    rw [hhdrlen, optsLen]
    omega
  have hparse (sizes : UInt8 → Option UInt8) : (parseTcpOptions sizes a.len fuel).run pkt =
      (optionLoop sizes o.optlen fuel 0 {}).run pkt := by
    rw [(parseTcpOptions_fits sizes (by omega) (by omega) fuel).1, harea]
  have hslow : Parses slowSizes pkt o.optlen 4 0 {} (o.pointers slowSizes) :=
    o.parses_finish host a.mssOpt a.tsEcho _ (Or.inr rfl) rfl (Or.inr rfl)
  have hfast : Parses fastSizes pkt o.optlen 4 0 {} (o.pointers fastSizes) :=
    o.parses_finish host a.mssOpt a.tsEcho _ (Or.inl rfl) rfl (Or.inl rfl)
  have hvalues := o.values_finish host a.mssOpt a.tsEcho
    (writeBytes (writeBytes (a.fillHeaders host p) 46 (toBe16 a.hdrlenFlags)) 48
      (toBe16 11680 ++ [0, 0] ++ toBe16 0))
  refine ⟨⟨_, (hparse _).trans (hslow fuel hfuel), ?_⟩,
    ⟨_, (hparse _).trans (hfast fuel hfuel), hvalues.2⟩, by omega, hle, hlt,
    fun i hi hlt => o.finish_padding host _ _ _ hi hlt⟩
  exact hvalues.1.trans (by simp [o, opts, ts])

/-- The SYN of an active open, in a buffer full of ones. -/
theorem control_packet_round_trip_syn :
    let pkt := (⟨0, 0x0A000001, 80, 8192, 1, 0, 0xC2, true, 0, 1460⟩ : CtrlArgs).sendControlRaw
      ⟨0, 0x0A000002, fun _ => 0, fun _ => 0⟩ fun _ => 0xFF
    ∃ opts, (slowParseOptions 74 4).run pkt = some (some opts) ∧
      opts.values pkt = (some 1460, some 0, some 0) :=
  (control_packet_round_trip _ _ _ (by decide) 4 le_rfl).1

end CtrlArgs

end StackBench.Tas
