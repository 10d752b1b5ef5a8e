import StackBench.Lib.MemScan
import StackBench.Lib.Word

/-!
# Parsing received frames in TAS

`fast_flows_packet_parse`, `tcp_parse_options` of the fast path and
`parse_options` of the slow path, on the bytes of the packet buffer, of which a
frame is the first `len`. The trace of a parser tells which bytes it looks at.
-/

namespace StackBench.Tas

open MemScan (cell)

/-- `sizeof(struct pkt_tcp)`: Ethernet, IP and TCP header without options. -/
def pktTcpSize : ℕ := 54

/-- `f_beui16` of the field at the offset `i`. -/
def beui16 (i : ℕ) : MemScan UInt8 ℕ := do
  let high ← cell i
  let low ← cell (i + 1)
  pure (256 * high.toNat + low.toNat)

def ipLen : MemScan UInt8 ℕ := beui16 16

def tcphHdrlen : MemScan UInt8 ℕ := do
  let word ← beui16 46
  pure (word / 4096)

/-- `opts_len`, for a header length of at least five words. -/
def optsLen (hdrlen : ℕ) : ℕ := hdrlen * 4 - 20

/-- `len - sizeof(*p)`, which is unsigned and has 64 bits. -/
def behindHeader (len : UInt16) : ℕ := (len.toNat + 2 ^ 64 - pktTcpSize) % 2 ^ 64

/-- The options found, by their offsets. -/
structure TcpOpts where
  ts : Option ℕ := none
  mss : Option ℕ := none
  ws : Option ℕ := none
deriving DecidableEq

/-- Store a pointer to an option of the given kind. -/
def TcpOpts.set (opts : TcpOpts) (kind : UInt8) (off : ℕ) : TcpOpts :=
  if kind = 2 then { opts with mss := some off }
  else if kind = 8 then { opts with ts := some off }
  else if kind = 3 then { opts with ws := some off }
  else opts

/-- The pointer to an option of the given kind. -/
def TcpOpts.get (opts : TcpOpts) (kind : UInt8) : Option ℕ :=
  if kind = 2 then opts.mss else if kind = 8 then opts.ts else if kind = 3 then opts.ws else none

/-- The options of the fast path with their sizes: the timestamp. -/
def fastSizes (kind : UInt8) : Option UInt8 := if kind = 8 then some 10 else none

/-- The options of the slow path with their sizes: MSS, timestamp and window scale. -/
def slowSizes (kind : UInt8) : Option UInt8 :=
  if kind = 2 then some 4 else if kind = 8 then some 10 else if kind = 3 then some 3 else none

/-- The loop over `n` bytes of options. The outer `none`: the fuel ran out; the inner one: `-1`. -/
def optionLoop (sizes : UInt8 → Option UInt8) (n : ℕ) :
    ℕ → ℕ → TcpOpts → MemScan UInt8 (Option (Option TcpOpts))
  | 0, _, _ => pure none
  | fuel + 1, off, opts =>
    if off < n then do
      let kind ← cell (pktTcpSize + off)
      if kind = 0 then pure (some (some opts))
      else if kind = 1 then optionLoop sizes n fuel (off + 1) opts
      else if n - off < 2 then pure (some none)
      else do
        let optLen ← cell (pktTcpSize + off + 1)
        match sizes kind with
        | none => optionLoop sizes n fuel (off + optLen.toNat) opts
        | some size =>
          if optLen ≠ size then pure (some none)
          else optionLoop sizes n fuel (off + optLen.toNat) (opts.set kind off)
    else pure (some (some opts))

variable (sizes : UInt8 → Option UInt8)

/-- What both parsers do, up to the options they know. -/
def parseTcpOptions (len : UInt16) (fuel : ℕ) : MemScan UInt8 (Option (Option TcpOpts)) := do
  let hdrlen ← tcphHdrlen
  -- whole header not in buf
  if hdrlen < 5 ∨ optsLen hdrlen > behindHeader len then pure (some none)
  else optionLoop sizes (optsLen hdrlen) fuel 0 {}

def tcpParseOptions : UInt16 → ℕ → MemScan UInt8 (Option (Option TcpOpts)) :=
  parseTcpOptions fastSizes

def slowParseOptions : UInt16 → ℕ → MemScan UInt8 (Option (Option TcpOpts)) :=
  parseTcpOptions slowSizes

/-- The scale `conn_syn_sent_packet` takes from the options of the peer, which
must hold a timestamp. -/
def negotiatedWscale (len : UInt16) (fuel : ℕ) : MemScan UInt8 (Option UInt8) := do
  match ← slowParseOptions len fuel with
  | some (some ⟨some _, _, some off⟩) =>
    let scale ← cell (pktTcpSize + off + 2)
    pure (some scale)
  | some (some ⟨some _, _, none⟩) => pure (some 0)
  | _ => pure none

/-- The bytes behind the header. -/
def optionBytes (mem : ℕ → UInt8) : ℕ → UInt8 := fun i => mem (pktTcpSize + i)

/-- From `off` the loop goes over a no-op, or over an option that is unknown or has its size and is
stored. -/
inductive Advance (sizes : UInt8 → Option UInt8) (opt : ℕ → UInt8) (n off : ℕ) (opts : TcpOpts) :
    ℕ → TcpOpts → Prop
  | noOp (hlt : off < n) (hkind : opt off = 1) : Advance sizes opt n off opts (off + 1) opts
  | unknown (hlt : off + 1 < n) (hend : opt off ≠ 0) (hnop : opt off ≠ 1)
      (hsize : sizes (opt off) = none) :
      Advance sizes opt n off opts (off + (opt (off + 1)).toNat) opts
  | known (hlt : off + 1 < n) (hend : opt off ≠ 0) (hnop : opt off ≠ 1)
      (hsize : sizes (opt off) = some (opt (off + 1))) :
      Advance sizes opt n off opts (off + (opt (off + 1)).toNat) (opts.set (opt off) off)

/-- The loop over the `n` bytes `opt` comes to the offset `off` with `opts` found. -/
inductive Visited (sizes : UInt8 → Option UInt8) (opt : ℕ → UInt8) (n : ℕ) : ℕ → TcpOpts → Prop
  | start : Visited sizes opt n 0 {}
  | step {off off' : ℕ} {opts opts' : TcpOpts} (h : Visited sizes opt n off opts)
      (hstep : Advance sizes opt n off opts off' opts') : Visited sizes opt n off' opts'

/-- The loop reads the kind and the length of an option at the offset `off`. -/
structure OptionAt (sizes : UInt8 → Option UInt8) (opt : ℕ → UInt8) (n off : ℕ) : Prop where
  visited : ∃ opts, Visited sizes opt n off opts
  length : off + 1 < n
  notEnd : opt off ≠ 0
  notNop : opt off ≠ 1

/-- No option that the parser does not know has the length zero. -/
def OptionsAdvance (opt : ℕ → UInt8) (n : ℕ) : Prop :=
  ∀ off, OptionAt sizes opt n off → sizes (opt off) = none → opt (off + 1) ≠ 0

/-- An option that the parser knows, with the size that it expects, ends in the area. -/
def OptionsComplete (opt : ℕ → UInt8) (n : ℕ) : Prop :=
  ∀ off, OptionAt sizes opt n off → sizes (opt off) = some (opt (off + 1)) →
    off + (opt (off + 1)).toNat ≤ n

/-- The pointers designate options of their kind and size, in the area as a whole. -/
def PointersValid (opt : ℕ → UInt8) (n : ℕ) (opts : TcpOpts) : Prop :=
  ∀ kind off, opts.get kind = some off → opt off = kind ∧ sizes kind = some (opt (off + 1)) ∧
    off + (opt (off + 1)).toNat ≤ n

theorem TcpOpts.get_set {opts : TcpOpts} {kind k : UInt8} {off p : ℕ}
    (h : (opts.set kind off).get k = some p) : (k = kind ∧ p = off) ∨ opts.get k = some p := by
  by_cases hk : k = kind
  · unfold set get at h
    split_ifs at h ⊢ <;> simp_all
  right
  rw [← h]
  unfold set get
  split_ifs <;> simp_all

/-- The table gives sizes to kinds that have a pointer, and none is zero. -/
structure Stored (sizes : UInt8 → Option UInt8) : Prop where
  pos : ∀ kind, sizes kind ≠ some 0
  pointer : ∀ kind (opts : TcpOpts) (off : ℕ), sizes kind ≠ none →
    (opts.set kind off).get kind = some off

theorem stored_fastSizes : Stored fastSizes := by
  constructor
  · intro kind
    unfold fastSizes
    split_ifs <;> simp
  · intro kind opts off h
    unfold fastSizes at h
    split_ifs at h with hk
    · rw [hk]
      rfl
    · exact absurd rfl h

theorem stored_slowSizes : Stored slowSizes := by
  constructor
  · intro kind
    unfold slowSizes
    split_ifs <;> simp
  · intro kind opts off h
    unfold slowSizes at h
    split_ifs at h with hmss hts hws
    · rw [hmss]
      rfl
    · rw [hts]
      rfl
    · rw [hws]
      rfl
    · exact absurd rfl h

section Advance

variable {sizes} {opt : ℕ → UInt8} {n off off' : ℕ} {opts opts' : TcpOpts}

section

variable (h : Advance sizes opt n off opts off' opts')
include h

theorem Advance.inArea : off < n := by
  cases h with
  | noOp hlt hkind => exact hlt
  | unknown hlt hend hnop hsize => omega
  | known hlt hend hnop hsize => omega

theorem Advance.lt (hoff : Visited sizes opt n off opts) (hsizes : Stored sizes)
    (hadvance : OptionsAdvance sizes opt n) : off < off' := by
  cases h with
  | noOp hlt hkind => omega
  | unknown hlt hend hnop hsize =>
    have hne := hadvance off ⟨⟨opts, hoff⟩, hlt, hend, hnop⟩ hsize
    rw [ne_eq, ← UInt8.toNat_inj, UInt8.toNat_zero] at hne
    omega
  | known hlt hend hnop hsize =>
    have hne : opt (off + 1) ≠ 0 := fun hzero => hsizes.pos _ (hsize.trans (congrArg some hzero))
    rw [ne_eq, ← UInt8.toNat_inj, UInt8.toNat_zero] at hne
    omega

theorem Advance.pointers (hoff : Visited sizes opt n off opts)
    (hcomplete : OptionsComplete sizes opt n) (hopts : PointersValid sizes opt n opts) :
    PointersValid sizes opt n opts' := by
  cases h with
  | noOp hlt hkind => exact hopts
  | unknown hlt hend hnop hsize => exact hopts
  | known hlt hend hnop hsize =>
    intro kind p hp
    rcases TcpOpts.get_set hp with ⟨rfl, rfl⟩ | hold
    · exact ⟨rfl, hsize, hcomplete _ ⟨⟨opts, hoff⟩, hlt, hend, hnop⟩ hsize⟩
    · exact hopts kind p hold

end

theorem Advance.run {mem : ℕ → UInt8} (h : Advance sizes (optionBytes mem) n off opts off' opts')
    (fuel : ℕ) : (optionLoop sizes n (fuel + 1) off opts).run mem =
      (optionLoop sizes n fuel off' opts').run mem := by
  unfold optionBytes at h
  cases h with
  | noOp hlt hkind => simp [optionLoop, hlt, hkind]
  | unknown hlt hend hnop hsize =>
    simp [optionLoop, show off < n by omega, show ¬n - off < 2 by omega, hend, hnop, hsize,
      Nat.add_assoc]
  | known hlt hend hnop hsize =>
    simp [optionLoop, show off < n by omega, show ¬n - off < 2 by omega, hend, hnop, hsize,
      Nat.add_assoc]

/-- The loop reaches what is visited after as many iterations as there were steps. -/
theorem Visited.run {mem : ℕ → UInt8} (h : Visited sizes (optionBytes mem) n off opts) :
    ∃ c, ∀ fuel, (optionLoop sizes n fuel 0 {}).run mem =
      if fuel < c then none else (optionLoop sizes n (fuel - c) off opts).run mem := by
  induction h with
  | start => exact ⟨0, fun fuel => rfl⟩
  | @step off off' opts opts' h hstep ih =>
    obtain ⟨c, hrun⟩ := ih
    refine ⟨c + 1, fun fuel => ?_⟩
    rw [hrun]
    rcases Nat.lt_trichotomy fuel c with hlt | rfl | hgt
    · rw [if_pos hlt, if_pos (hlt.trans (Nat.lt_succ_self c))]
    · rw [if_neg (lt_irrefl fuel), if_pos (Nat.lt_succ_self fuel), Nat.sub_self]
      rfl
    · rw [if_neg hgt.not_gt, if_neg (by omega),
        show fuel - c = fuel - (c + 1) + 1 by omega, hstep.run]

/-- An unknown option of the length zero holds the loop in its place. -/
theorem optionLoop_stays {mem : ℕ → UInt8} (h : OptionAt sizes (optionBytes mem) n off)
    (hsize : sizes (optionBytes mem off) = none) (hzero : optionBytes mem (off + 1) = 0)
    (fuel : ℕ) : (optionLoop sizes n fuel 0 {}).run mem = none := by
  obtain ⟨opts, hoff⟩ := h.visited
  obtain ⟨c, hrun⟩ := hoff.run
  have hstay : ∀ fuel, (optionLoop sizes n fuel off opts).run mem = none := by
    intro fuel
    induction fuel with
    | zero => rfl
    | succ fuel ih =>
      rw [(Advance.unknown h.length h.notEnd h.notNop hsize).run fuel, hzero]
      exact ih
  rw [hrun, hstay, ite_self]

end Advance

section Loop

variable (mem : ℕ → UInt8) (n : ℕ) (fuel off : ℕ) (opts : TcpOpts)

/-- One iteration ends the loop with the options or a failure, or advances. It reads option bytes.
-/
theorem optionLoop_cases : ∃ reads, (∀ i ∈ reads, pktTcpSize ≤ i ∧ i < pktTcpSize + n) ∧
      ((∃ r, (optionLoop sizes n (fuel + 1) off opts).run mem = some r ∧
          (∀ found, r = some found → found = opts) ∧
          (optionLoop sizes n (fuel + 1) off opts).trace mem = reads) ∨
        ∃ off' opts', Advance sizes (optionBytes mem) n off opts off' opts' ∧
          (optionLoop sizes n (fuel + 1) off opts).trace mem =
            reads ++ (optionLoop sizes n fuel off' opts').trace mem) := by
  by_cases hlt : off < n
  swap
  · refine ⟨[], by simp, Or.inl ⟨some opts, ?_, ?_, ?_⟩⟩
    · simp [optionLoop, hlt]
    · rintro found hfound
      cases hfound
      rfl
    · simp [optionLoop, hlt]
  have hread : ∀ i ∈ [pktTcpSize + off], pktTcpSize ≤ i ∧ i < pktTcpSize + n := by
    intro i hi
    rw [List.mem_singleton] at hi
    omega
  by_cases hend : mem (pktTcpSize + off) = 0
  · refine ⟨[pktTcpSize + off], hread, Or.inl ⟨some opts, ?_, ?_, ?_⟩⟩
    · simp [optionLoop, hlt, hend]
    · rintro found hfound
      cases hfound
      rfl
    · simp [optionLoop, hlt, hend]
  by_cases hnop : mem (pktTcpSize + off) = 1
  · refine ⟨[pktTcpSize + off], hread, Or.inr ⟨off + 1, opts, .noOp hlt hnop, ?_⟩⟩
    simp [optionLoop, hlt, hnop]
  by_cases hshort : n - off < 2
  · refine ⟨[pktTcpSize + off], hread, Or.inl ⟨none, ?_, by simp, ?_⟩⟩
    · simp [optionLoop, hlt, hend, hnop, hshort]
    · simp [optionLoop, hlt, hend, hnop, hshort]
  have hlen : off + 1 < n := by omega
  have hreads : ∀ i ∈ [pktTcpSize + off, pktTcpSize + off + 1],
      pktTcpSize ≤ i ∧ i < pktTcpSize + n := by
    intro i hi
    rw [List.mem_pair] at hi
    omega
  refine ⟨[pktTcpSize + off, pktTcpSize + off + 1], hreads, ?_⟩
  cases hsize : sizes (mem (pktTcpSize + off)) with
  | none =>
    refine Or.inr ⟨_, _, .unknown hlen hend hnop hsize, ?_⟩
    simp [optionLoop, hlt, hend, hnop, hshort, hsize, optionBytes, Nat.add_assoc]
  | some size =>
    by_cases heq : mem (pktTcpSize + off + 1) = size
    · subst heq
      refine Or.inr ⟨_, _, .known hlen hend hnop hsize, ?_⟩
      simp [optionLoop, hlt, hend, hnop, hshort, hsize, optionBytes, Nat.add_assoc]
    · refine Or.inl ⟨none, ?_, by simp, ?_⟩
      · simp [optionLoop, hlt, hend, hnop, hshort, hsize, heq]
      · simp [optionLoop, hlt, hend, hnop, hshort, hsize, heq]

theorem optionLoop_reads : ∀ i ∈ (optionLoop sizes n fuel off opts).trace mem,
      pktTcpSize ≤ i ∧ i < pktTcpSize + n := by
  induction fuel generalizing off opts with
  | zero =>
    intro i hi
    cases hi
  | succ fuel ih =>
    obtain ⟨reads, hreads, ⟨r, -, -, htrace⟩ | ⟨off', opts', -, htrace⟩⟩ :=
      optionLoop_cases sizes mem n fuel off opts
    · rw [htrace]
      exact hreads
    rw [htrace]
    intro i hi
    rcases List.mem_append.mp hi with hi | hi
    · exact hreads i hi
    · exact ih off' opts' i hi

variable {sizes}

theorem optionLoop_returns (hsizes : Stored sizes)
    (hadvance : OptionsAdvance sizes (optionBytes mem) n) {fuel off : ℕ} {opts : TcpOpts}
    (hoff : Visited sizes (optionBytes mem) n off opts) (hfuel : n < off + fuel)
    (hpos : 0 < fuel) : ((optionLoop sizes n fuel off opts).run mem).isSome = true := by
  induction fuel generalizing off opts with
  | zero => exact absurd hpos (lt_irrefl 0)
  | succ fuel ih =>
    obtain ⟨-, -, ⟨r, hrun, -⟩ | ⟨off', opts', hstep, -⟩⟩ :=
      optionLoop_cases sizes mem n fuel off opts
    · rw [hrun]
      rfl
    rw [hstep.run]
    have hnext := hstep.lt hoff hsizes hadvance
    have hbound := hstep.inArea
    exact ih (hoff.step hstep) (by omega) (by omega)

theorem optionLoop_pointers (hcomplete : OptionsComplete sizes (optionBytes mem) n)
    {fuel off : ℕ} {opts found : TcpOpts} (hoff : Visited sizes (optionBytes mem) n off opts)
    (hopts : PointersValid sizes (optionBytes mem) n opts)
    (hrun : (optionLoop sizes n fuel off opts).run mem = some (some found)) :
    PointersValid sizes (optionBytes mem) n found := by
  induction fuel generalizing off opts with
  | zero => cases hrun
  | succ fuel ih =>
    obtain ⟨-, -, ⟨r, hend, hsame, -⟩ | ⟨off', opts', hstep, -⟩⟩ :=
      optionLoop_cases sizes mem n fuel off opts
    · have hr : r = some found := Option.some.inj (hend.symm.trans hrun)
      rw [hsame found hr]
      exact hopts
    · exact ih (hoff.step hstep) (hstep.pointers hoff hcomplete hopts)
        ((hstep.run fuel).symm.trans hrun)

/-- An option that is cut by the end of the area is the last one, and its pointer is returned. -/
theorem optionLoop_cut (hsizes : Stored sizes) {off : ℕ}
    (h : OptionAt sizes (optionBytes mem) n off)
    (hsize : sizes (optionBytes mem off) = some (optionBytes mem (off + 1)))
    (hcut : n < off + (optionBytes mem (off + 1)).toNat) : ∃ fuel found,
      (optionLoop sizes n fuel 0 {}).run mem = some (some found) ∧
        ¬PointersValid sizes (optionBytes mem) n found := by
  obtain ⟨opts, hoff⟩ := h.visited
  obtain ⟨c, hrun⟩ := hoff.run
  refine ⟨c + 2, opts.set (optionBytes mem off) off, ?_, fun hvalid => ?_⟩
  · rw [hrun, if_neg (by omega), Nat.add_sub_cancel_left,
      (Advance.known h.length h.notEnd h.notNop hsize).run 1]
    simp [optionLoop, show ¬off + (optionBytes mem (off + 1)).toNat < n by omega]
  · have hpointer := hsizes.pointer _ opts off (by rw [hsize]; exact Option.some_ne_none _)
    have hend := (hvalid _ off hpointer).2.2
    omega

end Loop

theorem pointersValid_empty (sizes : UInt8 → Option UInt8) (opt : ℕ → UInt8) (n : ℕ) :
    PointersValid sizes opt n {} := by
  intro kind off h
  unfold TcpOpts.get at h
  split_ifs at h

/-- A parser reads the header only, returns exactly if its options advance, and its pointers are to
whole options exactly if those it knows are complete. -/
structure ParserExact (sizes : UInt8 → Option UInt8)
    (parser : UInt16 → ℕ → MemScan UInt8 (Option (Option TcpOpts))) (mem : ℕ → UInt8)
    (len : UInt16) : Prop where
  reads : ∀ fuel, ∀ i ∈ (parser len fuel).trace mem, i = 46 ∨ i = 47 ∨
    pktTcpSize ≤ i ∧ i < pktTcpSize + optsLen (tcphHdrlen.run mem)
  returns : OptionsAdvance sizes (optionBytes mem) (optsLen (tcphHdrlen.run mem)) →
    ((parser len (optsLen (tcphHdrlen.run mem) + 1)).run mem).isSome = true
  hangs : ¬OptionsAdvance sizes (optionBytes mem) (optsLen (tcphHdrlen.run mem)) →
    ∀ fuel, (parser len fuel).run mem = none
  pointers : (∀ fuel found, (parser len fuel).run mem = some (some found) →
      PointersValid sizes (optionBytes mem) (optsLen (tcphHdrlen.run mem)) found) ↔
    OptionsComplete sizes (optionBytes mem) (optsLen (tcphHdrlen.run mem))

section Parser

variable {mem : ℕ → UInt8} {len : UInt16}

theorem parseTcpOptions_fits (hwords : 5 ≤ tcphHdrlen.run mem)
    (hfits : pktTcpSize + optsLen (tcphHdrlen.run mem) ≤ len.toNat) (fuel : ℕ) :
    (parseTcpOptions sizes len fuel).run mem =
        (optionLoop sizes (optsLen (tcphHdrlen.run mem)) fuel 0 {}).run mem ∧
      (parseTcpOptions sizes len fuel).trace mem =
        [46, 47] ++ (optionLoop sizes (optsLen (tcphHdrlen.run mem)) fuel 0 {}).trace mem := by
  have hlen := len.toNat_lt
  have hroom : ¬(tcphHdrlen.run mem < 5 ∨ optsLen (tcphHdrlen.run mem) > behindHeader len) := by
    unfold behindHeader
    omega
  have htrace : tcphHdrlen.trace mem = [46, 47] := rfl
  unfold parseTcpOptions
  rw [MemScan.run_bind, MemScan.trace_bind, if_neg hroom, htrace]
  exact ⟨rfl, rfl⟩

variable {sizes} in
theorem parseTcpOptions_exact (hsizes : Stored sizes) (hwords : 5 ≤ tcphHdrlen.run mem)
    (hfits : pktTcpSize + optsLen (tcphHdrlen.run mem) ≤ len.toNat) :
    ParserExact sizes (parseTcpOptions sizes) mem len := by
  have hloop := parseTcpOptions_fits sizes hwords hfits
  refine ⟨fun fuel i hi => ?_, fun hadvance => ?_, fun hstuck fuel => ?_, ?_, ?_⟩
  · rw [(hloop fuel).2, List.mem_append, List.mem_pair] at hi
    rcases hi with (hi | hi) | hi
    · exact Or.inl hi
    · exact Or.inr (Or.inl hi)
    · exact Or.inr (Or.inr (optionLoop_reads sizes mem _ fuel 0 {} i hi))
  · rw [(hloop _).1]
    exact optionLoop_returns mem _ hsizes hadvance .start (by omega) (by omega)
  · simp only [OptionsAdvance, not_forall, not_not] at hstuck
    obtain ⟨off, hoff, hsize, hzero⟩ := hstuck
    rw [(hloop fuel).1]
    exact optionLoop_stays hoff hsize hzero fuel
  · intro hvalid off hoff hsize
    by_contra hcut
    obtain ⟨fuel, found, hrun, hbad⟩ := optionLoop_cut mem _ hsizes hoff hsize (not_le.mp hcut)
    exact hbad (hvalid fuel found ((hloop fuel).1.trans hrun))
  · intro hcomplete fuel found hrun
    rw [(hloop fuel).1] at hrun
    exact optionLoop_pointers mem _ hcomplete .start (pointersValid_empty _ _ _) hrun

/-- In a frame with a header no byte behind the frame is read, even if the header length is wrong.
-/
theorem parseTcpOptions_reads (hlen : pktTcpSize ≤ len.toNat) {fuel i : ℕ}
    (hi : i ∈ (parseTcpOptions sizes len fuel).trace mem) : i < len.toNat := by
  have htrace : tcphHdrlen.trace mem = [46, 47] := rfl
  unfold parseTcpOptions at hi
  rw [MemScan.trace_bind, List.mem_append, htrace, List.mem_pair] at hi
  rcases hi with hi | hi
  · unfold pktTcpSize at hlen
    omega
  split at hi
  · cases hi
  next hroom =>
  have hloop := optionLoop_reads sizes mem _ fuel 0 {} i hi
  unfold behindHeader at hroom
  omega

end Parser

/-- Option parsing in both paths, for every packet that has its whole header. -/
theorem options_parsed_in_bounds (mem : ℕ → UInt8) (len : UInt16) (hwords : 5 ≤ tcphHdrlen.run mem)
    (hfits : pktTcpSize + optsLen (tcphHdrlen.run mem) ≤ len.toNat) :
    ParserExact fastSizes tcpParseOptions mem len ∧
      ParserExact slowSizes slowParseOptions mem len :=
  ⟨parseTcpOptions_exact stored_fastSizes hwords hfits,
    parseTcpOptions_exact stored_slowSizes hwords hfits⟩

/-- A packet with the header length `words` and the given options, zero elsewhere. -/
def headerWith (words : UInt8) (options : List UInt8) : ℕ → UInt8 := fun i =>
  if i = 46 then words * 16 else if i < pktTcpSize then 0 else options.getD (i - pktTcpSize) 0

def timestampOptions : List UInt8 := [8, 10, 0, 0, 0, 1, 0, 0, 0, 2, 0, 0]

theorem timestampOptions_visited {off : ℕ} {opts : TcpOpts}
    (h : Visited fastSizes (optionBytes (headerWith 8 timestampOptions)) 12 off opts) :
    off = 0 ∨ off = 10 := by
  induction h with
  | start => exact Or.inl rfl
  | @step off off' opts opts' h hstep ih =>
    rcases ih with rfl | rfl
    · cases hstep with
      | noOp hlt hkind => exact absurd hkind (by decide)
      | unknown hlt hend hnop hsize => exact absurd hsize (by decide)
      | known hlt hend hnop hsize => exact Or.inr (by decide)
    · cases hstep with
      | noOp hlt hkind => exact absurd hkind (by decide)
      | unknown hlt hend hnop hsize => exact absurd hend (by decide)
      | known hlt hend hnop hsize => exact absurd hend (by decide)

theorem timestampOptions_at {off : ℕ}
    (h : OptionAt fastSizes (optionBytes (headerWith 8 timestampOptions)) 12 off) : off = 0 := by
  obtain ⟨opts, hoff⟩ := h.visited
  exact (timestampOptions_visited hoff).resolve_right fun hend => h.notEnd (by rw [hend]; decide)

theorem options_parsed_in_bounds_timestamp :
    ((tcpParseOptions 66 13).run (headerWith 8 timestampOptions)).isSome = true ∧
      (tcpParseOptions 66 13).run (headerWith 8 timestampOptions) =
        some (some { ts := some 0 }) ∧
      PointersValid fastSizes (optionBytes (headerWith 8 timestampOptions)) 12
        { ts := some 0 } := by
  have hexact := (options_parsed_in_bounds (headerWith 8 timestampOptions) 66 (by decide)
    (by decide)).1
  have hrun : (tcpParseOptions 66 13).run (headerWith 8 timestampOptions) =
      some (some { ts := some 0 }) := by decide
  refine ⟨hexact.returns ?_, hrun, hexact.pointers.mpr ?_ 13 _ hrun⟩
  · intro off hoff _
    rw [timestampOptions_at hoff]
    decide
  · intro off hoff _
    rw [timestampOptions_at hoff]
    decide

/-- Neither parser returns on an option of length zero, and both return a pointer to a cut
timestamp. -/
theorem options_loop_or_cut :
    (∀ fuel, (tcpParseOptions 58 fuel).run (headerWith 6 [5, 0, 0, 0]) = none ∧
        (slowParseOptions 58 fuel).run (headerWith 6 [5, 0, 0, 0]) = none) ∧
      (tcpParseOptions 58 5).run (headerWith 6 [1, 1, 8, 10]) = some (some { ts := some 2 }) ∧
      (slowParseOptions 58 5).run (headerWith 6 [1, 1, 8, 10]) = some (some { ts := some 2 }) ∧
      ¬PointersValid fastSizes (optionBytes (headerWith 6 [1, 1, 8, 10])) 4 { ts := some 2 } := by
  refine ⟨fun fuel => ⟨?_, ?_⟩, by decide, by decide, ?_⟩
  · exact optionLoop_stays ⟨⟨{}, .start⟩, by decide, by decide, by decide⟩ (by decide) (by decide)
      fuel
  · exact optionLoop_stays ⟨⟨{}, .start⟩, by decide, by decide, by decide⟩ (by decide) (by decide)
      fuel
  · intro h
    exact absurd (h 8 2 rfl).2.2 (by decide)

/-- `fast_flows_packet_parse` for one frame with a flow: whether the flow stays. All conditions are
evaluated. -/
def fastFlowsPacketParse (len : UInt16) (fuel : ℕ) : MemScan UInt8 (Option Bool) := do
  let ethType ← beui16 12
  let proto ← cell 23
  let vHl ← cell 14
  let hdrlen ← tcphHdrlen
  let ipLen ← ipLen
  let parsed ← tcpParseOptions len fuel
  pure (parsed.map fun opts =>
    !(decide (len.toNat < pktTcpSize) || ethType != 0x0800 || proto != 6 || vHl >>> 4 != 4 ||
      vHl &&& 0x0F != 5 || decide (hdrlen < 5) || decide (len.toNat < ipLen + 14) ||
      (opts.bind TcpOpts.ts).isNone))

/-- `tcp_extra_hlen` of `fast_flows_packet`. -/
def tcpExtraHlen (hdrlen : ℕ) : ℕ := (hdrlen - 5) * 4

def payloadOff (hdrlen : ℕ) : ℕ := pktTcpSize + tcpExtraHlen hdrlen

def payloadBytesOf (ipLen hdrlen : ℕ) : UInt32 :=
  UInt32.ofNat ipLen - UInt32.ofNat (40 + tcpExtraHlen hdrlen)

theorem fastFlowsPacketParse_kept {mem : ℕ → UInt8} {len : UInt16} {fuel : ℕ}
    (h : (fastFlowsPacketParse len fuel).run mem = some true) :
    pktTcpSize ≤ len.toNat ∧ 5 ≤ tcphHdrlen.run mem ∧ ipLen.run mem + 14 ≤ len.toNat := by
  unfold fastFlowsPacketParse at h
  simp only [MemScan.run_bind, MemScan.run_pure, Option.map_eq_some_iff] at h
  obtain ⟨opts, -, hkept⟩ := h
  simp only [Bool.not_eq_true', Bool.or_eq_false_iff, decide_eq_false_iff_not, not_lt] at hkept
  omega

theorem fastFlowsPacketParse_trace (mem : ℕ → UInt8) (len : UInt16) (fuel : ℕ) :
    (fastFlowsPacketParse len fuel).trace mem =
      [12, 13, 23, 14, 46, 47, 16, 17] ++ (tcpParseOptions len fuel).trace mem := by
  unfold fastFlowsPacketParse
  simp only [MemScan.trace_bind, MemScan.trace_pure, List.append_nil]
  rfl

/-- The fields up to the TCP header length end at 48. Options are read behind the header, also
from a shorter frame, whose length behind the header wraps. -/
theorem fastFlowsPacketParse_reads (mem : ℕ → UInt8) (len : UInt16) (fuel : ℕ) :
    (∀ i ∈ (fastFlowsPacketParse len (fuel + 1)).trace mem, i < len.toNat) ↔
      pktTcpSize ≤ len.toNat ∨ 48 ≤ len.toNat ∧ tcphHdrlen.run mem ≤ 5 := by
  rw [fastFlowsPacketParse_trace]
  constructor
  · intro hreads
    have hfield : 47 < len.toNat := hreads 47 (by simp)
    by_contra hcon
    have hlt := len.toNat_lt
    have hroom : ¬(tcphHdrlen.run mem < 5 ∨ optsLen (tcphHdrlen.run mem) > behindHeader len) := by
      have hhdr : tcphHdrlen.run mem < 16 := by
        have h₁ := (mem 46).toNat_lt
        have h₂ := (mem 47).toNat_lt
        exact Nat.div_lt_of_lt_mul (show 256 * (mem 46).toNat + (mem 47).toNat < _ by omega)
      unfold optsLen behindHeader pktTcpSize at *
      omega
    have hoption : pktTcpSize ∈ (tcpParseOptions len (fuel + 1)).trace mem := by
      unfold tcpParseOptions parseTcpOptions
      rw [MemScan.trace_bind, if_neg hroom, optionLoop,
        if_pos (by unfold optsLen; omega), MemScan.trace_bind]
      simp
    have := hreads pktTcpSize (List.mem_append_right _ hoption)
    omega
  · intro hlen i hi
    rcases List.mem_append.mp hi with hi | hi
    · simp only [List.mem_cons, List.not_mem_nil, or_false] at hi
      unfold pktTcpSize at hlen
      omega
    rcases hlen with hlen | ⟨hlen, hshort⟩
    · exact parseTcpOptions_reads fastSizes hlen hi
    · unfold tcpParseOptions parseTcpOptions at hi
      rw [MemScan.trace_bind] at hi
      have htrace : tcphHdrlen.trace mem = [46, 47] := rfl
      rcases List.mem_append.mp hi with hi | hi
      · rw [htrace, List.mem_pair] at hi
        omega
      split at hi
      · cases hi
      · rw [optionLoop, if_neg (by unfold optsLen; omega)] at hi
        cases hi

/-- The bytes read are in the frame exactly if it has the whole header, or one without options up
to the header length. The payload of a kept packet is in it exactly if the IP length covers the
headers. -/
theorem packet_parsed_in_frame (mem : ℕ → UInt8) (len : UInt16) (fuel : ℕ) :
    ((∀ i ∈ (fastFlowsPacketParse len (fuel + 1)).trace mem, i < len.toNat) ↔
        pktTcpSize ≤ len.toNat ∨ 48 ≤ len.toNat ∧ tcphHdrlen.run mem ≤ 5) ∧
      ((fastFlowsPacketParse len (fuel + 1)).run mem = some true →
        ((payloadBytesOf (ipLen.run mem) (tcphHdrlen.run mem)).toNat +
              (40 + tcpExtraHlen (tcphHdrlen.run mem)) = ipLen.run mem ∧
            payloadOff (tcphHdrlen.run mem) +
              (payloadBytesOf (ipLen.run mem) (tcphHdrlen.run mem)).toNat ≤ len.toNat ↔
          40 + tcpExtraHlen (tcphHdrlen.run mem) ≤ ipLen.run mem)) := by
  refine ⟨fastFlowsPacketParse_reads mem len fuel, fun hkept => ⟨fun h => by omega, ?_⟩⟩
  intro hcovers
  obtain ⟨-, -, hip⟩ := fastFlowsPacketParse_kept hkept
  have hlen := len.toNat_lt
  have htotal : (UInt32.ofNat (ipLen.run mem)).toNat = ipLen.run mem :=
    UInt32.toNat_ofNat_of_lt' (by unfold UInt32.size; omega)
  have hheaders : (UInt32.ofNat (40 + tcpExtraHlen (tcphHdrlen.run mem))).toNat =
      40 + tcpExtraHlen (tcphHdrlen.run mem) :=
    UInt32.toNat_ofNat_of_lt' (by unfold UInt32.size; omega)
  have hbytes : (payloadBytesOf (ipLen.run mem) (tcphHdrlen.run mem)).toNat =
      ipLen.run mem - (40 + tcpExtraHlen (tcphHdrlen.run mem)) := by
    rw [payloadBytesOf, Word.sub_toNat (by omega), htotal, hheaders]
  unfold payloadOff pktTcpSize
  omega

/-- An Ethernet frame of total IP length `total` and a TCP header with a timestamp. -/
def tcpFrame (total : UInt8) : ℕ → UInt8 := fun i =>
  if i = 12 then 8 else if i = 14 then 0x45 else if i = 17 then total else if i = 23 then 6
  else headerWith 8 timestampOptions i

/-- A frame of 70 bytes with four bytes of payload. -/
theorem packet_parsed_in_frame_fourBytes :
    (fastFlowsPacketParse 70 13).run (tcpFrame 56) = some true ∧
      (payloadBytesOf 56 8).toNat = 4 ∧ payloadOff 8 + 4 ≤ (70 : UInt16).toNat := by
  have hkept : (fastFlowsPacketParse 70 13).run (tcpFrame 56) = some true := by decide
  have hpayload := ((packet_parsed_in_frame (tcpFrame 56) 70 12).2 hkept).mpr (by decide)
  exact ⟨hkept, Nat.add_right_cancel hpayload.1, hpayload.2⟩

/-- A frame of IP length twenty is kept, with the payload length twenty minus fifty-two. -/
theorem packet_length_wraps :
    ((fastFlowsPacketParse 70 13).run (tcpFrame 20) = some true ∧
        ipLen.run (tcpFrame 20) = 20 ∧ tcphHdrlen.run (tcpFrame 20) = 8 ∧
        payloadBytesOf 20 8 = 4294967264) ∧
      ¬∀ i ∈ (fastFlowsPacketParse 20 13).trace (tcpFrame 56), i < (20 : UInt16).toNat := by
  decide

end StackBench.Tas
