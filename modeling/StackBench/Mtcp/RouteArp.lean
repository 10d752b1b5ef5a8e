import Mathlib.Data.Finset.Card

/-!
# Routes and ARP entries of mTCP

`GetOutputInterface` stops at the first route that matches, so the routes have to stand in order.
`RegisterARPEntry` does not compare the number of entries with the length of the table.
-/

namespace StackBench.Mtcp

open List

/-- An entry of `rtable`. -/
structure RtableEntry where
  mask : UInt32
  masked : UInt32
  prefixLen : ℕ
  nif : ℤ
deriving DecidableEq

def RtableEntry.matches (r : RtableEntry) (daddr : UInt32) : Bool := daddr &&& r.mask == r.masked

structure RouteTable where
  rtable : List RtableEntry
  gateway : Option RtableEntry

/-- `MaskFromPrefix`. An address in network order has its first byte in the low bits. -/
def maskFromPrefix (len : ℕ) : UInt32 :=
  (range 4).foldl (fun mask i =>
    (range 8).foldl (fun mask j =>
      if i ≤ len / 8 ∧ i * 8 + j < len then mask ||| 1 <<< UInt32.ofNat (i * 8 + (7 - j))
      else mask) mask) 0

namespace RouteTable

variable {t t' : RouteTable} {daddr : UInt32}

/-- `GetOutputInterface` with `is_external`; `none` is a failed `assert`. -/
def getOutputInterface (t : RouteTable) (daddr : UInt32) : Option (ℤ × Bool) :=
  let out : ℤ × Bool :=
    -- the loop is left at the first match
    match t.rtable.find? (·.matches daddr), t.gateway with
    | none, _ => (-1, false)
    | some r, gateway =>
      if 0 < r.prefixLen then (r.nif, false)
      else (gateway.map fun g => (g.nif, true)).getD (-1, false)
  if out.1 < 0 then none else some out

section

variable {r : RtableEntry} (hfind : t.rtable.find? (·.matches daddr) = some r)
include hfind

end

end RouteTable

/-- An entry of the ARP table. -/
structure ArpEntry where
  ip : UInt32
  prefixLen : ℤ
  ipMask : UInt32
  ipMasked : UInt32
  haddr : List UInt8

/-- A line of the file of ARP entries. -/
structure ArpLine where
  ip : UInt32
  prefixLen : ℤ
  haddr : List UInt8

def maxArpentry : ℕ := 1024

/-- The entries and the one of the gateway. `outside`: an entry was written behind the table. -/
structure ArpTable where
  entry : List ArpEntry
  gateway : Option ArpEntry
  outside : Bool

/-- `toMe`: the target `ar_tip` is an address of an interface. -/
structure ArpPacket where
  toMe : Bool
  op : UInt16
  sip : UInt32
  sha : List UInt8

/-- It is a request or a reply. -/
def ArpPacket.learned (p : ArpPacket) : Bool := p.toMe && (p.op == 1 || p.op == 2)

namespace ArpTable

variable {gw : Option UInt32} {t : ArpTable} {dip : UInt32} {p : ArpPacket}
  {base es : List ArpEntry} {ips : Finset UInt32}

/-- `InitARPTable`. -/
def init : ArpTable := ⟨[], none, false⟩

/-- The loop of `GetDestinationHWaddr`. -/
def search (dip : UInt32) : List ArpEntry → ℤ → Option (List UInt8) → Option (List UInt8)
  | [], _, found => found
  | e :: es, best, found =>
    if e.prefixLen = 1 then
      if e.ip = dip then some e.haddr else search dip es best found
    else if dip &&& e.ipMask = e.ipMasked ∧ best < e.prefixLen then
      search dip es e.prefixLen (some e.haddr)
    else search dip es best found

def getDestinationHWaddr (t : ArpTable) (dip : UInt32) (isGateway : Bool) : Option (List UInt8) :=
  match isGateway, t.gateway with
  | true, some g => some g.haddr
  | _, _ => search dip t.entry 0 none

/-- An entry is written behind the others; `gw` is the address of `CONFIG.gateway`. -/
def append (gw : Option UInt32) (t : ArpTable) (e : ArpEntry) : ArpTable where
  entry := t.entry ++ [e]
  gateway := if gw.any fun daddr => daddr &&& e.ipMask = e.ipMasked then some e else t.gateway
  outside := t.outside || decide (maxArpentry ≤ t.entry.length)

/-- `EnrollARPTableEntry`. -/
def enrollARPTableEntry (gw : Option UInt32) (t : ArpTable) (l : ArpLine) : ArpTable :=
  if 32 < l.prefixLen ∨ l.prefixLen < 0 then t
  else
    let mask := maskFromPrefix l.prefixLen.toNat
    t.append gw ⟨l.ip, l.prefixLen, mask, l.ip &&& mask, l.haddr⟩

/-- `LoadARPTable`. -/
def loadARPTable (gw : Option UInt32) (lines : List ArpLine) : ArpTable :=
  lines.foldl (enrollARPTableEntry gw) init

def registerARPEntry (gw : Option UInt32) (t : ArpTable) (ip : UInt32) (haddr : List UInt8) :
    ArpTable :=
  t.append gw ⟨ip, 32, -1, ip, haddr⟩

/-- `ProcessARPPacket`: `ProcessARPRequest` and `ProcessARPReply` learn the sender alike. -/
def processARPPacket (gw : Option UInt32) (t : ArpTable) (p : ArpPacket) : ArpTable :=
  if p.learned then
    if t.getDestinationHWaddr p.sip false = none then t.registerARPEntry gw p.sip p.sha else t
  else t

/-- The table after the packets `ps`. -/
def run (gw : Option UInt32) (t : ArpTable) (ps : List ArpPacket) : ArpTable :=
  ps.foldl (processARPPacket gw) t

/-- An entry was written behind the table exactly if there are too many. -/
def Counted (t : ArpTable) : Prop := t.outside = decide (maxArpentry < t.entry.length)

theorem Counted.append (h : t.Counted) (e : ArpEntry) : (t.append gw e).Counted := by
  grind [Counted, ArpTable.append]

theorem counted_loadARPTable (gw : Option UInt32) (lines : List ArpLine) :
    (loadARPTable gw lines).Counted := by
  refine foldlRecOn lines _ (motive := Counted) rfl fun t h l _ => ?_
  unfold enrollARPTableEntry
  split
  · exact h
  · exact h.append _

/-- Behind `base` there is one entry of `RegisterARPEntry` for each of the addresses that is not
found in `base`. -/
structure Learned (base es : List ArpEntry) (ips : Finset UInt32) (t : ArpTable) : Prop where
  entry : t.entry = base ++ es
  host : ∀ e ∈ es, e.prefixLen = 32 ∧ e.ipMask = -1 ∧ e.ipMasked = e.ip
  nodup : (es.map (·.ip)).Nodup
  ips : (es.map (·.ip)).toFinset = ips.filter (search · base 0 none = none)
  counted : t.Counted

/-- Entries for other hosts are passed. -/
theorem search_host (hes : ∀ e ∈ es, e.prefixLen = 32 ∧ e.ipMask = -1 ∧ e.ipMasked = e.ip)
    (hdip : dip ∉ es.map (·.ip)) (base : List ArpEntry) (best : ℤ) (found : Option (List UInt8)) :
    search dip (base ++ es) best found = search dip base best found := by
  induction base generalizing best found with
  | nil =>
    rw [nil_append]
    induction es with
    | nil => rfl
    | cons e es ih =>
      obtain ⟨hlen, hmask, hmasked⟩ := hes e mem_cons_self
      rw [map_cons, mem_cons, not_or] at hdip
      rw [← ih (fun e he => hes e (mem_cons_of_mem _ he)) hdip.2, search, hlen, hmask, hmasked,
        if_neg (by decide), if_neg]
      rw [UInt32.and_neg_one]
      exact fun h => hdip.1 h.1
  | cons e base ih => simp only [cons_append, search, ih]

theorem search_some (haddr : List UInt8) (es : List ArpEntry) (best : ℤ) :
    search dip es best (some haddr) ≠ none := by
  induction es generalizing best haddr with
  | nil => simp [search]
  | cons e es ih =>
    unfold search
    split_ifs
    · simp
    all_goals exact ih _ _

/-- An address is not found if no part of the table has it. -/
theorem search_append_none (dip : UInt32) (base es : List ArpEntry) (best : ℤ) :
    search dip (base ++ es) best none = none ↔
      search dip base best none = none ∧ search dip es best none = none := by
  induction base with
  | nil => simp [search]
  | cons e base ih =>
    simp only [cons_append, search]
    split_ifs
    · simp
    · exact ih
    · simp [search_some]
    · exact ih

theorem Learned.get_eq_none (h : t.Learned base es ips) :
    t.getDestinationHWaddr dip false = none ↔
      search dip base 0 none = none ∧ dip ∉ es.map (·.ip) := by
  change search dip t.entry 0 none = none ↔ _
  rw [h.entry, search_append_none]
  refine and_congr_right fun _ => ⟨fun hnone hmem => ?_, fun hdip => search_host h.host hdip [] 0 _⟩
  obtain ⟨e, he, rfl⟩ := mem_map.mp hmem
  obtain ⟨as, bs, rfl⟩ := append_of_mem he
  obtain ⟨hlen, hmask, hmasked⟩ := h.host e he
  have hrest := ((search_append_none _ as (e :: bs) 0).mp hnone).2
  rw [search, hlen, hmask, hmasked, if_neg (by decide), UInt32.and_neg_one, if_pos (by simp)]
    at hrest
  exact search_some _ _ _ hrest

section

variable (h : t.Learned base es ips) {ip : UInt32}
include h

theorem Learned.registerARPEntry (hbase : search ip base 0 none = none)
    (hip : ip ∉ es.map (·.ip)) (haddr : List UInt8) :
    (t.registerARPEntry gw ip haddr).Learned base (es ++ [⟨ip, 32, -1, ip, haddr⟩])
      (ips ∪ {ip}) where
  entry := by simp [ArpTable.registerARPEntry, append, h.entry]
  host e he := by
    rcases mem_append.mp he with he | he
    · exact h.host e he
    · rw [mem_singleton.mp he]
      exact ⟨rfl, rfl, rfl⟩
  nodup := by simpa [nodup_append, h.nodup] using hip
  ips := by
    rw [Finset.filter_union, Finset.filter_singleton, if_pos hbase, ← h.ips, map_append,
      toFinset_append]
    rfl
  counted := h.counted.append _

/-- An address that is found is not learned. -/
theorem Learned.filter_union (hsome : ¬t.getDestinationHWaddr ip false = none) :
    (ips ∪ {ip}).filter (search · base 0 none = none) =
      ips.filter (search · base 0 none = none) := by
  rw [h.get_eq_none, not_and, not_not] at hsome
  rw [Finset.filter_union, Finset.union_eq_left, ← h.ips]
  intro ip' hip'
  obtain ⟨hmem, hbase⟩ := Finset.mem_filter.mp hip'
  cases Finset.mem_singleton.mp hmem
  exact mem_toFinset.mpr (hsome hbase)

theorem Learned.length_eq : t.entry.length =
    base.length + (ips.filter (search · base 0 none = none)).card := by
  rw [h.entry, length_append, ← h.ips, toFinset_card_of_nodup h.nodup, length_map]

end

/-- The senders that are learned. -/
def senders (ps : List ArpPacket) : Finset UInt32 := ((ps.filter (·.learned)).map (·.sip)).toFinset

theorem learned_run (gw : Option UInt32) (h : t.Counted) (ps : List ArpPacket) :
    ∃ es, (run gw t ps).Learned t.entry es (senders ps) := by
  induction ps using reverseRecOn with
  | nil => exact ⟨[], (append_nil _).symm, nofun, nodup_nil, rfl, h⟩
  | append_singleton ps p ih =>
    obtain ⟨es, ih⟩ := ih
    have hsenders : senders (ps ++ [p]) = senders ps ∪ if p.learned then {p.sip} else ∅ := by
      cases hp : p.learned <;> simp [senders, hp]
    rw [run, foldl_append, foldl_cons, foldl_nil, ← run, processARPPacket, hsenders]
    split
    · split
      · next hnone =>
        exact ⟨_, ih.registerARPEntry (ih.get_eq_none.mp hnone).1 (ih.get_eq_none.mp hnone).2 _⟩
      · next hsome => exact ⟨es, { ih with ips := ih.ips.trans (ih.filter_union hsome).symm }⟩
    · exact ⟨es, by rwa [Finset.union_empty]⟩

/-- If there are no more senders than entries behind those of the file, no entry is written behind
the table, and an address that was found is found again. -/
theorem arp_table_bounded (gw : Option UInt32) (lines : List ArpLine) (ps more : List ArpPacket)
    (hsenders : (loadARPTable gw lines).entry.length + (senders (ps ++ more)).card ≤
      maxArpentry) :
    let t := loadARPTable gw lines
    (run gw t (ps ++ more)).entry.length ≤ maxArpentry ∧
      (run gw t (ps ++ more)).outside = false ∧
      ∀ ip haddr, (run gw t ps).getDestinationHWaddr ip false = some haddr →
        (run gw t (ps ++ more)).getDestinationHWaddr ip false = some haddr := by
  intro t
  have hload := counted_loadARPTable gw lines
  obtain ⟨es, hrun⟩ : ∃ es, (run gw t (ps ++ more)).Learned t.entry es _ :=
    learned_run gw hload (ps ++ more)
  have hlength : (run gw t (ps ++ more)).entry.length ≤ maxArpentry := by
    rw [hrun.length_eq]
    exact (Nat.add_le_add_left (Finset.card_filter_le _ _) _).trans hsenders
  refine ⟨hlength, ?_, fun ip haddr hfound => ?_⟩
  · rw [hrun.counted, decide_eq_false (by omega)]
  · obtain ⟨_, hps⟩ := learned_run gw hload ps
    obtain ⟨new, hmore⟩ := learned_run gw hps.counted more
    have hnew : ip ∉ new.map (·.ip) := by
      intro hmem
      rw [← mem_toFinset, hmore.ips, Finset.mem_filter] at hmem
      cases hfound.symm.trans hmem.2
    rw [run, foldl_append, ← run, ← run]
    change search ip (run gw (run gw t ps) more).entry 0 none = some haddr
    rw [hmore.entry, search_host hmore.host hnew]
    exact hfound

def requestFrom (ip : UInt32) : ArpPacket := ⟨true, 1, ip, [0, 0, 0, 0, 0, 0]⟩

theorem arp_table_bounded_three :
    (run none (loadARPTable none [⟨9, 32, [1, 1, 1, 1, 1, 1]⟩])
      ([requestFrom 1, requestFrom 2] ++ [requestFrom 9, requestFrom 3])).getDestinationHWaddr 2
        false = some [0, 0, 0, 0, 0, 0] :=
  (arp_table_bounded none [⟨9, 32, [1, 1, 1, 1, 1, 1]⟩] [requestFrom 1, requestFrom 2]
    [requestFrom 9, requestFrom 3] (by decide)).2.2 2 _ (by decide)

/-- Requests of 1025 senders fill the table and one entry more. -/
theorem arp_table_overflows :
    (run none init ((range 1025).map (requestFrom ∘ UInt32.ofNat))).outside = true := by
  obtain ⟨es, hrun⟩ := learned_run none (rfl : init.Counted)
    ((range 1025).map (requestFrom ∘ UInt32.ofNat))
  have hnodup : ((range 1025).map UInt32.ofNat).Nodup := by
    refine nodup_range.map_on fun a ha b hb heq => ?_
    rw [mem_range] at ha hb
    have hnat := congrArg UInt32.toNat heq
    rw [UInt32.toNat_ofNat', UInt32.toNat_ofNat'] at hnat
    omega
  have hsips : ((range 1025).map (requestFrom ∘ UInt32.ofNat)).map (·.sip) =
      (range 1025).map UInt32.ofNat := map_map
  rw [hrun.counted, hrun.length_eq, Finset.filter_true_of_mem (by simp [init, search]),
    senders, filter_eq_self.mpr (by simp [requestFrom, ArpPacket.learned]), hsips,
    toFinset_card_of_nodup hnodup, length_map, length_range]
  exact decide_eq_true (by unfold maxArpentry; omega)

end ArpTable

end StackBench.Mtcp
