import StackBench.Lib.Run
import StackBench.Mtcp.SeqNum

/-!
# Source addresses of mTCP connections

`mtcp_connect` fetches a source address from the pool of the route to the
destination, and `DestroyTCPStream` gives it back to the pool of the route to
the source address. A pool counts its free and its used entries.
-/

namespace StackBench.Mtcp

open Function List

/-- An IPv4 address and a port; zero stands for any. -/
structure SockAddr where
  ip : UInt32
  port : UInt16
deriving DecidableEq, Inhabited

/-- `struct addr_pool`. The array `pool` is `entries`, and `mapper` finds an entry
of it by its address. -/
structure AddrPool where
  entries : List SockAddr
  addrBase : UInt32
  numAddr : ℕ
  numEntry : ℤ
  numFree : ℤ
  numUsed : ℤ
  freeList : List SockAddr
  usedList : List SockAddr
  /-- An entry was taken off a list that it is not on. -/
  corrupt : Bool

/-- The constants `MIN_PORT` and `MAX_PORT`. -/
structure PortRange where
  minPort : ℕ
  maxPort : ℕ

/-- The addresses that the loops of `CreateAddressPool` run through. -/
def poolAddresses (ports : PortRange) (addrBase : UInt32) (numAddr : ℕ) : List SockAddr :=
  (List.range numAddr).flatMap fun i =>
    (List.range (ports.maxPort - ports.minPort)).map fun j =>
      ⟨addrBase + UInt32.ofNat i, UInt16.ofNat (ports.minPort + j)⟩

def AddrPool.ofEntries (entries : List SockAddr) (addrBase : UInt32) (numAddr : ℕ) : AddrPool where
  entries := entries
  addrBase := addrBase
  numAddr := numAddr
  numEntry := entries.length
  numFree := entries.length
  numUsed := 0
  freeList := entries
  usedList := []
  corrupt := false

def createAddressPool (ports : PortRange) (addrBase : UInt32) (numAddr : ℕ) : AddrPool :=
  .ofEntries (poolAddresses ports addrBase numAddr) addrBase numAddr

/-- `CreateAddressPoolPerCore`; `rss` tells whether the packets of a connection come to the core. -/
def createAddressPoolPerCore (ports : PortRange) (numQueues : ℕ) (rss : SockAddr → Bool)
    (addrBase : UInt32) (numAddr : ℕ) : AddrPool :=
  let numEntry := numAddr * (ports.maxPort - ports.minPort) / numQueues
  .ofEntries (((poolAddresses ports addrBase numAddr).filter rss).take numEntry) addrBase numAddr

namespace AddrPool

/-- The first free entry that passes the test goes to the used ones. -/
def take (p : AddrPool) (test : SockAddr → Bool) : Option (SockAddr × AddrPool) :=
  (p.freeList.find? test).map fun a =>
    (a, { p with
      freeList := p.freeList.erase a
      usedList := p.usedList ++ [a]
      numFree := p.numFree - 1
      numUsed := p.numUsed + 1 })

/-- `FetchAddress`. The socket may be bound, and `rss` tells whether the packets come to the core.
-/
def fetchAddress (p : AddrPool) (want : SockAddr) (rss : SockAddr → Bool) :
    Option (SockAddr × AddrPool) :=
  p.take fun a =>
    (want.ip == 0 || a.ip == want.ip) && (want.port == 0 || a.port == want.port) && rss a

def fetchAddressPerCore (p : AddrPool) : Option (SockAddr × AddrPool) := p.take fun _ => true

def mapped (p : AddrPool) (a : SockAddr) : Bool :=
  let index := int32 (a.ip - p.addrBase)
  decide (0 ≤ index) && decide (index < p.numAddr) && decide (a ∈ p.entries)

def freeAddress (p : AddrPool) (a : SockAddr) : AddrPool :=
  if p.mapped a then
    { p with
      usedList := p.usedList.erase a
      freeList := p.freeList ++ [a]
      numFree := p.numFree + 1
      numUsed := p.numUsed - 1
      corrupt := p.corrupt || decide (a ∉ p.usedList) }
  else p

end AddrPool

structure Route where
  mask : UInt32
  masked : UInt32
  prefixLen : ℕ
  nif : ℕ

/-- Interfaces and routes of `CONFIG`, the core of the manager, and which core gets the packets. -/
structure AddrConfig where
  ports : PortRange
  /-- `eths[i].ip_addr`. -/
  eths : List UInt32
  nifToEidx : ℕ → ℤ
  rtable : List Route
  /-- The interface of the gateway. -/
  gateway : Option ℕ
  core : ℕ
  rssCore : SockAddr → SockAddr → ℕ

/-- The arguments of `mtcp_init_rss`, and the addresses whose packets come to the
core. -/
structure RssInit where
  numQueues : ℕ
  isOurs : SockAddr → Bool
  saddrBase : UInt32
  numAddr : ℕ

variable (cfg : AddrConfig)

/-- `GetOutputInterface`; without a route it aborts. -/
def AddrConfig.getOutputInterface (daddr : UInt32) : Option ℕ :=
  match cfg.rtable.find? fun r => daddr &&& r.mask == r.masked with
  | none => none
  | some r => if 0 < r.prefixLen then some r.nif else cfg.gateway

inductive PoolId where
  /-- The pool of the core, made by `mtcp_init_rss`. -/
  | core
  /-- `ap[i]`. -/
  | eth (i : ℕ)
deriving DecidableEq

structure AddrSocket where
  addrBind : Bool
  saddr : SockAddr
  /-- There is a stream. -/
  stream : Bool

/-- The source address of a stream. The pool it was fetched from is not in the source. -/
structure AddrStream where
  id : ℕ
  saddr : SockAddr
  isBoundAddr : Bool
  fetchedFrom : Option PoolId
deriving DecidableEq

structure AddrWorld where
  /-- `mtcp->ap`. -/
  corePool : Option AddrPool
  /-- `ap`, with `none` for `NULL`. -/
  ethPools : ℕ → Option AddrPool
  sockets : ℕ → Option AddrSocket
  /-- The streams that were created and not destroyed. -/
  streams : List AddrStream
  nextId : ℕ
  aborted : Bool

namespace AddrWorld

variable (w : AddrWorld)

def pool : PoolId → Option AddrPool
  | .core => w.corePool
  | .eth i => w.ethPools i

def setPool (id : PoolId) (p : AddrPool) : AddrWorld :=
  match id with
  | .core => { w with corePool := some p }
  | .eth i => { w with ethPools := update w.ethPools i (some p) }

/-- `mtcp_init` with one pool for each interface, and `mtcp_init_rss` if the
application calls it. -/
def start (rss : Option RssInit) : AddrWorld where
  corePool := rss.map fun r =>
    createAddressPoolPerCore cfg.ports r.numQueues r.isOurs r.saddrBase r.numAddr
  ethPools i := cfg.eths[i]?.map fun ip => createAddressPool cfg.ports ip 1
  sockets _ := none
  streams := []
  nextId := 0
  aborted := false

def addStream (saddr : SockAddr) (fetchedFrom : Option PoolId) : AddrWorld :=
  let st : AddrStream := ⟨w.nextId, saddr, fetchedFrom.isSome, fetchedFrom⟩
  { w with streams := w.streams ++ [st], nextId := w.nextId + 1 }

def setSocket (sock : ℕ) (s : Option AddrSocket) : AddrWorld :=
  { w with sockets := update w.sockets sock s }

/-- `CreateTCPStream` for a connect, which may find no memory. -/
def createStream (sock : ℕ) (s : AddrSocket) (fetchedFrom : Option PoolId)
    (created : Bool) : AddrWorld :=
  if created then (w.setSocket sock (some { s with stream := true })).addStream s.saddr fetchedFrom
  else w.setSocket sock (some s)

/-- A connect that fetches its address from the pool `id`. -/
def connectFrom (sock : ℕ) (s : AddrSocket) (id : PoolId)
    (fetched : Option (SockAddr × AddrPool)) (created : Bool) : AddrWorld :=
  match fetched with
  | none => w
  | some (a, p) =>
    (w.setPool id p).createStream sock { s with saddr := a, addrBind := true } (some id) created

/-- `mtcp_connect`. A stream that does not fit into the connect queue goes to the destroy queue. -/
def connect (w : AddrWorld) (sock : ℕ) (dst : SockAddr) (created : Bool) : AddrWorld :=
  match w.sockets sock with
  | none => w
  | some s =>
    if s.stream then w
    else if s.addrBind && s.saddr.port != 0 && s.saddr.ip != 0 then
      if cfg.rssCore s.saddr dst = cfg.core then w.createStream sock s none created else w
    else match w.corePool with
      | some p => w.connectFrom sock s .core p.fetchAddressPerCore created
      | none =>
        match cfg.getOutputInterface dst.ip with
        | none => { w with aborted := true }
        | some nif =>
          match w.ethPools nif with
          | none => w
          | some p =>
            w.connectFrom sock s (.eth nif)
              (p.fetchAddress s.saddr fun a => cfg.rssCore a dst == cfg.core) created

/-- The end of `DestroyTCPStream`: the address goes back. -/
def giveBack (w : AddrWorld) (a : SockAddr) : AddrWorld :=
  match w.corePool with
  | some p => { w with corePool := some (p.freeAddress a) }
  | none =>
    match cfg.getOutputInterface a.ip with
    | none => { w with aborted := true }
    | some nif =>
      let eidx := cfg.nifToEidx nif
      if eidx < 0 then { w with aborted := true }
      else match w.ethPools eidx.toNat with
        | none => w
        | some p => w.setPool (.eth eidx.toNat) (p.freeAddress a)

/-- `DestroyTCPStream`, for a stream that exists. -/
def destroy (w : AddrWorld) (id : ℕ) : AddrWorld :=
  match w.streams.find? (·.id == id) with
  | none => w
  | some st =>
    let w := { w with streams := w.streams.erase st }
    if st.isBoundAddr then w.giveBack cfg st.saddr else w

end AddrWorld

inductive AddrOp where
  /-- `mtcp_socket` returns `sock`. -/
  | socket (sock : ℕ)
  | bind (sock : ℕ) (a : SockAddr)
  /-- `created` tells whether `CreateTCPStream` succeeds. -/
  | connect (sock : ℕ) (dst : SockAddr) (created : Bool)
  /-- `mtcp_close` or `mtcp_abort`: the socket is free again. -/
  | close (sock : ℕ)
  /-- A stream is created for a segment with SYN. -/
  | passiveOpen (saddr : SockAddr)
  | destroy (id : ℕ)

namespace AddrWorld

def step (w : AddrWorld) (op : AddrOp) : AddrWorld :=
  if w.aborted then w
  else match op with
    | .socket sock => w.setSocket sock (some ⟨false, ⟨0, 0⟩, false⟩)
    | .bind sock a =>
      match w.sockets sock with
      | none => w
      | some s =>
        if s.addrBind then w
        else w.setSocket sock (some { s with saddr := a, addrBind := true })
    | .connect sock dst created => w.connect cfg sock dst created
    | .close sock => w.setSocket sock none
    | .passiveOpen saddr => w.addStream saddr none
    | .destroy id => w.destroy cfg id

/-- `CreateTCPStream` succeeds in `mtcp_connect`. -/
def Ok (_ : AddrWorld) : AddrOp → Prop
  | .connect _ _ created => created = true
  | _ => True

instance (w : AddrWorld) : DecidablePred w.Ok := fun op => by
  cases op <;> dsimp only [Ok] <;> infer_instance

def held (w : AddrWorld) (id : PoolId) : List SockAddr :=
  (w.streams.filter fun st => st.fetchedFrom = some id).map AddrStream.saddr

/-- Every address of a pool is free or held by the one stream that fetched it there, as counted. -/
structure Conserved (w : AddrWorld) : Prop where
  counters : ∀ id p, w.pool id = some p →
    p.numFree + p.numUsed = p.numEntry ∧ p.numUsed = (w.held id).length
  lists : ∀ id p, w.pool id = some p →
    (p.freeList ++ p.usedList).Nodup ∧ (p.freeList ++ p.usedList).Perm p.entries ∧
      p.usedList.Perm (w.held id) ∧ p.corrupt = false
  once : ((w.streams.filter (·.isBoundAddr)).map AddrStream.saddr).Nodup

end AddrWorld

variable {addrBase : UInt32}

namespace AddrPool

variable {p p' : AddrPool} {a : SockAddr}

/-- The lists split the entries, and the counters count. -/
structure Inv (p : AddrPool) : Prop where
  nodup : p.entries.Nodup
  split : (p.freeList ++ p.usedList).Perm p.entries
  numEntry : p.numEntry = p.entries.length
  numFree : p.numFree = p.freeList.length
  numUsed : p.numUsed = p.usedList.length
  mapped : ∀ a ∈ p.entries, p.mapped a = true
  clean : p.corrupt = false

theorem Inv.mem_entries (h : p.Inv) (ha : a ∈ p.usedList) : a ∈ p.entries :=
  h.split.mem_iff.mp (mem_append_right _ ha)

theorem Inv.take (h : p.Inv) {test : SockAddr → Bool} (htake : p.take test = some (a, p')) :
    p'.Inv ∧ a ∈ p.entries ∧ p'.usedList = p.usedList ++ [a] ∧ p'.entries = p.entries := by
  obtain ⟨b, hfind, heq⟩ := Option.map_eq_some_iff.mp htake
  cases heq
  have hmem : a ∈ p.freeList := mem_of_find?_eq_some hfind
  have hlen := length_erase_of_mem hmem
  have hpos := length_pos_of_mem hmem
  refine ⟨⟨h.nodup, ?_, h.numEntry, ?_, ?_, h.mapped, h.clean⟩, ?_, rfl, rfl⟩
  · have hmove : (p.freeList.erase a ++ (p.usedList ++ [a])).Perm (p.freeList ++ p.usedList) := by
      have hcons := (perm_cons_erase hmem).symm
      calc (p.freeList.erase a ++ (p.usedList ++ [a])).Perm
            (p.freeList.erase a ++ (a :: p.usedList)) :=
              (perm_append_singleton a p.usedList).append_left _
        _ |>.Perm (a :: p.freeList.erase a ++ p.usedList) := perm_middle
        _ |>.Perm (p.freeList ++ p.usedList) := hcons.append_right _
    exact hmove.trans h.split
  · dsimp only
    rw [hlen, h.numFree]
    omega
  · rw [h.numUsed, length_append]
    rfl
  · exact h.split.mem_iff.mp (mem_append_left _ hmem)

theorem Inv.freeAddress (h : p.Inv) (ha : a ∈ p.usedList) :
    (p.freeAddress a).Inv ∧ (p.freeAddress a).usedList = p.usedList.erase a := by
  have hlen := length_erase_of_mem ha
  have hpos := length_pos_of_mem ha
  unfold AddrPool.freeAddress
  rw [if_pos (h.mapped a (h.mem_entries ha))]
  refine ⟨⟨h.nodup, ?_, h.numEntry, ?_, ?_, h.mapped, ?_⟩, rfl⟩
  · refine List.Perm.trans ?_ h.split
    have hcons := (perm_cons_erase ha).symm
    rw [append_assoc]
    exact hcons.append_left p.freeList
  · rw [h.numFree, length_append]
    rfl
  · dsimp only
    rw [hlen, h.numUsed]
    omega
  · rw [h.clean, decide_eq_false (not_not.mpr ha)]
    rfl

theorem Inv.ofEntries {entries : List SockAddr} {numAddr : ℕ} (hnodup : entries.Nodup)
    (hrange : ∀ a ∈ entries, 0 ≤ int32 (a.ip - addrBase) ∧ int32 (a.ip - addrBase) < numAddr) :
    (ofEntries entries addrBase numAddr).Inv where
  nodup := hnodup
  split := by
    show (entries ++ []).Perm entries
    rw [append_nil]
  numEntry := rfl
  numFree := rfl
  numUsed := rfl
  mapped a ha := by
    obtain ⟨hlow, hhigh⟩ := hrange a ha
    unfold AddrPool.mapped
    simp only [Bool.and_eq_true, decide_eq_true_eq]
    exact ⟨⟨hlow, hhigh⟩, ha⟩
  clean := rfl

end AddrPool

theorem int32_ofNat {i : ℕ} (hi : i < 2 ^ 31) : int32 (UInt32.ofNat i) = i := by
  have hmod : (UInt32.ofNat i).toNat = i := by
    exact Nat.mod_eq_of_lt (by omega)
  unfold int32
  rw [hmod, if_pos hi]

variable {ports : PortRange} {numAddr : ℕ}

theorem mem_poolAddresses {a : SockAddr} (ha : a ∈ poolAddresses ports addrBase numAddr) :
    ∃ i < numAddr, a.ip = addrBase + UInt32.ofNat i := by
  obtain ⟨i, hi, hmem⟩ := mem_flatMap.mp ha
  obtain ⟨j, -, rfl⟩ := mem_map.mp hmem
  exact ⟨i, mem_range.mp hi, rfl⟩

theorem poolAddresses_range (hnum : numAddr ≤ 2 ^ 31) {a : SockAddr}
    (ha : a ∈ poolAddresses ports addrBase numAddr) :
    0 ≤ int32 (a.ip - addrBase) ∧ int32 (a.ip - addrBase) < numAddr := by
  obtain ⟨i, hi, hip⟩ := mem_poolAddresses ha
  have hsub : a.ip - addrBase = UInt32.ofNat i := by
    grind
  rw [hsub, int32_ofNat (by omega)]
  omega

theorem poolAddresses_nodup (hports : ports.maxPort ≤ 2 ^ 16)
    (addrBase : UInt32) (hnum : numAddr ≤ 2 ^ 31) :
    (poolAddresses ports addrBase numAddr).Nodup := by
  refine nodup_flatMap.mpr ⟨fun i _ => ?_, ?_⟩
  · refine List.Nodup.map_on ?_ nodup_range
    intro j hj k hk heq
    have hport := congrArg (fun a : SockAddr => a.port.toNat) heq
    simp only [UInt16.toNat_ofNat'] at hport
    have hj' := mem_range.mp hj
    have hk' := mem_range.mp hk
    omega
  · refine List.Pairwise.imp_of_mem ?_ nodup_range
    intro i k hi hk hne
    have hi' := mem_range.mp hi
    have hk' := mem_range.mp hk
    intro a hai hak
    have hki : UInt32.ofNat k = UInt32.ofNat i := by grind
    have hnat := congrArg UInt32.toNat hki
    rw [UInt32.toNat_ofNat', UInt32.toNat_ofNat', Nat.mod_eq_of_lt (by omega),
      Nat.mod_eq_of_lt (by omega)] at hnat
    exact hne hnat.symm

/-- The route to the address of an interface leads there, and the numbers fit into their types. -/
structure AddrConfig.Routed (cfg : AddrConfig) (rss : Option RssInit) : Prop where
  ports : cfg.ports.maxPort ≤ 2 ^ 16
  numAddr : ∀ r ∈ rss, r.numAddr < 2 ^ 31
  own : ∀ (i : ℕ) (ip : UInt32), cfg.eths[i]? = some ip →
    ∃ nif, cfg.getOutputInterface ip = some nif ∧ cfg.nifToEidx nif = i

namespace AddrWorld

variable {cfg} {w : AddrWorld}

/-- Connects fetch from the pool of the core, if there is one. -/
def Serves (w : AddrWorld) : PoolId → Prop
  | .core => w.corePool.isSome = true
  | .eth _ => w.corePool = none

structure Inv (cfg : AddrConfig) (w : AddrWorld) : Prop where
  pools : ∀ id p, w.pool id = some p → p.Inv ∧ p.usedList.Perm (w.held id)
  eths : ∀ i p, w.ethPools i = some p → ∃ ip, cfg.eths[i]? = some ip ∧ ∀ a ∈ p.entries, a.ip = ip
  bound : ∀ st ∈ w.streams, st.isBoundAddr = st.fetchedFrom.isSome
  source : ∀ st ∈ w.streams, ∀ id, st.fetchedFrom = some id →
    (w.pool id).isSome = true ∧ w.Serves id

variable {rss : Option RssInit} {st : AddrStream} {id : PoolId}

section

variable (h : w.Inv cfg)
include h

theorem Inv.mem_used (hst : st ∈ w.streams) (hid : st.fetchedFrom = some id) :
    ∃ p, w.pool id = some p ∧ st.saddr ∈ p.usedList := by
  obtain ⟨p, hp⟩ := Option.isSome_iff_exists.mp (h.source st hst id hid).1
  obtain ⟨-, hused⟩ := h.pools id p hp
  refine ⟨p, hp, hused.mem_iff.mpr (mem_map.mpr ⟨st, mem_filter.mpr ⟨hst, ?_⟩, rfl⟩)⟩
  exact decide_eq_true hid

theorem Inv.same_pool (hcfg : cfg.Routed rss) {st' : AddrStream} (hst : st ∈ w.streams)
    (hst' : st' ∈ w.streams) {id' : PoolId} (hid : st.fetchedFrom = some id)
    (hid' : st'.fetchedFrom = some id') (heq : st'.saddr = st.saddr) : id' = id := by
  obtain ⟨-, hserves⟩ := h.source st hst id hid
  obtain ⟨-, hserves'⟩ := h.source st' hst' id' hid'
  cases id with
  | core =>
    cases id' with
    | core => rfl
    | eth j =>
      rw [Serves, hserves'] at hserves
      cases hserves
  | eth i =>
    cases id' with
    | core =>
      rw [Serves, hserves] at hserves'
      cases hserves'
    | eth j =>
      have hip : ∀ {st : AddrStream} {k : ℕ}, st ∈ w.streams →
          st.fetchedFrom = some (.eth k) →
            ∃ nif, cfg.getOutputInterface st.saddr.ip = some nif ∧
              cfg.nifToEidx nif = k := by
        intro st k hst hid
        obtain ⟨p, hp, hmem⟩ := h.mem_used hst hid
        obtain ⟨ip, hip, hall⟩ := h.eths k p hp
        rw [hall _ ((h.pools _ p hp).1.mem_entries hmem)]
        exact hcfg.own k ip hip
      obtain ⟨nif, hnif, hi⟩ := hip hst hid
      obtain ⟨nif', hnif', hj⟩ := hip hst' hid'
      rw [heq, hnif] at hnif'
      cases hnif'
      rw [hi] at hj
      rw [Int.natCast_inj.mp hj]

theorem Inv.once (hcfg : cfg.Routed rss) :
    ((w.streams.filter (·.isBoundAddr)).map AddrStream.saddr).Nodup := by
  rw [nodup_iff_count_le_one]
  intro a
  by_cases hex : ∃ st ∈ w.streams, st.isBoundAddr = true ∧ st.saddr = a
  · obtain ⟨st, hst, hbound, rfl⟩ := hex
    rw [h.bound st hst] at hbound
    obtain ⟨id, hid⟩ := Option.isSome_iff_exists.mp hbound
    obtain ⟨p, hp, -⟩ := h.mem_used hst hid
    obtain ⟨hinv, hused⟩ := h.pools id p hp
    have hnodup : (w.held id).Nodup :=
      hused.nodup_iff.mp (hinv.split.nodup_iff.mpr hinv.nodup).of_append_right
    -- the streams with this address are all from the same pool
    have hsame : ((w.streams.filter (·.isBoundAddr)).map AddrStream.saddr).count st.saddr =
        (w.held id).count st.saddr := by
      unfold held List.count
      rw [countP_map, countP_map, countP_filter, countP_filter]
      refine countP_congr fun st' hst' => ?_
      simp only [comp_apply, Bool.and_eq_true, beq_iff_eq, decide_eq_true_eq]
      refine and_congr_right fun heq => ?_
      rw [h.bound st' hst', Option.isSome_iff_exists]
      constructor
      · rintro ⟨id', hid'⟩
        rw [hid', h.same_pool hcfg hst hst' hid hid' heq]
      · exact fun hid' => ⟨id, hid'⟩
    rw [hsame]
    exact nodup_iff_count_le_one.mp hnodup _
  · refine (count_eq_zero.mpr fun hmem => hex ?_).le.trans (Nat.zero_le 1)
    obtain ⟨st, hst, rfl⟩ := mem_map.mp hmem
    exact ⟨st, (mem_filter.mp hst).1, (mem_filter.mp hst).2, rfl⟩

theorem Inv.conserved (hcfg : cfg.Routed rss) : w.Conserved where
  counters id p hp := by
    obtain ⟨hpool, hused⟩ := h.pools id p hp
    have hlen := hpool.split.length_eq
    rw [length_append] at hlen
    refine ⟨?_, ?_⟩
    · rw [hpool.numFree, hpool.numUsed, hpool.numEntry]
      omega
    · rw [hpool.numUsed, hused.length_eq]
  lists id p hp := by
    obtain ⟨hpool, hused⟩ := h.pools id p hp
    exact ⟨hpool.split.nodup_iff.mpr hpool.nodup, hpool.split, hused, hpool.clean⟩
  once := h.once hcfg

theorem Inv.setSocket (sock : ℕ) (s : Option AddrSocket) :
    (w.setSocket sock s).Inv cfg where
  pools id p hp := by cases id <;> exact h.pools _ p hp
  eths := h.eths
  bound := h.bound
  source st hst id hid := by cases id <;> exact h.source st hst _ hid

omit h in
theorem held_addStream (w : AddrWorld) (saddr : SockAddr) (fetchedFrom : Option PoolId)
    (id : PoolId) : (w.addStream saddr fetchedFrom).held id =
      w.held id ++ if fetchedFrom = some id then [saddr] else [] := by
  unfold addStream held
  split
  · next heq => simp [heq]
  · next hne => simp [hne]

theorem Inv.addStream (saddr : SockAddr) : (w.addStream saddr none).Inv cfg where
  pools id p hp := by
    have hp' : w.pool id = some p := by cases id <;> exact hp
    rw [held_addStream, if_neg nofun, append_nil]
    exact h.pools id p hp'
  eths := h.eths
  bound st hst := by
    rcases mem_append.mp hst with hst | hst
    · exact h.bound st hst
    · rw [mem_singleton.mp hst]
  source st hst id hid := by
    rcases mem_append.mp hst with hst | hst
    · cases id <;> exact h.source st hst _ hid
    · rw [mem_singleton.mp hst] at hid
      cases hid

omit h in
theorem pool_setPool (w : AddrWorld) (id id' : PoolId) (p : AddrPool) :
    (w.setPool id p).pool id' = if id' = id then some p else w.pool id' := by
  cases id with
  | core =>
    cases id' with
    | core => rfl
    | eth i => rfl
  | eth i =>
    cases id' with
    | core => rfl
    | eth j =>
      show update w.ethPools i (some p) j = _
      by_cases hij : j = i
      · subst hij
        rw [update_self, if_pos rfl]
      · rw [update_of_ne hij, if_neg fun heq => hij (PoolId.eth.inj heq)]
        rfl

theorem Inv.setPool {p p' : AddrPool} (hp : w.pool id = some p)
    (hp' : p'.Inv) (hentries : p'.entries = p.entries) (streams : List AddrStream) (nextId : ℕ)
    (hused : p'.usedList.Perm ({ w with streams := streams }.held id))
    (hother : ∀ id' ≠ id, (w.held id').Perm ({ w with streams := streams }.held id'))
    (hbound : ∀ st ∈ streams, st.isBoundAddr = st.fetchedFrom.isSome)
    (hsource : ∀ st ∈ streams, ∀ id', st.fetchedFrom = some id' →
      (w.pool id').isSome = true ∧ w.Serves id') :
    ({ w.setPool id p' with streams := streams, nextId := nextId } : AddrWorld).Inv cfg where
  pools id' q hq := by
    have hq' : (w.setPool id p').pool id' = some q := by cases id' <;> exact hq
    rw [pool_setPool] at hq'
    split at hq'
    · next heq =>
      subst heq
      cases hq'
      exact ⟨hp', hused⟩
    · next hne =>
      obtain ⟨hinv, hperm⟩ := h.pools id' q hq'
      exact ⟨hinv, hperm.trans (hother id' hne)⟩
  eths i q hq := by
    have hq' : (w.setPool id p').pool (.eth i) = some q := hq
    rw [pool_setPool] at hq'
    split at hq'
    · next heq =>
      subst heq
      cases hq'
      obtain ⟨ip, hip, hall⟩ := h.eths i p hp
      exact ⟨ip, hip, hentries ▸ hall⟩
    · exact h.eths i q hq'
  bound := hbound
  source st hst id' hid' := by
    obtain ⟨hsome, hserves⟩ := hsource st hst id' hid'
    have hpool : ((w.setPool id p').pool id').isSome = true := by
      rw [pool_setPool]
      split
      · rfl
      · exact hsome
    refine ⟨by cases id' <;> exact hpool, ?_⟩
    cases id with
    | core =>
      cases id' with
      | core => rfl
      | eth i =>
        have hcore : w.corePool = some p := hp
        rw [Serves, hcore] at hserves
        cases hserves
    | eth i => cases id' <;> exact hserves

theorem Inv.connectFrom (sock : ℕ) (s : AddrSocket) (id : PoolId) {p : AddrPool}
    (hp : w.pool id = some p) (hserves : w.Serves id) (test : SockAddr → Bool) :
    (w.connectFrom sock s id (p.take test) true).Inv cfg := by
  unfold AddrWorld.connectFrom
  split
  · exact h
  next a p' hfetched =>
  obtain ⟨hinv, hused⟩ := h.pools id p hp
  obtain ⟨hinv', -, hused', hentries⟩ := hinv.take hfetched
  have hheld := held_addStream w a (some id)
  have hset := h.setPool hp hinv' hentries (w.addStream a (some id)).streams (w.nextId + 1)
    ?_ ?_ ?_ ?_
  · have hsocket := hset.setSocket sock
      (some { s with saddr := a, addrBind := true, stream := true })
    have hsame : (w.setPool id p').createStream sock { s with saddr := a, addrBind := true }
        (some id) true = AddrWorld.setSocket { w.setPool id p' with
          streams := (w.addStream a (some id)).streams, nextId := w.nextId + 1 } sock
            (some { s with saddr := a, addrBind := true, stream := true }) := by
      cases id <;> rfl
    rw [hsame]
    exact hsocket
  · show p'.usedList.Perm ((w.addStream a (some id)).held id)
    rw [hheld, if_pos rfl, hused']
    exact hused.append_right [a]
  · intro id' hne
    show (w.held id').Perm ((w.addStream a (some id)).held id')
    rw [hheld, if_neg fun heq => hne (Option.some.inj heq).symm, append_nil]
  · intro st hst
    rcases mem_append.mp hst with hst | hst
    · exact h.bound st hst
    · rw [mem_singleton.mp hst]
  · intro st hst id' hid'
    rcases mem_append.mp hst with hst | hst
    · exact h.source st hst id' hid'
    · rw [mem_singleton.mp hst] at hid'
      cases hid'
      exact ⟨Option.isSome_iff_exists.mpr ⟨p, hp⟩, hserves⟩

theorem Inv.connect (sock : ℕ) (dst : SockAddr) : (w.connect cfg sock dst true).Inv cfg := by
  unfold AddrWorld.connect
  split
  · exact h
  next s hs =>
    split
    · exact h
    split
    · split
      · exact (h.setSocket sock _).addStream _
      · exact h
    split
    · next p hp =>
      exact h.connectFrom sock s .core hp (Option.isSome_iff_exists.mpr ⟨p, hp⟩) _
    next hcore =>
    split
    · exact ⟨fun id p hp => by cases id <;> exact h.pools _ p hp, h.eths, h.bound,
        fun st hst id hid => by cases id <;> exact h.source st hst _ hid⟩
    next nif hnif =>
      split
      · exact h
      · next p hp => exact h.connectFrom sock s (.eth nif) hp hcore _

omit h in
theorem held_erase (hst : st ∈ w.streams) (id : PoolId) :
    (w.held id).Perm ((if st.fetchedFrom = some id then [st.saddr] else []) ++
      { w with streams := w.streams.erase st }.held id) := by
  have hperm := ((perm_cons_erase hst).filter fun st => decide (st.fetchedFrom = some id)).map
    AddrStream.saddr
  split
  · next heq =>
    rw [filter_cons_of_pos (by simp [heq])] at hperm
    exact hperm
  · next hne =>
    rw [filter_cons_of_neg (by simp [hne])] at hperm
    exact hperm

variable (hcfg : cfg.Routed rss)
include hcfg

theorem Inv.giveBack_eq (hst : st ∈ w.streams) (hid : st.fetchedFrom = some id) :
    ∃ p, w.pool id = some p ∧ st.saddr ∈ p.usedList ∧
      ∀ streams, ({ w with streams := streams } : AddrWorld).giveBack cfg st.saddr =
        { w.setPool id (p.freeAddress st.saddr) with streams := streams } := by
  obtain ⟨-, hserves⟩ := h.source st hst id hid
  obtain ⟨p, hp, hmem⟩ := h.mem_used hst hid
  obtain ⟨hinv, -⟩ := h.pools id p hp
  refine ⟨p, hp, hmem, fun streams => ?_⟩
  cases id with
  | core =>
    have hcore : w.corePool = some p := hp
    simp only [giveBack, hcore]
    rfl
  | eth i =>
    have hcore : w.corePool = none := hserves
    have heth : w.ethPools i = some p := hp
    obtain ⟨ip, hip, hall⟩ := h.eths i p hp
    obtain ⟨nif, hnif, heidx⟩ := hcfg.own i ip hip
    have haddr : st.saddr.ip = ip := hall _ (hinv.mem_entries hmem)
    simp only [giveBack, hcore, haddr, hnif, heidx, Int.toNat_natCast, heth]
    rw [if_neg (by omega)]
    simp only [AddrWorld.setPool, hcore]

theorem Inv.destroy (n : ℕ) : (w.destroy cfg n).Inv cfg := by
  unfold AddrWorld.destroy
  split
  · exact h
  next st hfind =>
    have hst : st ∈ w.streams := mem_of_find?_eq_some hfind
    have hsub : ∀ st' ∈ w.streams.erase st, st' ∈ w.streams := fun _ => mem_of_mem_erase
    have hheld := held_erase hst
    cases hfrom : st.fetchedFrom with
    | none =>
      have hbound : st.isBoundAddr = false := by
        rw [h.bound st hst, hfrom]
        rfl
      rw [hbound, if_neg Bool.false_ne_true]
      refine ⟨fun id p hp => ?_, h.eths, fun st' hst' => h.bound st' (hsub st' hst'),
        fun st' hst' id hid => ?_⟩
      · have hperm := hheld id
        rw [hfrom, if_neg nofun] at hperm
        obtain ⟨hinv, hused⟩ := h.pools id p (by cases id <;> exact hp)
        exact ⟨hinv, hused.trans hperm⟩
      · cases id <;> exact h.source st' (hsub st' hst') _ hid
    | some id =>
      have hbound : st.isBoundAddr = true := by
        rw [h.bound st hst, hfrom]
        rfl
      obtain ⟨p, hp, hmem, hback⟩ := h.giveBack_eq hcfg hst hfrom
      obtain ⟨hinv, hused⟩ := h.pools id p hp
      obtain ⟨hinv', hused'⟩ := hinv.freeAddress hmem
      have hentries : (p.freeAddress st.saddr).entries = p.entries := by
        unfold AddrPool.freeAddress
        split <;> rfl
      rw [hbound, if_pos rfl, hback]
      refine h.setPool hp hinv' hentries _ _ ?_ ?_ ?_ ?_
      · have hperm := hheld id
        rw [hfrom, if_pos rfl] at hperm
        rw [hused']
        exact (cons_perm_iff_perm_erase.mp (hused.trans hperm).symm).2.symm
      · intro id' hne
        have hperm := hheld id'
        rw [hfrom, if_neg fun heq => hne (Option.some.inj heq).symm] at hperm
        exact hperm
      · exact fun st' hst' => h.bound st' (hsub st' hst')
      · exact fun st' hst' => h.source st' (hsub st' hst')

theorem Inv.step {op : AddrOp} (hok : w.Ok op) : (w.step cfg op).Inv cfg := by
  unfold AddrWorld.step
  split
  · exact h
  cases op with
  | socket sock => exact h.setSocket sock _
  | bind sock a =>
    dsimp only
    split
    · exact h
    split
    · exact h
    · exact h.setSocket sock _
  | connect sock dst created =>
    have hcreated : created = true := hok
    rw [hcreated]
    exact h.connect sock dst
  | close sock => exact h.setSocket sock none
  | passiveOpen saddr => exact h.addStream saddr
  | destroy id => exact h.destroy hcfg id

end

theorem inv_start (hcfg : cfg.Routed rss) : (start cfg rss).Inv cfg where
  pools id p hp := by
    refine ⟨?_, ?_⟩
    · cases id with
      | core =>
        obtain ⟨r, hr, rfl⟩ := Option.map_eq_some_iff.mp hp
        have hnum := (hcfg.numAddr r hr).le
        refine AddrPool.Inv.ofEntries ?_ fun a ha => ?_
        · exact (((poolAddresses_nodup hcfg.ports r.saddrBase hnum).filter _).sublist
            (take_sublist _ _))
        · exact poolAddresses_range hnum (mem_of_mem_filter (mem_of_mem_take ha))
      | eth i =>
        obtain ⟨ip, hip, rfl⟩ := Option.map_eq_some_iff.mp hp
        exact AddrPool.Inv.ofEntries (poolAddresses_nodup hcfg.ports ip (by decide))
          fun a ha => poolAddresses_range (by decide) ha
    · have hnone : p.usedList = [] := by
        cases id with
        | core =>
          obtain ⟨r, -, rfl⟩ := Option.map_eq_some_iff.mp hp
          rfl
        | eth i =>
          obtain ⟨ip, -, rfl⟩ := Option.map_eq_some_iff.mp hp
          rfl
      rw [hnone]
      exact List.Perm.nil
  eths i p hp := by
    obtain ⟨ip, hip, rfl⟩ := Option.map_eq_some_iff.mp hp
    refine ⟨ip, hip, fun a ha => ?_⟩
    obtain ⟨j, hj, hip'⟩ := mem_poolAddresses ha
    rw [hip', Nat.lt_one_iff.mp hj]
    exact UInt32.add_zero ip
  bound := nofun
  source := nofun

/-- If `CreateTCPStream` succeeds and own addresses are routed, the pools conserve addresses. -/
theorem addresses_conserved (cfg : AddrConfig) (rss : Option RssInit) (hcfg : cfg.Routed rss)
    (ops : List AddrOp) (hrun : Run.Admissible (step cfg) Ok (start cfg rss) ops) :
    (ops.foldl (step cfg) (start cfg rss)).Conserved := by
  have hinv : (ops.foldl (step cfg) (start cfg rss)).Inv cfg :=
    hrun.invariant (inv_start hcfg) fun _ _ h hok => h.step hcfg hok
  exact hinv.conserved hcfg

def twoInterfaces (mask : UInt32) : AddrConfig where
  ports := ⟨1025, 1028⟩
  eths := [0x0A000001, 0x0A010001]
  nifToEidx n := n
  rtable :=
    [⟨mask, 0x0A000001 &&& mask, 8, 0⟩, ⟨0xFFFF0000, 0x0A010000, 16, 1⟩,
      ⟨0xFFFF0000, 0xC0A80000, 16, 1⟩]
  gateway := none
  core := 0
  rssCore _ _ := 0

def twoConnects : List AddrOp :=
  [.socket 0, .connect 0 ⟨0xC0A80005, 80⟩ true, .socket 1, .connect 1 ⟨0xC0A80005, 80⟩ true,
    .close 0, .destroy 0]

theorem addresses_conserved_twoConnects :
    (twoConnects.foldl (step (twoInterfaces 0xFFFF0000))
        (start (twoInterfaces 0xFFFF0000) none)).held (.eth 1) = [⟨0x0A010001, 1026⟩] ∧
      (twoConnects.foldl (step (twoInterfaces 0xFFFF0000))
        (start (twoInterfaces 0xFFFF0000) none)).Conserved := by
  refine ⟨by decide +kernel, addresses_conserved (twoInterfaces 0xFFFF0000) none ?_ twoConnects
    (by decide +kernel)⟩
  refine ⟨by decide, nofun, fun i ip hip => ?_⟩
  match i with
  | 0 => exact ⟨0, by cases hip; decide +kernel, rfl⟩
  | 1 => exact ⟨1, by cases hip; decide +kernel, rfl⟩
  | i + 2 => cases hip

def oneConnect (mask : UInt32) (created : Bool) : AddrWorld :=
  [AddrOp.socket 0, .connect 0 ⟨0xC0A80005, 80⟩ created, .close 0, .destroy 0].foldl
    (step (twoInterfaces mask)) (start (twoInterfaces mask) none)

/-- A failed connect keeps its address, and one is given back to a pool that does not know it. -/
theorem address_leaks :
    (oneConnect 0xFFFF0000 false).streams = [] ∧
      ((oneConnect 0xFFFF0000 false).ethPools 1).map (·.usedList) = some [⟨0x0A010001, 1025⟩] ∧
      (oneConnect 0xFF000000 true).streams = [] ∧
      ((oneConnect 0xFF000000 true).ethPools 1).map (·.usedList) = some [⟨0x0A010001, 1025⟩] := by
  decide +kernel

end AddrWorld

end StackBench.Mtcp
