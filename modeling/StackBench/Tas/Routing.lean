import Mathlib.Data.UInt

/-!
# Next hops of the TAS slow path

`routing_resolve` follows next hops until it meets a directly connected route.
It ends for every destination exactly when no chain of next hops returns to a
route.
-/

namespace StackBench.Tas

/-- A route as `parse_route` leaves it: every address, prefix length and next hop. -/
structure ConfigRoute where
  ip : UInt32
  ipPrefix : UInt8
  nextHopIp : UInt32
deriving DecidableEq

/-- What `routing_init` reads of the configuration. -/
structure RouteConfig where
  ip : UInt32
  ipPrefix : UInt8
  routes : List ConfigRoute

structure RoutingTableEntry where
  destIp : UInt32
  destMask : UInt32
  nextHop : UInt32
deriving DecidableEq

/-- `prefix_len_mask`. Above 32 the shift is undefined in C; here it goes by the lower six bits. -/
def prefixLenMask (len : UInt8) : UInt32 :=
  (~~~ ((1 <<< (32 - len.toUInt64)) - 1 : UInt64)).toUInt32

/-- `routing_init`. The first entry is the network of the host. -/
def routingInit (cfg : RouteConfig) : Option (List RoutingTableEntry) :=
  if cfg.routes.all fun cr => prefixLenMask cr.ipPrefix &&& cr.ip = cr.ip then
    some (⟨cfg.ip &&& prefixLenMask cfg.ipPrefix, prefixLenMask cfg.ipPrefix, 0⟩ ::
      cfg.routes.map fun cr => ⟨cr.ip, prefixLenMask cr.ipPrefix, cr.nextHopIp⟩)
  else none

def resolve (table : List RoutingTableEntry) (ip : UInt32) : Option RoutingTableEntry :=
  table.find? fun e => e.destIp = ip &&& e.destMask

inductive Resolution where
  | failed
  /-- `arp_request` is called for the address. -/
  | request (ip : UInt32)
  /-- The loop has not ended. -/
  | looping
deriving DecidableEq

/-- `routing_resolve`, with a bound on the rounds of its loop. -/
def routingResolve (table : List RoutingTableEntry) : ℕ → UInt32 → Resolution
  | 0, _ => .looping
  | fuel + 1, ip =>
    match resolve table ip with
    | none => .failed
    | some rte => if rte.nextHop = 0 then .request ip else routingResolve table fuel rte.nextHop

/-- The next hop of the route `r` is resolved by the route `s`. -/
def Hop (table : List RoutingTableEntry) (r s : RoutingTableEntry) : Prop :=
  r ∈ table ∧ r.nextHop ≠ 0 ∧ resolve table r.nextHop = some s

/-- The result is a failure or one request, for an address that a directly connected route
covers. -/
def Delivered (table : List RoutingTableEntry) : Resolution → Prop
  | .failed => True
  | .request ip => ∃ e ∈ table, e.nextHop = 0 ∧ e.destIp = ip &&& e.destMask
  | .looping => False

open Relation (TransGen)

variable {table : List RoutingTableEntry} {r : RoutingTableEntry} {ip : UInt32}

/-- On a cycle of next hops the loop never ends. -/
theorem routingResolve_cycle (h : TransGen (Hop table) r r) (fuel : ℕ) :
    routingResolve table fuel r.nextHop = .looping := by
  induction fuel generalizing r with
  | zero => rfl
  | succ fuel ih =>
    obtain ⟨s, hrs, hsr⟩ := TransGen.head'_iff.mp h
    have hs : TransGen (Hop table) s s := TransGen.tail' hsr hrs
    obtain ⟨_, hnext, -⟩ := TransGen.head'_iff.mp hs
    simp only [routingResolve, hrs.2.2, if_neg hnext.2.1]
    exact ih hs

/-- Without a cycle every round takes a route that was not taken before. -/
theorem routingResolve_delivered (hacyclic : ∀ r, ¬ TransGen (Hop table) r r) (fuel : ℕ)
    (seen : List RoutingTableEntry) (hnodup : seen.Nodup)
    (hsub : seen ⊆ table.filter (·.nextHop ≠ 0))
    (hreach : ∀ r ∈ seen, ∀ s, resolve table ip = some s → TransGen (Hop table) r s)
    (hfuel : (table.filter (·.nextHop ≠ 0)).length < seen.length + fuel) :
    Delivered table (routingResolve table fuel ip) := by
  induction fuel generalizing ip seen with
  | zero =>
    have := (hnodup.subperm hsub).length_le
    omega
  | succ fuel ih =>
    rw [routingResolve]
    split
    · trivial
    next s hs =>
    have hmem := List.mem_of_find?_eq_some hs
    split
    · next hdirect =>
      exact ⟨s, hmem, hdirect, by simpa using List.find?_some hs⟩
    next hvia =>
    have hnew : s ∉ seen := fun hold => hacyclic s (hreach s hold s hs)
    refine ih (s :: seen) (List.nodup_cons.mpr ⟨hnew, hnodup⟩) ?_ ?_ ?_
    · exact List.cons_subset.mpr ⟨List.mem_filter.mpr ⟨hmem, by simpa using hvia⟩, hsub⟩
    · intro r hr t ht
      rcases List.mem_cons.mp hr with rfl | hr
      · exact TransGen.single ⟨hmem, hvia, ht⟩
      · exact (hreach r hr s hs).tail ⟨hmem, hvia, ht⟩
    · rw [List.length_cons]
      omega

theorem direct_of_routingInit {cfg : RouteConfig} (h : routingInit cfg = some table) :
    ∃ e ∈ table, e.nextHop = 0 := by
  unfold routingInit at h
  split at h
  · rw [← Option.some.inj h]
    exact ⟨_, List.mem_cons_self, rfl⟩
  · cases h

/-- `routing_resolve` ends for every destination exactly when no chain of next hops is a cycle. -/
theorem routing_resolve_finishes (cfg : RouteConfig) (table : List RoutingTableEntry)
    (hinit : routingInit cfg = some table) :
    (∀ ip, Delivered table (routingResolve table table.length ip)) ↔
      ∀ r, ¬ TransGen (Hop table) r r := by
  constructor
  · intro h r hcycle
    have := h r.nextHop
    rw [routingResolve_cycle hcycle] at this
    exact this
  · intro hacyclic ip
    obtain ⟨e, hmem, hdirect⟩ := direct_of_routingInit hinit
    have hlt : (table.filter (·.nextHop ≠ 0)).length < table.length :=
      List.length_filter_lt_length_iff_exists.mpr ⟨e, hmem, by simp [hdirect]⟩
    exact routingResolve_delivered hacyclic _ [] List.nodup_nil (List.nil_subset _) nofun
      (by simpa using hlt)

/-- A host in `10.0.0.0/24` with a default route to `10.0.0.254`, which is its neighbour. -/
theorem routing_resolve_finishes_gateway :
    let table : List RoutingTableEntry := [⟨0x0A000000, 0xFFFFFF00, 0⟩, ⟨0, 0, 0x0A0000FE⟩]
    ∀ ip, Delivered table (routingResolve table 2 ip) := by
  intro table
  refine (routing_resolve_finishes ⟨0x0A000001, 24, [⟨0, 0, 0x0A0000FE⟩]⟩ table
    (by decide +kernel)).mpr fun r hcycle => ?_
  have hdirect : ∀ q ∈ table, q.nextHop ≠ 0 →
      resolve table q.nextHop = some ⟨0x0A000000, 0xFFFFFF00, 0⟩ := by decide +kernel
  obtain ⟨q, -, hq, hvia, hr⟩ := TransGen.tail'_iff.mp hcycle
  obtain ⟨s, hs, -⟩ := TransGen.head'_iff.mp hcycle
  rw [hdirect q hq hvia] at hr
  cases hr
  exact hs.2.1 rfl

/-- The next hop of a default route is outside the network: the same route resolves it forever. -/
theorem routing_resolve_loops :
    ∃ table, routingInit ⟨0x0A000001, 24, [⟨0, 0, 0xC0A80001⟩]⟩ = some table ∧
      ∀ fuel, routingResolve table fuel 0xC0A80001 = .looping := by
  refine ⟨[⟨0x0A000000, 0xFFFFFF00, 0⟩, ⟨0, 0, 0xC0A80001⟩], by decide +kernel, fun fuel => ?_⟩
  exact routingResolve_cycle (r := ⟨0, 0, 0xC0A80001⟩)
    (TransGen.single ⟨by decide, by decide, by decide +kernel⟩) fuel

end StackBench.Tas
