import BaremetalDhcp.ArrayPool
import BaremetalDhcp.HashPool

/-!
# ARRAY and HASHMAP answer alike

The two client-tracking backends implement the same abstract lease pool and differ
only in how much one clean-up drops.  As long as no clean-up meets more expired
leases than fit in HASHMAP's batch of 32, the abstract pools stay equal, and with
them every response, every lease and the cursor.

`Refines.step_eq` is the simulation step, stated for any two implementations;
`array_hashmap_equivalent` is the result for whole runs.
-/

namespace BaremetalDhcp

open Machine

/-- A response depends on the configuration only. -/
theorem dhcpBuildOffer_congr {P P' : Type} {server : DhcpServer P} {server' : DhcpServer P'}
    (h : server.config = server'.config) (request : DhcpMessage) (ip : UInt32) :
    dhcpBuildOffer server request ip = dhcpBuildOffer server' request ip := by
  unfold dhcpBuildOffer
  rw [h]

theorem dhcpBuildAck_congr {P P' : Type} {server : DhcpServer P} {server' : DhcpServer P'}
    (h : server.config = server'.config) (request : DhcpMessage) (ip : UInt32) :
    dhcpBuildAck server request ip = dhcpBuildAck server' request ip := by
  unfold dhcpBuildAck
  rw [h]

section Responses

variable {P P' : Type} {calls : PoolCalls P} {calls' : PoolCalls P'} {s : DhcpServer P}
  {s' : DhcpServer P'} {a : Arrival}

/-- Pool calls that find the same address give the same response to a DISCOVER. -/
theorem discover_response_congr (hd : a.msgType = dhcpDiscover)
    (hconfig : (calls.discover s a).1.config = (calls'.discover s' a).1.config)
    (hfound : (calls.discover s a).2 = (calls'.discover s' a).2) :
    (processMessage calls s a).2 = (processMessage calls' s' a).2 := by
  rw [processMessage_discover hd, processMessage_discover hd, hfound,
    dhcpBuildOffer_congr hconfig]

/-- Pool calls that decide alike give the same response to a REQUEST. -/
theorem request_response_congr (hr : a.msgType = dhcpRequest) {ip : UInt32}
    (hip : a.requestedIp = some ip)
    (hconfig : (calls.request s ip a).1.config = (calls'.request s' ip a).1.config)
    (hgranted : (calls.request s ip a).2 = (calls'.request s' ip a).2) :
    (processMessage calls s a).2 = (processMessage calls' s' a).2 := by
  rw [processMessage_request hr hip, processMessage_request hr hip, hgranted,
    dhcpBuildAck_congr hconfig]

end Responses

/-- The message makes the pool look at its leases: a DISCOVER, or a REQUEST for an
address of the pool. -/
def Arrival.Searches (a : Arrival) (config : DhcpConfig) : Prop :=
  a.msgType = dhcpDiscover ∨
    a.msgType = dhcpRequest ∧
      ∃ ip, a.requestedIp = some ip ∧ InPool config.poolStart config.poolEnd ip

section Simulation

variable {P P' : Type} {ops : LeaseOps P} {ops' : LeaseOps P'} {batch batch' : ℕ∞}
  {Rep : P → LeasePool → Prop} {Rep' : P' → LeasePool → Prop}

/-- The two servers implement the same abstract pool under the same configuration. -/
def SamePool (Rep : P → LeasePool → Prop) (Rep' : P' → LeasePool → Prop)
    (s : DhcpServer P) (s' : DhcpServer P') : Prop :=
  s.config = s'.config ∧ ∃ q, Rep s.pool q ∧ Rep' s'.pool q

variable {s : DhcpServer P} {s' : DhcpServer P'} {q : LeasePool} {a : Arrival}

/-- A DISCOVER is answered alike by two implementations of the same pool. -/
theorem LeaseOps.Refines.discover_eq (href : ops.Refines batch Rep)
    (href' : ops'.Refines batch' Rep') (hconfig : s.config = s'.config) (hrep : Rep s.pool q)
    (hrep' : Rep' s'.pool q) (hd : a.msgType = dhcpDiscover)
    (hfits : q.Full →
      ((q.expired a.curTime).card : ℕ∞) ≤ batch ∧ ((q.expired a.curTime).card : ℕ∞) ≤ batch') :
    (processMessage ops.calls s a).2 = (processMessage ops'.calls s' a).2 ∧
      SamePool Rep Rep' (processMessage ops.calls s a).1 (processMessage ops'.calls s' a).1 := by
  obtain ⟨q₀, hpurge, hsame, hnext⟩ := href.find s.config.poolStart s.config.poolEnd a.mac
    a.curTime hrep
  obtain ⟨q₀', hpurge', hsame', hnext'⟩ := href'.find s.config.poolStart s.config.poolEnd a.mac
    a.curTime hrep'
  obtain rfl := hpurge.eq hpurge' hfits
  have hcall : ops'.calls.discover s' a =
      ({ s' with pool := (ops'.findAvailableIp s'.pool s.config.poolStart s.config.poolEnd
        a.mac a.curTime).1 },
        (ops'.findAvailableIp s'.pool s.config.poolStart s.config.poolEnd a.mac
          a.curTime).2) := by
    rw [hconfig]
    rfl
  constructor
  · refine discover_response_congr hd ?_ ?_
    · rw [hcall]
      exact hconfig
    · rw [hcall]
      exact hsame.trans hsame'.symm
  · rw [processMessage_discover hd, processMessage_discover hd, hcall]
    exact ⟨hconfig, _, hnext, hnext'⟩

/-- A REQUEST is answered alike by two implementations of the same pool. -/
theorem LeaseOps.Refines.request_eq (href : ops.Refines batch Rep)
    (href' : ops'.Refines batch' Rep') (hconfig : s.config = s'.config) (hrep : Rep s.pool q)
    (hrep' : Rep' s'.pool q) {ip : UInt32} (hr : a.msgType = dhcpRequest)
    (hip : a.requestedIp = some ip)
    (hfits : InPool s.config.poolStart s.config.poolEnd ip → q.Full →
      ((q.expired a.curTime).card : ℕ∞) ≤ batch ∧ ((q.expired a.curTime).card : ℕ∞) ≤ batch') :
    (processMessage ops.calls s a).2 = (processMessage ops'.calls s' a).2 ∧
      SamePool Rep Rep' (processMessage ops.calls s a).1 (processMessage ops'.calls s' a).1 := by
  by_cases hpool : InPool s.config.poolStart s.config.poolEnd ip
  · obtain ⟨q₀, hpurge, hsame, hnext⟩ := href.alloc ip a.mac s.config.leaseTime a.curTime hrep
    obtain ⟨q₀', hpurge', hsame', hnext'⟩ := href'.alloc ip a.mac s.config.leaseTime a.curTime
      hrep'
    obtain rfl := hpurge.eq hpurge' (hfits hpool)
    have hcall := ops.calls_request_of_inPool hpool a
    have hcall' : ops'.calls.request s' ip a =
        ({ s' with pool :=
            (ops'.allocLease s'.pool ip a.mac s.config.leaseTime a.curTime).1 },
          (ops'.allocLease s'.pool ip a.mac s.config.leaseTime a.curTime).2) := by
      rw [hconfig] at hpool ⊢
      exact ops'.calls_request_of_inPool hpool a
    constructor
    · refine request_response_congr hr hip ?_ ?_
      · rw [hcall, hcall']
        exact hconfig
      · rw [hcall, hcall']
        exact hsame.trans hsame'.symm
    · rw [processMessage_request hr hip, processMessage_request hr hip, hcall, hcall']
      exact ⟨hconfig, _, hnext, hnext'⟩
  · have hcall := ops.calls_request_of_not_inPool hpool a
    have hcall' : ops'.calls.request s' ip a = (s', false) := by
      rw [hconfig] at hpool
      exact ops'.calls_request_of_not_inPool hpool a
    constructor
    · refine request_response_congr hr hip ?_ ?_
      · rw [hcall, hcall']
        exact hconfig
      · rw [hcall, hcall']
    · rw [processMessage_request hr hip, processMessage_request hr hip, hcall, hcall']
      exact ⟨hconfig, q, hrep, hrep'⟩

/-- **One message** is answered alike by two implementations of the same pool, if
the clean-up it triggers fits in both batches. -/
theorem LeaseOps.Refines.step_eq (href : ops.Refines batch Rep) (href' : ops'.Refines batch' Rep')
    (hconfig : s.config = s'.config) (hrep : Rep s.pool q) (hrep' : Rep' s'.pool q)
    (hfits : a.Searches s.config → q.Full →
      ((q.expired a.curTime).card : ℕ∞) ≤ batch ∧ ((q.expired a.curTime).card : ℕ∞) ≤ batch') :
    (processMessage ops.calls s a).2 = (processMessage ops'.calls s' a).2 ∧
      SamePool Rep Rep' (processMessage ops.calls s a).1 (processMessage ops'.calls s' a).1 := by
  obtain hd | ⟨hr, ip, hip⟩ | hc | hi := a.cases
  · exact href.discover_eq href' hconfig hrep hrep' hd (hfits (Or.inl hd))
  · exact href.request_eq href' hconfig hrep hrep' hr hip fun hpool =>
      hfits (Or.inr ⟨hr, ip, hip, hpool⟩)
  · rw [processMessage_decline hc, processMessage_decline hc]
    exact ⟨rfl, hconfig, _, href.decline a.mac hrep, href'.decline a.mac hrep'⟩
  · rw [processMessage_ignored hi, processMessage_ignored hi]
    exact ⟨rfl, hconfig, q, hrep, hrep'⟩

end Simulation

/-- If the message triggers a clean-up of the array, that clean-up meets at most 32
expired leases. -/
def CleanUpFits {maxLeases : UInt16} (server : DhcpServer (ArrayPool maxLeases)) (a : Arrival) :
    Prop :=
  a.Searches server.config → server.pool.leaseCount ≥ maxLeases →
    server.pool.expiredCount a.curTime ≤ 32

/-- The lease that a pointer returned by `find_lease` shows. -/
def Lease.binding (l : Lease) : UInt32 × UInt32 := (l.ipAddress, l.expireTime)

/-- **ARRAY and HASHMAP are observationally equivalent**, on every run in which no
clean-up meets more than 32 expired leases. -/
theorem array_hashmap_equivalent (config : DhcpConfig) (maxLeases : UInt16)
    (hmax : maxLeases.toNat ≤ hashN) (leases : Fin maxLeases.toNat → DhcpLease)
    (prior : HashPool) (run : List Arrival)
    (hfits : Along dhcpProcessMessageArray CleanUpFits (dhcpInitServerArray config leases) run) :
    let array := exec dhcpProcessMessageArray (dhcpInitServerArray config leases) run
    let hashmap := exec dhcpProcessMessageHashmap
      (dhcpInitServerHashmap config prior maxLeases) run
    outputs dhcpProcessMessageArray (dhcpInitServerArray config leases) run =
        outputs dhcpProcessMessageHashmap (dhcpInitServerHashmap config prior maxLeases) run ∧
      (∀ mac, (dhcpArraypoolFindLease array.pool mac).map
          (fun i => (array.pool.leases i).binding) =
        (dhcpHashpoolFindLease hashmap.pool mac).map
          fun i => (hashmap.pool.leases.buckets i).binding) ∧
      array.pool.nextIp = hashmap.pool.nextIp := by
  intro array hashmap
  have hstep : ∀ (s : DhcpServer (ArrayPool maxLeases)) (s' : DhcpServer HashPool) (a : Arrival),
      SamePool ArrayPool.Represents HashPool.Represents s s' → CleanUpFits s a →
      (dhcpProcessMessageArray s a).2 = (dhcpProcessMessageHashmap s' a).2 ∧
        SamePool ArrayPool.Represents HashPool.Represents (dhcpProcessMessageArray s a).1
          (dhcpProcessMessageHashmap s' a).1 := by
    rintro s s' a ⟨hconfig, q, hq, hq'⟩ hfits
    refine (arrayOps_refines maxLeases).step_eq hashOps_refines hconfig hq hq'
      fun hsearch hfull => ?_
    have hcount : (q.expired a.curTime).card = s.pool.expiredCount a.curTime :=
      hq.slots.card_filter fun l => l.expireTime ≤ a.curTime
    refine ⟨le_top, ?_⟩
    rw [hcount]
    exact_mod_cast hfits hsearch (hq.full_iff.mp hfull)
  have hinit : SamePool ArrayPool.Represents HashPool.Represents
      (dhcpInitServerArray config leases) (dhcpInitServerHashmap config prior maxLeases) := by
    refine ⟨rfl, _, dhcpArraypoolInit_represents _ _, ?_⟩
    have hrep := dhcpHashpoolInit_represents prior config.poolStart maxLeases
    rw [min_eq_right hmax] at hrep
    exact hrep
  obtain ⟨houtputs, -, q, hq, hq'⟩ := simulation hstep run _ _ hinit hfits
  refine ⟨houtputs, fun mac => ?_, hq.nextIp_eq.symm.trans hq'.nextIp_eq⟩
  have hlookup := (hq.lookup mac).trans (hq'.lookup mac).symm
  have hbinding := congrArg (Option.map Lease.binding) hlookup
  rw [Option.map_map, Option.map_map] at hbinding
  exact hbinding

/-- A table of one slot: the second client's DISCOVER cleans up the first's expired
lease, and both backends make the same offer. -/
theorem array_hashmap_equivalent_one_slot :
    let config := poolConfig 100 101 10
    let run := [requestFrom 1 100 0, discoverFrom 2 20]
    let array := dhcpInitServerArray config
      fun _ : Fin (1 : UInt16).toNat => ⟨⟨fun _ => 0, 0, 0⟩, false⟩
    (1 : UInt16).toNat ≤ hashN ∧ Along dhcpProcessMessageArray CleanUpFits array run ∧
      outputs dhcpProcessMessageArray array run =
        outputs dhcpProcessMessageHashmap
          (dhcpInitServerHashmap config HashPool.zeroed 1) run := by
  intro config run array
  have hfits : Along dhcpProcessMessageArray CleanUpFits array run := by
    refine ⟨fun _ _ => ?_, fun _ _ => ?_, trivial⟩
    · decide +kernel
    · decide +kernel
  exact ⟨by decide, hfits, (array_hashmap_equivalent config 1 (by decide)
    (fun _ => ⟨⟨fun _ => 0, 0, 0⟩, false⟩) HashPool.zeroed run hfits).1⟩

end BaremetalDhcp
