import BaremetalDhcp.PromptWorker

/-!
# From the clients to the library

The theorems about whole systems, for every lease mode or for the two client-tracking ones.

* `network_done_leased` — a client that finished has an address that the server offered to it
  and acknowledged to it.
* `network_no_double_lease` — two clients that finished with the same address got it a lease time
  apart.
* `benchmark_passed` — the clients that `main` counts as passed have different addresses, as long
  as the kernel has been up for less than a lease time.

After each of them stands a prompt run in which two clients finish.
-/

namespace BaremetalDhcp

open Machine

/-! ## The network -/

/-- **A client that finishes has a lease.**  Whatever the backend and the number of clients, and
however the network delays, repeats and loses frames, as long as the kernel receives genuine ones:
when a client is in `STATE_DONE`, its address is one that the server has offered to the client's
MAC and acknowledged to it, and the client has received it unchanged. -/
theorem network_done_leased {P ι : Type} [DecidableEq ι] (adapter : Adapter P)
    (mac : ι → Bytes 6) (xid : ι → UInt32) (server : DhcpServer P) (run : List (NetStep ι))
    (hgenuine : Along (netStep adapter mac xid) (GenuineStep adapter mac xid)
      (Net.fresh mac xid server) run) :
    let net := exec (netStep adapter mac xid) (Net.fresh mac xid server) run
    let log := netLog adapter mac xid (Net.fresh mac xid server) run
    ∀ i, (net.clients i).state = .done →
      ∃ ip, (net.clients i).assignedIp = packIP ip ∧
        (∃ offered, Answered log dhcpOffer (mac i) ip offered) ∧
        ∃ acked, Answered log dhcpAck (mac i) ip acked :=
  fun _ hdone => (Net.inv_exec server run hgenuine).done hdone

/-- The first two clients of `main` get the first two addresses of a server of mode NPRC. -/
theorem network_done_leased_two_clients :
    let server := dhcpInitServerNprc 64 circleConfig
    let prior : Cq := ⟨fun _ => 0, 0, 0, 0⟩
    let priorTab : XidTab (Fin numClients) := ⟨fun _ => .null, fun _ => false, 0⟩
    let run := netRunOf (nprcAdapter 64) numberedRoster server prior priorTab
      (pairRun (nprcAdapter 64) numberedRoster 0 server prior priorTab 0 1 0 5000000 0xC0A80464
        0xC0A80465)
    let start := Net.fresh numberedRoster.mac numberedRoster.xid server
    let net := exec (netStep (nprcAdapter 64) numberedRoster.mac numberedRoster.xid) start run
    let log := netLog (nprcAdapter 64) numberedRoster.mac numberedRoster.xid start run
    ∀ i, i = 0 ∨ i = 1 → (net.clients i).state = .done ∧
      ∃ ip, (net.clients i).assignedIp = packIP ip ∧
        (∃ offered, Answered log dhcpOffer (numberedRoster.mac i) ip offered) ∧
        ∃ acked, Answered log dhcpAck (numberedRoster.mac i) ip acked := by
  intro server prior priorTab run
  have hpair : PairFinishes (nprcAdapter 64) numberedRoster server 0 1 0xC0A80464 0xC0A80465 run :=
    first_two_finish _ server prior priorTab 0 5000000 _ _ (nprcCalls_readsClient 64)
      (by decide +kernel)
  refine fun i hi => ?_
  have hleased := fun i hdone => network_done_leased (nprcAdapter 64) numberedRoster.mac
    numberedRoster.xid server run hpair.genuine i hdone
  obtain rfl | rfl := hi
  · exact ⟨hpair.first, hleased 0 hpair.first⟩
  · exact ⟨hpair.second, hleased 1 hpair.second⟩

/-- **No address is in use twice, from end to end**, with the two client-tracking backends.
Whatever the number of clients, and however the network delays, repeats and loses frames, as long
as the kernel receives genuine ones and its clock has not wrapped: two clients with different MACs
that finished with the same address were acknowledged it a lease time apart. -/
theorem network_no_double_lease {ι : Type} [DecidableEq ι] (mac : ι → Bytes 6)
    (xid : ι → UInt32) (config : DhcpConfig) (hpos : 0 < config.poolStart)
    (hlease : config.leaseTime.toNat + 4294 < 2 ^ 32) (maxLeases : UInt16)
    (leases : Fin maxLeases.toNat → DhcpLease) (prior : HashPool) (run : List (NetStep ι))
    (hperiod : InFirstPeriod run) :
    LeasesOnce (arrayAdapter maxLeases) mac xid (dhcpInitServerArray config leases) run ∧
      LeasesOnce hashmapAdapter mac xid (dhcpInitServerHashmap config prior maxLeases) run := by
  constructor
  · have hkeeps : KeepsLeases (processMessage (arrayAdapter maxLeases).calls)
        (dhcpInitServerArray config leases) :=
      (arrayOps_refines maxLeases).keepsLeases (dhcpArraypoolInit_represents _ _) hpos
    exact leasesOnce_of_keepsLeases hkeeps hperiod hlease
  · have hkeeps : KeepsLeases (processMessage hashmapAdapter.calls)
        (dhcpInitServerHashmap config prior maxLeases) :=
      hashOps_refines.keepsLeases (dhcpHashpoolInit_represents _ _ _) hpos
    exact leasesOnce_of_keepsLeases hkeeps hperiod hlease

/-- A pool of one address and leases of ten seconds: the second client of `main` gets the address
of the first one, twenty seconds later. -/
theorem network_no_double_lease_two_clients :
    let config := poolConfig 100 100 10
    let server := dhcpInitServerHashmap config HashPool.zeroed 1
    let prior : Cq := ⟨fun _ => 0, 0, 0, 0⟩
    let priorTab : XidTab (Fin numClients) := ⟨fun _ => .null, fun _ => false, 0⟩
    let run := netRunOf hashmapAdapter numberedRoster server prior priorTab
      (pairRun hashmapAdapter numberedRoster 0 server prior priorTab 0 1 0 20000000 100 100)
    let start := Net.fresh numberedRoster.mac numberedRoster.xid server
    let net := exec (netStep hashmapAdapter numberedRoster.mac numberedRoster.xid) start run
    let log := netLog hashmapAdapter numberedRoster.mac numberedRoster.xid start run
    (net.clients 0).state = .done ∧ (net.clients 1).state = .done ∧
      ∃ ip s t, (net.clients 0).assignedIp = packIP ip ∧
        Answered log dhcpAck (numberedRoster.mac 0) ip s ∧
        Answered log dhcpAck (numberedRoster.mac 1) ip t ∧ (s + 10 ≤ t ∨ t + 10 ≤ s) := by
  intro config server prior priorTab run
  have hpair : PairFinishes hashmapAdapter numberedRoster server 0 1 100 100 run :=
    first_two_finish _ server prior priorTab 0 20000000 _ _ hashOps.readsClient
      (by decide +kernel)
  have hperiod : InFirstPeriod run := by
    have hmicros : run.filterMap NetStep.micros = [0, 0, 20000000, 20000000] :=
      (micros_netRunOf hashmapAdapter numberedRoster server prior priorTab _).trans
        (micros_pairRun 0 prior priorTab)
    refine ⟨?_, ?_⟩ <;> rw [hmicros] <;> decide
  have honce := (network_no_double_lease numberedRoster.mac numberedRoster.xid config (by decide)
    (by decide) 1 (fun _ => ⟨⟨fun _ => 0, 0, 0⟩, false⟩) HashPool.zeroed run hperiod).2
    hpair.genuine
  have hmac : numberedRoster.mac 0 ≠ numberedRoster.mac 1 := by decide
  exact ⟨hpair.first, hpair.second, honce 0 1 hmac hpair.first hpair.second
    (hpair.assigned.1.trans hpair.assigned.2.symm)⟩

/-! ## The benchmark -/

/-- **What the benchmark reports.**  With the two client-tracking backends, clients with different
MACs and genuine frames, in every run of the threads against a kernel that at each of its turns has
been up for less than a lease time: the clients that `main` counts as passed have different
addresses, all of the pool, so that there are no more of them than the pool has addresses. -/
theorem benchmark_passed {n W : ℕ} (r : Roster n W) (hmac : Function.Injective r.mac)
    (config : DhcpConfig) (hpos : 0 < config.poolStart)
    (hlease : config.leaseTime.toNat + 4294 < 2 ^ 32) (maxLeases : UInt16)
    (leases : Fin maxLeases.toNat → DhcpLease) (priorPool : HashPool) (prior : Cq)
    (priorTab : XidTab (Fin n)) (run : List (BenchmarkStep W))
    (hbrief : Brief config.leaseTime.toNat run) :
    let array := dhcpInitServerArray config leases
    let hashmap := dhcpInitServerHashmap config priorPool maxLeases
    PassesApart (arrayAdapter maxLeases) r array prior priorTab run ∧
      PassesApart hashmapAdapter r hashmap prior priorTab run := by
  intro array hashmap
  constructor
  · have href := arrayOps_refines maxLeases
    have hrep := dhcpArraypoolInit_represents config.poolStart leases
    have hkeeps : KeepsLeases (processMessage (arrayAdapter maxLeases).calls) array :=
      href.keepsLeases hrep hpos
    have hpool : AcksInPool (arrayAdapter maxLeases) array :=
      fun before a x hack => href.inPool_of_isAck hrep before hack
    exact passesApart_of_keepsLeases hmac hkeeps hpool hlease hbrief
  · have hrep := dhcpHashpoolInit_represents priorPool config.poolStart maxLeases
    have hkeeps : KeepsLeases (processMessage hashmapAdapter.calls) hashmap :=
      hashOps_refines.keepsLeases hrep hpos
    have hpool : AcksInPool hashmapAdapter hashmap :=
      fun before a x hack => hashOps_refines.inPool_of_isAck hrep before hack
    exact passesApart_of_keepsLeases hmac hkeeps hpool hlease hbrief

/-- A pool of two addresses: the first two clients of `main` pass, and no address is left. -/
theorem benchmark_passed_two_clients :
    let config := poolConfig 100 101 10
    let server : DhcpServer (ArrayPool 2) :=
      dhcpInitServerArray config fun _ => ⟨⟨fun _ => 0, 0, 0⟩, false⟩
    let prior : Cq := ⟨fun _ => 0, 0, 0, 0⟩
    let priorTab : XidTab (Fin numClients) := ⟨fun _ => .null, fun _ => false, 0⟩
    let run := pairRun (arrayAdapter 2) numberedRoster 0 server prior priorTab 0 1 0 5000000 100
      101
    let f := (benchmarkAfter (arrayAdapter 2) numberedRoster server prior priorTab run).fleet
    passed f = 2 ∧ f.Leased 100 101 ∧ passed f ≤ 2 := by
  intro config server prior priorTab run
  obtain ⟨hgenuine, htwo⟩ := first_two_pass (arrayAdapter 2) server prior priorTab 0 5000000 100
    101 (arrayOps 2).readsClient (by decide +kernel)
  have hbrief : Brief 10 run := by
    have hmicros : run.filterMap BenchmarkStep.micros = [0, 0, 5000000, 5000000] :=
      micros_pairRun 0 prior priorTab
    refine ⟨?_, ?_, ?_⟩ <;> rw [hmicros] <;> decide
  exact ⟨htwo, (benchmark_passed numberedRoster numberedRoster_mac_injective config (by decide)
    (by decide) 2 (fun _ => ⟨⟨fun _ => 0, 0, 0⟩, false⟩) HashPool.zeroed prior priorTab run
    hbrief).1 hgenuine⟩

end BaremetalDhcp
