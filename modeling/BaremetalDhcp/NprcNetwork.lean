import BaremetalDhcp.PromptWorker
import BaremetalDhcp.AckedOnce

/-!
# A network whose server hands out each address once

The NPRC backend keeps no record of its clients and no clock.  What `EndToEnd` proves of the
backends that do, up to some time, holds of NPRC in every run: it acknowledges no address a second
time.

* `nprcEvent` — what a response says about the pool.
* `NprcServed`, `NprcServed.step` — the responses of a server are the log of its pool.
* `NprcServed.ackedOnce`, `acksInPool_nprc` — what a whole run acknowledges.

`network_nprc_once` is about any clients on the network, `benchmark_passed_nprc` about the
clients that `main` counts.
-/

namespace BaremetalDhcp

open Machine

/-! ## Responses and the pool -/

/-- The call that a response reports. -/
def nprcEvent (response : Option DhcpMessage) : Option NprcEvent :=
  response.bind fun msg =>
    if dhcpGetMessageType msg (fun _ => 0) = dhcpOffer then some (.offered msg.yiaddr)
    else if dhcpGetMessageType msg (fun _ => 0) = dhcpAck then some (.acked msg.yiaddr)
    else none

theorem nprcEvent_of_isOffer {response : Option DhcpMessage} {ip : UInt32}
    (h : IsOffer ip response) : nprcEvent response = some (.offered ip) := by
  obtain ⟨msg, rfl, htype, rfl⟩ := h
  exact if_pos htype

theorem nprcEvent_of_isAck {response : Option DhcpMessage} {ip : UInt32}
    (h : IsAck ip response) : nprcEvent response = some (.acked ip) := by
  obtain ⟨msg, rfl, htype, rfl⟩ := h
  have hoffer : dhcpGetMessageType msg (fun _ => 0) ≠ dhcpOffer := by rw [htype]; decide
  exact (if_neg hoffer).trans (if_pos htype)

theorem nprcEvent_dhcpBuildNak (request : DhcpMessage) :
    nprcEvent (some (dhcpBuildNak request)) = none := by
  have htype : dhcpGetMessageType (dhcpBuildNak request) (fun _ => 0) = dhcpNak :=
    (isReply_some.mp (isReply_dhcpBuildNak.mpr ⟨rfl, rfl⟩)).1
  have hoffer : dhcpGetMessageType (dhcpBuildNak request) (fun _ => 0) ≠ dhcpOffer := by
    rw [htype]
    decide
  have hack : dhcpGetMessageType (dhcpBuildNak request) (fun _ => 0) ≠ dhcpAck := by
    rw [htype]
    decide
  rw [nprcEvent, Option.bind_some, if_neg hoffer, if_neg hack]

section Server

variable {W : ℕ} {config : DhcpConfig} {server : DhcpServer (NprcPool W)}
  {responses : List (Option DhcpMessage)}

/-- The responses so far are the log of the pool. -/
structure NprcServed (config : DhcpConfig) (server : DhcpServer (NprcPool W))
    (responses : List (Option DhcpMessage)) : Prop where
  config_eq : server.config = config
  logs : server.pool.Logs config.poolStart config.poolEnd (responses.map nprcEvent)

theorem nprcServed_init (hconfig : config.WellFormed) :
    NprcServed config (dhcpInitServerNprc W config) [] where
  config_eq := rfl
  logs := NprcPool.logs_init hconfig.le

/-- **One message** is one call of the pool, or none. -/
theorem NprcServed.step (hword : W = 32 ∨ W = 64) (hconfig : config.WellFormed)
    (h : NprcServed config server responses) (a : Arrival) :
    NprcServed config (dhcpProcessMessageNprc server a).1
      (responses ++ [(dhcpProcessMessageNprc server a).2]) := by
  obtain ⟨rfl, hlogs⟩ := h
  have hstep := hlogs.step hword hconfig.pos hconfig.fits
  have hidle : server.pool.Logs server.config.poolStart server.config.poolEnd
      (responses.map nprcEvent ++ [none]) := hlogs.append_none hlogs.tracks rfl
  rw [dhcpProcessMessageNprc]
  obtain hd | ⟨hr, ip, hip⟩ | hc | hi := a.cases
  · rw [processMessage_discover hd]
    refine ⟨rfl, ?_⟩
    rw [List.map_append, List.map_singleton]
    have hfind : (nprcCalls.discover server a).1.pool.Logs server.config.poolStart
        server.config.poolEnd (responses.map nprcEvent ++
          [if (nprcCalls.discover server a).2 ≠ 0 then
            some (.offered (nprcCalls.discover server a).2) else none]) :=
      hstep .findAvailableIp
    by_cases hfound : (nprcCalls.discover server a).2 ≠ 0
    · rw [if_pos hfound, nprcEvent_of_isOffer (isReply_dhcpBuildOffer.mpr ⟨rfl, rfl⟩)]
      rw [if_pos hfound] at hfind
      exact hfind
    · rw [if_neg hfound]
      rw [if_neg hfound] at hfind
      exact hfind
  · rw [processMessage_request hr hip]
    refine ⟨rfl, ?_⟩
    rw [List.map_append, List.map_singleton]
    have hcommit : (nprcCalls.request server ip a).1.pool.Logs server.config.poolStart
        server.config.poolEnd (responses.map nprcEvent ++
          [if (nprcCalls.request server ip a).2 then some (.acked ip) else none]) :=
      hstep (.commitIp ip)
    by_cases hok : (nprcCalls.request server ip a).2 = true
    · rw [if_pos hok, nprcEvent_of_isAck (isReply_dhcpBuildAck.mpr ⟨rfl, rfl⟩)]
      rw [if_pos hok] at hcommit
      exact hcommit
    · rw [if_neg hok, nprcEvent_dhcpBuildNak]
      rw [if_neg hok] at hcommit
      exact hcommit
  · rw [processMessage_decline hc]
    refine ⟨rfl, ?_⟩
    rw [List.map_append]
    exact hidle
  · rw [processMessage_ignored hi]
    refine ⟨rfl, ?_⟩
    rw [List.map_append]
    exact hidle

/-- **Every run** of the server. -/
theorem nprcServed_exec (hword : W = 32 ∨ W = 64) (hconfig : config.WellFormed)
    (run : List Arrival) :
    NprcServed config (exec dhcpProcessMessageNprc (dhcpInitServerNprc W config) run)
      (outputs dhcpProcessMessageNprc (dhcpInitServerNprc W config) run) :=
  exec_outputs_inv (NprcServed config) (fun _ => True)
    (fun _ _ a h _ => h.step hword hconfig a) run _ [] (nprcServed_init hconfig)
    fun _ _ => trivial

/-- **No address is acknowledged twice.** -/
theorem NprcServed.ackedOnce (h : NprcServed config server responses) : AckedOnce responses := by
  have hnodup := h.logs.nodup_acks
  rw [acksOf, List.Nodup, List.pairwise_filterMap, List.pairwise_map] at hnodup
  refine hnodup.imp fun hne ip hack hack' => ?_
  rw [nprcEvent_of_isAck hack, nprcEvent_of_isAck hack'] at hne
  exact hne ip rfl ip rfl rfl

end Server

/-- What is acknowledged is an address of the pool. -/
theorem acksInPool_nprc {W : ℕ} (hword : W = 32 ∨ W = 64) {config : DhcpConfig}
    (hconfig : config.WellFormed) : AcksInPool (nprcAdapter W) (dhcpInitServerNprc W config) := by
  intro before a x hack
  obtain ⟨hsame, acked, htracks⟩ :=
    dhcpInitServerNprc_tracks hword hconfig.pos hconfig.fits hconfig.le before
  obtain ⟨-, -, hgranted⟩ := isAck_processMessage_iff.mp hack
  set reached := exec (processMessage (nprcAdapter W).calls) (dhcpInitServerNprc W config) before
  have hcommit : (dhcpNprcCommitIp reached.pool x config.poolStart config.poolEnd).2 = true := by
    rw [← show reached.config = config from hsame]
    exact hgranted
  obtain ⟨k, hx, -, hlt, -⟩ | ⟨-, hrefused⟩ := htracks.commit x hconfig.pos hconfig.fits
  · have hpool := htracks.in_pool
    show InPool config.poolStart config.poolEnd x
    exact ⟨UInt32.le_iff_toNat_le.mpr (by omega), UInt32.le_iff_toNat_le.mpr (by omega)⟩
  · rw [show dhcpNprcCommitIp reached.pool x config.poolStart config.poolEnd = _ from hrefused]
      at hcommit
    cases hcommit

/-! ## The network -/

/-- **With NPRC an address is in use at most once, for ever.**  Whatever the number of clients,
and however the network delays, repeats and loses frames, at any time, as long as the kernel
receives genuine ones: clients with different MACs that finished have different addresses, all of
the pool. -/
theorem network_nprc_once {W : ℕ} (hword : W = 32 ∨ W = 64) {ι : Type} [DecidableEq ι]
    (mac : ι → Bytes 6) (xid : ι → UInt32) (config : DhcpConfig) (hconfig : config.WellFormed)
    (run : List (NetStep ι))
    (hgenuine : Along (netStep (nprcAdapter W) mac xid) (GenuineStep (nprcAdapter W) mac xid)
      (Net.fresh mac xid (dhcpInitServerNprc W config)) run) :
    let net := exec (netStep (nprcAdapter W) mac xid)
      (Net.fresh mac xid (dhcpInitServerNprc W config)) run
    (∀ i, (net.clients i).state = .done →
        InPool config.poolStart config.poolEnd (unpackIP (net.clients i).assignedIp)) ∧
      ∀ i j, mac i ≠ mac j → (net.clients i).state = .done → (net.clients j).state = .done →
        (net.clients i).assignedIp ≠ (net.clients j).assignedIp :=
  finished_of_ackedOnce (acksInPool_nprc hword hconfig) run
    (nprcServed_exec hword hconfig _).ackedOnce
    (Net.inv_exec (dhcpInitServerNprc W config) run hgenuine)

/-- The first two clients of `main` finish, the second one two hours after the first. -/
theorem network_nprc_once_two_clients :
    let server := dhcpInitServerNprc 64 circleConfig
    let prior : Cq := ⟨fun _ => 0, 0, 0, 0⟩
    let priorTab : XidTab (Fin numClients) := ⟨fun _ => .null, fun _ => false, 0⟩
    let run := netRunOf (nprcAdapter 64) numberedRoster server prior priorTab
      (pairRun (nprcAdapter 64) numberedRoster 0 server prior priorTab 0 1 0 7200000000 0xC0A80464
        0xC0A80465)
    let start := Net.fresh numberedRoster.mac numberedRoster.xid server
    let net := exec (netStep (nprcAdapter 64) numberedRoster.mac numberedRoster.xid) start run
    (net.clients 0).state = .done ∧ (net.clients 1).state = .done ∧
      (net.clients 0).assignedIp ≠ (net.clients 1).assignedIp := by
  intro server prior priorTab run
  have hpair : PairFinishes (nprcAdapter 64) numberedRoster server 0 1 0xC0A80464 0xC0A80465 run :=
    first_two_finish _ server prior priorTab 0 7200000000 _ _ (nprcCalls_readsClient 64)
      (by decide +kernel)
  have hmac : numberedRoster.mac 0 ≠ numberedRoster.mac 1 := by decide
  exact ⟨hpair.first, hpair.second, (network_nprc_once (Or.inr rfl) numberedRoster.mac
    numberedRoster.xid circleConfig circleConfig_wellFormed run hpair.genuine).2 0 1 hmac
    hpair.first hpair.second⟩

/-- **What the benchmark reports with NPRC.**  However long it runs, with clients of different
MACs and genuine frames, the clients that `main` counts as passed have different addresses, all of
the pool, so that there are no more of them than the pool has addresses. -/
theorem benchmark_passed_nprc {W : ℕ} (hword : W = 32 ∨ W = 64) {n workers : ℕ}
    (r : Roster n workers) (hmac : Function.Injective r.mac) (config : DhcpConfig)
    (hconfig : config.WellFormed) (prior : Cq) (priorTab : XidTab (Fin n))
    (run : List (BenchmarkStep workers)) :
    PassesApart (nprcAdapter W) r (dhcpInitServerNprc W config) prior priorTab run :=
  passesApart_of_ackedOnce hmac (acksInPool_nprc hword hconfig)
    (nprcServed_exec hword hconfig _).ackedOnce

/-- A pool of two addresses: the first two clients of `main` pass, and no address is left. -/
theorem benchmark_passed_nprc_two_clients :
    let server := dhcpInitServerNprc 32 (poolConfig 100 101 10)
    let prior : Cq := ⟨fun _ => 0, 0, 0, 0⟩
    let priorTab : XidTab (Fin numClients) := ⟨fun _ => .null, fun _ => false, 0⟩
    let run := pairRun (nprcAdapter 32) numberedRoster 0 server prior priorTab 0 1 0 7200000000 100
      101
    let f := (benchmarkAfter (nprcAdapter 32) numberedRoster server prior priorTab run).fleet
    passed f = 2 ∧ f.Leased 100 101 ∧ passed f ≤ 2 := by
  intro server prior priorTab run
  obtain ⟨hgenuine, htwo⟩ := first_two_pass (nprcAdapter 32) server prior priorTab 0 7200000000
    100 101 (nprcCalls_readsClient 32) (by decide +kernel)
  exact ⟨htwo, benchmark_passed_nprc (Or.inl rfl) numberedRoster numberedRoster_mac_injective
    (poolConfig 100 101 10) ⟨by decide, by decide, by decide⟩ prior priorTab run hgenuine⟩

end BaremetalDhcp
