import BaremetalDhcp.PromptWorker
import BaremetalDhcp.AckedOnce

/-!
# A network whose server keeps a bitmap

The two bitmap backends mark an address when they acknowledge it, and clear the marks of a whole
range when a DISCOVER comes after the end of its timer.  A timer ends `lease_time` after the
DISCOVER that has started it.  So while the clock of the kernel stands below the lease time no
timer has run out, no mark is cleared, and an address is acknowledged at most once.  The clock
counts to 4294 and then starts again at 0: with a lease time above that, this is every run.

* `BmRange.NotDue` — the timer is not running, or ends at the lease time or later.
* `BmPoolVar.Unexpired`, `BmPoolUni.Unexpired` — no timer of the pool is due; one message keeps
  it so, and keeps the marks.
* `Initialised.ackedOnce` — what the rule of marks makes of it.

`network_bitmap_once` is about any clients on the network, `benchmark_passed_bitmap` about the
clients that `main` counts.
-/

namespace BaremetalDhcp

open Machine

/-- The timer of a range is not running, or ends at the lease time at the earliest. -/
def BmRange.NotDue (leaseTime : UInt32) (g : BmRange) : Prop :=
  g.expireTime = 0 ∨ leaseTime ≤ g.expireTime

/-- A DISCOVER before the lease time leaves the marks of a range alone. -/
theorem BmRange.NotDue.evolves {leaseTime rangeSize curTime : UInt32} {g g' : BmRange}
    (h : g.NotDue leaseTime) (hnow : curTime < leaseTime)
    (hfits : curTime.toNat + leaseTime.toNat < 2 ^ 32)
    (hevolves : g.Evolves leaseTime rangeSize curTime g') :
    g'.ips = g.ips ∧ g'.NotDue leaseTime := by
  obtain ⟨hips, hsame | ⟨-, hstarted⟩⟩ | ⟨hpos, hover, -⟩ := hevolves
  · refine ⟨hips, ?_⟩
    rw [BmRange.NotDue, hsame]
    exact h
  · refine ⟨hips, Or.inr ?_⟩
    rw [hstarted, UInt32.le_iff_toNat_le, UInt32.toNat_add, Nat.mod_eq_of_lt hfits]
    exact Nat.le_add_left _ _
  · obtain hzero | hlater := h
    · rw [hzero] at hpos
      exact absurd hpos (UInt32.lt_irrefl 0)
    · exact absurd (UInt32.lt_of_le_of_lt (UInt32.le_trans hlater hover) hnow)
        (UInt32.lt_irrefl _)

/-- A message comes before the lease time, and a timer started then does not wrap around. -/
def Arrival.Early (leaseTime : UInt32) (a : Arrival) : Prop :=
  a.curTime < leaseTime ∧ a.curTime.toNat + leaseTime.toNat < 2 ^ 32

/-- A server that grants addresses of its pool only, and keeps the pool. -/
theorem acksInPool_of_granted {P : Type} {adapter : Adapter P} {server : DhcpServer P}
    (hkept : ∀ before,
      (exec (processMessage adapter.calls) server before).config.poolStart =
          server.config.poolStart ∧
        (exec (processMessage adapter.calls) server before).config.poolEnd =
          server.config.poolEnd)
    (hgranted : ∀ (s : DhcpServer P) (ip : UInt32) (a : Arrival),
      (adapter.calls.request s ip a).2 = true →
        InPool s.config.poolStart s.config.poolEnd ip) : AcksInPool adapter server := by
  intro before a x hack
  obtain ⟨-, -, hok⟩ := isAck_processMessage_iff.mp hack
  have hin := hgranted _ x a hok
  rw [(hkept before).1, (hkept before).2] at hin
  exact hin

/-! ## BITMAP_VARTIME -/

section Vartime

variable {pool : BmPoolVar} {server : DhcpServer BmPoolVar} {a : Arrival} {leaseTime : UInt32}

/-- The second half of a peek starts at most the timer, and only if it is not running. -/
theorem BmPoolVar.offer_range (pool : BmPoolVar) (curTime : UInt32) :
    (pool.offer curTime).1.range = pool.range ∨
      pool.range.expireTime = 0 ∧ (pool.offer curTime).1.range =
        { pool.range with expireTime := curTime + pool.leaseTime } := by
  unfold BmPoolVar.offer
  by_cases hzero : pool.range.expireTime = 0
  · simp only [hzero, if_true]
    split_ifs
    · exact Or.inl rfl
    · exact Or.inr ⟨trivial, rfl⟩
    · exact Or.inr ⟨trivial, rfl⟩
  · simp only [hzero, if_false]
    split_ifs <;> exact Or.inl rfl

/-- One DISCOVER seen from the range. -/
theorem dhcpBmpoolVarPeek_evolves (pool : BmPoolVar) (curTime : UInt32) :
    pool.range.Evolves pool.leaseTime pool.rangeSize curTime
      (dhcpBmpoolVarPeek pool curTime).1.range := by
  rw [dhcpBmpoolVarPeek_eq]
  by_cases hover : pool.range.expireTime > 0 ∧ pool.range.expireTime ≤ curTime
  · rw [BmPoolVar.refresh, if_pos hover]
    refine Or.inr ⟨hover.1, hover.2, ?_⟩
    obtain hsame | ⟨-, hstarted⟩ := (dhcpBmpoolVarRecycle pool).offer_range curTime
    · rw [hsame]
      rfl
    · rw [hstarted]
      rfl
  · rw [BmPoolVar.refresh, if_neg hover]
    obtain hsame | ⟨hzero, hstarted⟩ := pool.offer_range curTime
    · rw [hsame]
      exact BmRange.Evolves.refl _
    · rw [hstarted]
      exact Or.inl ⟨rfl, Or.inr ⟨hzero, rfl⟩⟩

/-- The lease time of the pool is the given one, and its timer is not due. -/
structure BmPoolVar.Unexpired (leaseTime : UInt32) (pool : BmPoolVar) : Prop where
  leaseTime_eq : pool.leaseTime = leaseTime
  notDue : pool.range.NotDue leaseTime

/-- The address is marked. -/
def BmPoolVar.Marked (pool : BmPoolVar) (x : UInt32) : Prop :=
  slotUsed pool.range.ips (x - pool.poolStart).toNat = true

theorem BmPoolVar.Unexpired.peek (h : pool.Unexpired leaseTime) {curTime : UInt32}
    (hnow : curTime < leaseTime) (hfits : curTime.toNat + leaseTime.toNat < 2 ^ 32) :
    (dhcpBmpoolVarPeek pool curTime).1.Unexpired leaseTime ∧
      ∀ x, pool.Marked x → (dhcpBmpoolVarPeek pool curTime).1.Marked x := by
  have hpeek := dhcpBmpoolVarPeek_evolves pool curTime
  rw [h.leaseTime_eq] at hpeek
  obtain ⟨hips, hnotDue⟩ := h.notDue.evolves hnow hfits hpeek
  obtain ⟨hstart, -⟩ := (dhcpBmpoolVarPeek_range pool curTime).1
  have hlease := (dhcpBmpoolVarPeek_timer pool curTime).1
  refine ⟨⟨hlease.trans h.leaseTime_eq, hnotDue⟩, fun x hx => ?_⟩
  rw [BmPoolVar.Marked, hips, hstart]
  exact hx

theorem BmPoolVar.Unexpired.commit (h : pool.Unexpired leaseTime) (ip : UInt32) :
    (dhcpBmpoolVarCommitIp pool ip).1.Unexpired leaseTime ∧
      ∀ x, pool.Marked x → (dhcpBmpoolVarCommitIp pool ip).1.Marked x := by
  obtain hcommit | ⟨-, hcommit⟩ := dhcpBmpoolVarCommitIp_cases pool ip
  · rw [hcommit]
    exact ⟨h, fun _ hx => hx⟩
  · rw [hcommit]
    exact ⟨⟨h.leaseTime_eq, h.notDue⟩, fun x hx => (slotUsed_dhcpBmSet _ _ _).mpr (Or.inr hx)⟩

/-- **One message** before the lease time keeps the timer and the marks. -/
theorem BmPoolVar.Unexpired.step (h : server.pool.Unexpired leaseTime)
    (hearly : a.Early leaseTime) :
    (dhcpProcessMessageBmvar server a).1.pool.Unexpired leaseTime ∧
      ∀ x, server.pool.Marked x → (dhcpProcessMessageBmvar server a).1.pool.Marked x := by
  unfold dhcpProcessMessageBmvar
  obtain hd | ⟨hr, ip, hip⟩ | hc | hi := a.cases
  · rw [processMessage_discover hd]
    exact h.peek hearly.1 hearly.2
  · rw [processMessage_request hr hip]
    show (bmvarCalls.request server ip a).1.pool.Unexpired leaseTime ∧
      ∀ x, server.pool.Marked x → (bmvarCalls.request server ip a).1.pool.Marked x
    obtain hsame | hcommit := bmvarCalls_request_pool server ip a
    · rw [hsame]
      exact ⟨h, fun _ hx => hx⟩
    · rw [hcommit]
      exact h.commit ip
  · rw [processMessage_decline hc]
    exact ⟨h, fun _ hx => hx⟩
  · rw [processMessage_ignored hi]
    exact ⟨h, fun _ hx => hx⟩

/-- An acknowledged address had no mark, and has one now. -/
theorem BmPoolVar.marked_of_isAck {x : UInt32}
    (hack : IsAck x (dhcpProcessMessageBmvar server a).2) :
    ¬ server.pool.Marked x ∧ (dhcpProcessMessageBmvar server a).1.pool.Marked x := by
  obtain ⟨hr, hip, hgranted⟩ := isAck_processMessage_iff.mp hack
  obtain ⟨hfree, hnext⟩ := bmvarCalls_request_granted hgranted
  refine ⟨fun hmarked => ?_, ?_⟩
  · rw [BmPoolVar.Marked, hfree] at hmarked
    cases hmarked
  · rw [dhcpProcessMessageBmvar, processMessage_request hr hip]
    show (bmvarCalls.request server x a).1.pool.Marked x
    rw [hnext]
    exact (slotUsed_dhcpBmSet _ _ _).mpr (Or.inl rfl)

theorem bmvar_ackedOnce (config : DhcpConfig) (range : BmRange) (rangeSize : UInt32)
    (run : List Arrival) (hearly : ∀ a ∈ run, a.Early config.leaseTime) :
    AckedOnce (outputs dhcpProcessMessageBmvar (dhcpInitServerBmvar config range rangeSize)
      run) :=
  (outputs_once (fun s : DhcpServer BmPoolVar => s.pool.Unexpired config.leaseTime)
    (fun a => a.Early config.leaseTime) (fun s x => s.pool.Marked x) (fun r x => IsAck x r)
    (fun _ _ h hok => ⟨(h.step hok).1, (h.step hok).2, fun _ => BmPoolVar.marked_of_isAck⟩)
    run (dhcpInitServerBmvar config range rangeSize) ⟨rfl, Or.inl rfl⟩ hearly).2

theorem inPool_of_bmvar_granted {ip : UInt32} (h : (bmvarCalls.request server ip a).2 = true) :
    InPool server.config.poolStart server.config.poolEnd ip := by
  by_contra hout
  simp only [bmvarCalls] at h
  rw [if_neg hout] at h
  cases h

theorem acksInPool_bmvar (config : DhcpConfig) (range : BmRange) (rangeSize : UInt32) :
    AcksInPool bmvarAdapter (dhcpInitServerBmvar config range rangeSize) := by
  refine acksInPool_of_granted (fun before => ?_) fun _ _ _ => inPool_of_bmvar_granted
  have hplaced := exec_inv (VarPlaced config rangeSize) (fun _ => True)
    (fun _ a hs _ => hs.step a) before (dhcpInitServerBmvar config range rangeSize)
    ⟨rfl, rfl, rfl, rfl⟩ fun _ _ => trivial
  exact ⟨hplaced.configStart_eq, hplaced.configEnd_eq⟩

end Vartime

/-! ## BITMAP_UNITIME -/

section Unitime

variable {server : DhcpServer BmPoolUni} {a : Arrival} {poolStart leaseTime rangeSize : UInt32}
  {numRanges : UInt8}

/-- The pool has its shape, and no timer of its ranges is due. -/
structure BmPoolUni.Unexpired (poolStart leaseTime rangeSize : UInt32) (numRanges : UInt8)
    (pool : BmPoolUni) : Prop where
  placed : pool.Placed poolStart leaseTime rangeSize numRanges
  notDue : ∀ r < numRanges.toNat, (pool.ranges r).NotDue leaseTime

/-- The address is in one of the ranges, and is marked there. -/
def BmPoolUni.Marked (poolStart rangeSize : UInt32) (numRanges : UInt8) (pool : BmPoolUni)
    (x : UInt32) : Prop :=
  rangeIndex poolStart rangeSize x < numRanges.toNat ∧
    slotUsed (pool.ranges (rangeIndex poolStart rangeSize x)).ips
      (rangeSlot poolStart rangeSize x) = true

theorem BmPoolUni.unexpired_init (prior : BmPoolUni) (config : DhcpConfig)
    (ranges : ℕ → BmRange) (hnum : 0 < numRanges) (hsize : 0 < rangeSize)
    (hfits : config.poolStart.toNat + numRanges.toNat * rangeSize.toNat < 2 ^ 32) :
    (dhcpInitServerBmuni prior config ranges rangeSize numRanges).pool.Unexpired
      config.poolStart config.leaseTime rangeSize numRanges := by
  refine ⟨dhcpBmpoolUniInit_placed prior ranges hnum hsize hfits, fun r hr => Or.inl ?_⟩
  rw [dhcpInitServerBmuni, dhcpBmpoolUniInit_eq]
  dsimp only
  rw [if_pos hr]
  rfl

/-- **One message** before the lease time keeps the timers and the marks. -/
theorem BmPoolUni.Unexpired.step
    (h : server.pool.Unexpired poolStart leaseTime rangeSize numRanges)
    (hearly : a.Early leaseTime) :
    (dhcpProcessMessageBmuni server a).1.pool.Unexpired poolStart leaseTime rangeSize numRanges ∧
      ∀ x, server.pool.Marked poolStart rangeSize numRanges x →
        (dhcpProcessMessageBmuni server a).1.pool.Marked poolStart rangeSize numRanges x := by
  obtain ⟨-, hplaced, ⟨-, hpeek⟩ | ⟨ip, -, hfree, hcommit⟩ | hsame⟩ := h.placed.step_cases a
  · have hranges : ∀ r < numRanges.toNat,
        ((dhcpProcessMessageBmuni server a).1.pool.ranges r).ips = (server.pool.ranges r).ips ∧
          ((dhcpProcessMessageBmuni server a).1.pool.ranges r).NotDue leaseTime := by
      intro r hr
      have hevolves := (dhcpBmpoolUniPeek_spec server.pool a.curTime).2 r
      rw [h.placed.leaseTime_eq, ← hpeek] at hevolves
      exact (h.notDue r hr).evolves hearly.1 hearly.2 hevolves
    refine ⟨⟨hplaced, fun r hr => (hranges r hr).2⟩, fun x hx => ⟨hx.1, ?_⟩⟩
    rw [(hranges _ hx.1).1]
    exact hx.2
  · obtain ⟨hused, -⟩ | ⟨-, -, -, hranges⟩ := h.placed.commit_spec ip
    · rw [hused] at hfree
      cases hfree
    · rw [← hcommit] at hranges
      refine ⟨⟨hplaced, fun r hr => ?_⟩, fun x hx => ⟨hx.1, ((hranges _).2 _).mpr (Or.inr hx.2)⟩⟩
      rw [BmRange.NotDue, (hranges r).1]
      exact h.notDue r hr
  · rw [hsame]
    exact ⟨h, fun _ hx => hx⟩

/-- An acknowledged address had no mark, and has one now. -/
theorem BmPoolUni.Unexpired.marked_of_isAck
    (h : server.pool.Unexpired poolStart leaseTime rangeSize numRanges) {x : UInt32}
    (hack : IsAck x (dhcpProcessMessageBmuni server a).2) :
    ¬ server.pool.Marked poolStart rangeSize numRanges x ∧
      (dhcpProcessMessageBmuni server a).1.pool.Marked poolStart rangeSize numRanges x := by
  obtain ⟨hfree, hnext⟩ := h.placed.of_isAck hack
  obtain ⟨-, hidx, hslot⟩ := (h.placed.ipUsed_eq_false_iff x).mp hfree
  refine ⟨fun hmarked => ?_, ?_⟩
  · rw [hmarked.2] at hslot
    cases hslot
  · obtain ⟨hused, -⟩ | ⟨-, -, -, hranges⟩ := h.placed.commit_spec x
    · rw [hused] at hfree
      cases hfree
    · rw [hnext]
      exact ⟨hidx ▸ h.placed.cur_lt, ((hranges _).2 _).mpr (Or.inl ⟨rfl, rfl⟩)⟩

theorem bmuni_ackedOnce (prior : BmPoolUni) (config : DhcpConfig) (ranges : ℕ → BmRange)
    (hnum : 0 < numRanges) (hsize : 0 < rangeSize)
    (hfits : config.poolStart.toNat + numRanges.toNat * rangeSize.toNat < 2 ^ 32)
    (run : List Arrival) (hearly : ∀ a ∈ run, a.Early config.leaseTime) :
    AckedOnce (outputs dhcpProcessMessageBmuni
      (dhcpInitServerBmuni prior config ranges rangeSize numRanges) run) :=
  (outputs_once
    (fun s : DhcpServer BmPoolUni => s.pool.Unexpired config.poolStart config.leaseTime rangeSize
      numRanges)
    (fun a => a.Early config.leaseTime)
    (fun s x => s.pool.Marked config.poolStart rangeSize numRanges x) (fun r x => IsAck x r)
    (fun _ _ h hok => ⟨(h.step hok).1, (h.step hok).2, fun _ => h.marked_of_isAck⟩)
    run _ (BmPoolUni.unexpired_init prior config ranges hnum hsize hfits) hearly).2

theorem acksInPool_bmuni (prior : BmPoolUni) (config : DhcpConfig) (ranges : ℕ → BmRange)
    (hnum : 0 < numRanges) (hsize : 0 < rangeSize)
    (hfits : config.poolStart.toNat + numRanges.toNat * rangeSize.toNat < 2 ^ 32) :
    AcksInPool bmuniAdapter (dhcpInitServerBmuni prior config ranges rangeSize numRanges) := by
  refine acksInPool_of_granted (fun before => ?_) fun s ip a hgranted => ?_
  · have hplaced := (BmPoolUni.unexpired_init prior config ranges hnum hsize hfits).placed
    have hsame := (hplaced.exec before).1
    exact ⟨congrArg DhcpConfig.poolStart hsame, congrArg DhcpConfig.poolEnd hsame⟩
  · change (bmuniCalls.request s ip a).2 = true at hgranted
    obtain ⟨hin, -⟩ | ⟨-, hrefused⟩ := bmuniCalls_request s ip a
    · exact hin
    · rw [hrefused] at hgranted
      cases hgranted

end Unitime

/-! ## Both bitmaps -/

section Modes

variable {config : DhcpConfig} {mode : LeaseMode} {server : DhcpServer mode.Pool}

theorem Initialised.config_eq (h : Initialised config mode server) : server.config = config := by
  cases h <;> rfl

/-- **Before the lease time an address is acknowledged once.** -/
theorem Initialised.ackedOnce (h : Initialised config mode server) (hconfig : config.WellFormed)
    (hbitmap : mode = .bmvar ∨ mode = .bmuni) (run : List Arrival)
    (hearly : ∀ a ∈ run, a.Early config.leaseTime) :
    AckedOnce (outputs (processMessage mode.adapter.calls) server run) := by
  cases h with
  | bmvar range rangeSize => exact bmvar_ackedOnce config range rangeSize run hearly
  | bmuni prior ranges rangeSize numRanges hsize hnum hfits =>
      exact bmuni_ackedOnce prior config ranges hnum hsize (hfits.trans_lt hconfig.fits) run hearly
  | array | hashmap | nprc => simp at hbitmap

theorem Initialised.acksInPool (h : Initialised config mode server) (hconfig : config.WellFormed)
    (hbitmap : mode = .bmvar ∨ mode = .bmuni) : AcksInPool mode.adapter server := by
  cases h with
  | bmvar range rangeSize => exact acksInPool_bmvar config range rangeSize
  | bmuni prior ranges rangeSize numRanges hsize hnum hfits =>
      exact acksInPool_bmuni prior config ranges hnum hsize (hfits.trans_lt hconfig.fits)
  | array | hashmap | nprc => simp at hbitmap

/-- The messages in the log come before the lease time if the turns do. -/
theorem early_netLog {P ι : Type} [DecidableEq ι] {adapter : Adapter P} {mac : ι → Bytes 6}
    {xid : ι → UInt32} {leaseTime : UInt32} (hlease : leaseTime.toNat + 4294 < 2 ^ 32)
    (run : List (NetStep ι)) (net : Net P ι)
    (hclock : ∀ micros ∈ run.filterMap NetStep.micros, tsInSec micros < leaseTime) :
    ∀ a ∈ (netLog adapter mac xid net run).map LogEntry.arrival, a.Early leaseTime := by
  intro a ha
  obtain ⟨e, he, rfl⟩ := List.mem_map.mp ha
  have htimes := (@times_netLog P ι _ adapter mac xid run net).subset
    (List.mem_map_of_mem (f := fun e : LogEntry => e.arrival.curTime) he)
  obtain ⟨micros, hmicros, htime⟩ := List.mem_map.mp htimes
  have hperiod : (tsInSec micros).toNat ≤ 4294 := by
    rw [toNat_tsInSec, sinceWrap]
    omega
  rw [Arrival.Early, ← htime]
  exact ⟨hclock micros hmicros, by omega⟩

end Modes

/-- **With a bitmap an address is in use at most once before the lease time.**  While the clock
of the kernel stands below the lease time at every turn, and however the network delays, repeats
and loses frames, as long as the kernel receives genuine ones: clients with different MACs that
finished have different addresses, all of the pool. -/
theorem network_bitmap_once {config : DhcpConfig} (hconfig : config.WellFormed)
    (hlease : config.leaseTime.toNat + 4294 < 2 ^ 32) {mode : LeaseMode}
    (hbitmap : mode = .bmvar ∨ mode = .bmuni) {server : DhcpServer mode.Pool}
    (hinit : Initialised config mode server) {ι : Type} [DecidableEq ι] (mac : ι → Bytes 6)
    (xid : ι → UInt32) (run : List (NetStep ι))
    (hclock : ∀ micros ∈ run.filterMap NetStep.micros, tsInSec micros < config.leaseTime)
    (hgenuine : Along (netStep mode.adapter mac xid) (GenuineStep mode.adapter mac xid)
      (Net.fresh mac xid server) run) :
    let net := exec (netStep mode.adapter mac xid) (Net.fresh mac xid server) run
    (∀ i, (net.clients i).state = .done →
        InPool config.poolStart config.poolEnd (unpackIP (net.clients i).assignedIp)) ∧
      ∀ i j, mac i ≠ mac j → (net.clients i).state = .done → (net.clients j).state = .done →
        (net.clients i).assignedIp ≠ (net.clients j).assignedIp := by
  intro net
  have hfinished := finished_of_ackedOnce (hinit.acksInPool hconfig hbitmap) run
    (hinit.ackedOnce hconfig hbitmap _ (early_netLog hlease run _ hclock))
    (Net.inv_exec server run hgenuine)
  rw [hinit.config_eq] at hfinished
  exact hfinished

/-- The first two clients of `main` finish, with a BITMAP_UNITIME server of four ranges and five
seconds after one another. -/
theorem network_bitmap_once_two_clients :
    let empty : BmPoolUni := ⟨0, 0, 0, fun _ => ⟨fun _ => 0, 0⟩, 0, 0, 0⟩
    let server := dhcpInitServerBmuni empty circleConfig (fun _ => ⟨fun _ => 0, 0⟩) 16103 4
    let prior : Cq := ⟨fun _ => 0, 0, 0, 0⟩
    let priorTab : XidTab (Fin numClients) := ⟨fun _ => .null, fun _ => false, 0⟩
    let run := netRunOf bmuniAdapter numberedRoster server prior priorTab
      (pairRun bmuniAdapter numberedRoster 0 server prior priorTab 0 1 0 5000000 0xC0A80464
        0xC0A80465)
    let start := Net.fresh numberedRoster.mac numberedRoster.xid server
    let net := exec (netStep bmuniAdapter numberedRoster.mac numberedRoster.xid) start run
    (net.clients 0).state = .done ∧ (net.clients 1).state = .done ∧
      (net.clients 0).assignedIp ≠ (net.clients 1).assignedIp := by
  intro empty server prior priorTab run
  have hpair : PairFinishes bmuniAdapter numberedRoster server 0 1 0xC0A80464 0xC0A80465 run :=
    first_two_finish _ server prior priorTab 0 5000000 _ _ bmuniCalls_readsClient
      (by decide +kernel)
  have hmac : numberedRoster.mac 0 ≠ numberedRoster.mac 1 := by decide
  have hclock : ∀ micros ∈ run.filterMap NetStep.micros,
      tsInSec micros < circleConfig.leaseTime := by
    have hmicros : run.filterMap NetStep.micros = [0, 0, 5000000, 5000000] :=
      (micros_netRunOf bmuniAdapter numberedRoster server prior priorTab _).trans
        (micros_pairRun 0 prior priorTab)
    rw [hmicros]
    decide
  exact ⟨hpair.first, hpair.second, (network_bitmap_once circleConfig_wellFormed (by decide)
    (Or.inr rfl) (Initialised.bmuni empty _ 16103 4 (by decide) (by decide) (by decide))
    numberedRoster.mac numberedRoster.xid run hclock hpair.genuine).2 0 1 hmac hpair.first
    hpair.second⟩

/-- **What the benchmark reports with a bitmap.**  While the clock of the kernel stands below the
lease time at every turn, with clients of different MACs and genuine frames, the clients that `main`
counts as passed have different addresses, all of the pool, so that there are no more of them than
the pool has addresses. -/
theorem benchmark_passed_bitmap {config : DhcpConfig} (hconfig : config.WellFormed)
    (hlease : config.leaseTime.toNat + 4294 < 2 ^ 32) {mode : LeaseMode}
    (hbitmap : mode = .bmvar ∨ mode = .bmuni) {server : DhcpServer mode.Pool}
    (hinit : Initialised config mode server) {n W : ℕ} (r : Roster n W)
    (hmac : Function.Injective r.mac) (prior : Cq) (priorTab : XidTab (Fin n))
    (run : List (BenchmarkStep W))
    (hclock : ∀ micros ∈ run.filterMap BenchmarkStep.micros,
      tsInSec micros < config.leaseTime) :
    PassesApart mode.adapter r server prior priorTab run := by
  refine passesApart_of_ackedOnce hmac (hinit.acksInPool hconfig hbitmap) ?_
  refine hinit.ackedOnce hconfig hbitmap _ (early_netLog hlease _ _ ?_)
  rw [micros_netRunOf]
  exact hclock

/-- A BITMAP_VARTIME server of two addresses: the first two clients of `main` pass, and no address
is left. -/
theorem benchmark_passed_bitmap_two_clients :
    let server := dhcpInitServerBmvar (poolConfig 100 101 10) ⟨fun _ => 0, 0⟩ 2
    let prior : Cq := ⟨fun _ => 0, 0, 0, 0⟩
    let priorTab : XidTab (Fin numClients) := ⟨fun _ => .null, fun _ => false, 0⟩
    let run := pairRun bmvarAdapter numberedRoster 0 server prior priorTab 0 1 0 5000000 100 101
    let f := (benchmarkAfter bmvarAdapter numberedRoster server prior priorTab run).fleet
    passed f = 2 ∧ f.Leased 100 101 ∧ passed f ≤ 2 := by
  intro server prior priorTab run
  obtain ⟨hgenuine, htwo⟩ := first_two_pass bmvarAdapter server prior priorTab 0 5000000 100 101
    bmvarCalls_readsClient (by decide +kernel)
  have hclock : ∀ micros ∈ run.filterMap BenchmarkStep.micros,
      tsInSec micros < (poolConfig 100 101 10).leaseTime := by
    have hmicros : run.filterMap BenchmarkStep.micros = [0, 0, 5000000, 5000000] :=
      micros_pairRun 0 prior priorTab
    rw [hmicros]
    decide
  have hconfig : (poolConfig 100 101 10).WellFormed := ⟨by decide, by decide, by decide⟩
  exact ⟨htwo, benchmark_passed_bitmap hconfig (by decide) (Or.inl rfl)
    (Initialised.bmvar _ 2 (by decide)) numberedRoster numberedRoster_mac_injective prior
    priorTab run hclock hgenuine⟩

end BaremetalDhcp
