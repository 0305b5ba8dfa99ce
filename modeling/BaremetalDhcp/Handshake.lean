import BaremetalDhcp.Network
import BaremetalDhcp.Nprc
import BaremetalDhcp.BitmapOffers

/-!
# A prompt exchange comes to its end

The safety theorems say what a client has when it is done.  This module is about the other
direction: when nobody is late, a client does get done, whichever lease mode the kernel was
built for.

* `Honours` — a REQUEST for the address that was offered in the message before is acknowledged.
  The client-tracking backends may clean up in between and drop the client's own lease;
  `LeasePool.grants_find` says that the address is granted all the same.
* `Initialised` — the server of each lease mode as the kernel sets it up, on a pool of the
  right size.  `Initialised.honours` is the property for all of them, after any messages.
* `Exchange` — the turns and the steps of one client from its DISCOVER to the ACK, with steps
  of other clients between them.

`exchange_completes` puts the two together: whatever has happened on the network before, a
client whose DISCOVER is answered with an OFFER ends with the address offered.
-/

namespace BaremetalDhcp

open Machine

/-! ## An OFFER taken up at once -/

/-- A client that asks for the address it was offered in the message before gets it. -/
def Honours {P : Type} (calls : PoolCalls P) (server : DhcpServer P) : Prop :=
  ∀ (a b : Arrival) (ip : UInt32), IsOffer ip (processMessage calls server a).2 →
    b.msgType = dhcpRequest → b.mac = a.mac → b.requestedIp = some ip →
      IsAck ip (processMessage calls (processMessage calls server a).1 b).2

/-! ### The client-tracking backends -/

namespace LeasePool

variable {q q₁ : LeasePool} {batch : ℕ∞} {t poolStart poolEnd ip : UInt32} {mac : Mac} {max : ℕ}

/-- An address that was found lies in the pool. -/
theorem Bounded.inPool_find (h : q.Bounded poolStart poolEnd max) (hle : poolStart ≤ poolEnd)
    (hne : (q.find poolStart poolEnd mac).2 ≠ 0) :
    InPool poolStart poolEnd (q.find poolStart poolEnd mac).2 := by
  unfold LeasePool.find at hne ⊢
  cases hlookup : q.table.lookup mac with
  | some l => exact h.ips l (LeaseTable.lookup_eq_some_iff.mp hlookup).1
  | none =>
      rw [hlookup] at hne
      by_cases hfull : q.Full
      · simp only [hfull, if_true, ne_eq, not_true_eq_false] at hne
      · simp only [hfull, if_false] at hne ⊢
        exact (cursorLoop_inPool hle _ _ h.cursor).2.resolve_left hne

/-- **What was found can be granted**, whatever a clean-up drops in between.  When it drops the
client's own expired lease, the address is free and there is room again. -/
theorem grants_find (h : q.Bounded poolStart poolEnd max)
    (hfound : (q.find poolStart poolEnd mac).2 = ip) (hne : ip ≠ 0)
    (hpurge : Purges batch t (q.find poolStart poolEnd mac).1 q₁) : q₁.Grants ip mac := by
  unfold find at hfound hpurge
  cases hlookup : q.table.lookup mac with
  | some l =>
      rw [hlookup] at hfound hpurge
      obtain ⟨hl, hmac⟩ := LeaseTable.lookup_eq_some_iff.mp hlookup
      by_cases hkept : l ∈ q₁.table.leases
      · exact Or.inl ⟨l, hkept, hmac, hfound⟩
      · have hother : ∀ x ∈ q₁.table.leases, x ≠ l := fun x hx hxl => hkept (hxl ▸ hx)
        refine Or.inr ⟨fun x hx => ⟨fun hx' => ?_, fun hx' => ?_⟩, not_le.mpr ?_⟩
        · exact hother x hx (q.table.mac_inj x (hpurge.subset hx) l hl (hx'.trans hmac.symm))
        · exact hother x hx (q.table.ip_inj x (hpurge.subset hx) l hl (hx'.trans hfound.symm))
        · rw [hpurge.max_eq, h.max_eq]
          have hless : q₁.table.leases.card < q.table.leases.card :=
            Finset.card_lt_card ⟨hpurge.subset, fun hsub => hkept (hsub hl)⟩
          exact hless.trans_le h.card_le
  | none =>
      rw [hlookup] at hfound hpurge
      by_cases hfull : q.Full
      · simp only [hfull, if_true] at hfound
        exact absurd hfound.symm hne
      · simp only [hfull, if_false] at hfound hpurge
        have htable : q₁.table = q.table := hpurge.idle hfull
        have hfree := cursorLoop_not_leased (fun ip => decide (q.table.Holds ip)) poolStart
          (poolEnd - poolStart + 1) (poolEnd - poolStart + 1).toNat q.nextIp
        change (cursorLoop _ _ _ _ _).1 = _ at hfound
        rw [hfound] at hfree
        have hunheld := of_decide_eq_false (hfree.resolve_left hne)
        refine Or.inr ⟨fun x hx => ?_, ?_⟩
        · rw [htable] at hx
          exact ⟨LeaseTable.lookup_eq_none_iff.mp hlookup x hx, fun hx' => hunheld ⟨x, hx, hx'⟩⟩
        · unfold Full at hfull ⊢
          rwa [hpurge.max_eq, htable]

end LeasePool

/-- A backend that implements the abstract pool honours its offers. -/
theorem LeaseOps.Refines.honours {P : Type} {ops : LeaseOps P} {batch : ℕ∞}
    {Rep : P → LeasePool → Prop} (href : ops.Refines batch Rep) {server : DhcpServer P}
    {q : LeasePool} (hrep : Rep server.pool q) {max : ℕ}
    (hbounded : q.Bounded server.config.poolStart server.config.poolEnd max)
    (hle : server.config.poolStart ≤ server.config.poolEnd) : Honours ops.calls server := by
  intro a b ip hoffer hr hmac hip
  obtain ⟨hd, hfound, hne⟩ := isOffer_processMessage_iff.mp hoffer
  obtain ⟨q₀, hpurge, hanswer, hrep'⟩ :=
    href.find server.config.poolStart server.config.poolEnd a.mac a.curTime hrep
  have hbounded' := hbounded.purge hpurge
  have hfound' : (q₀.find server.config.poolStart server.config.poolEnd a.mac).2 = ip :=
    hanswer.symm.trans hfound
  have hpool : InPool server.config.poolStart server.config.poolEnd ip := by
    rw [← hfound'] at hne ⊢
    exact hbounded'.inPool_find hle hne
  obtain ⟨q₁, hpurge', hgranted, -⟩ :=
    href.alloc ip b.mac server.config.leaseTime b.curTime hrep'
  have hgrants : q₁.Grants ip b.mac := hmac ▸ LeasePool.grants_find hbounded' hfound' hne hpurge'
  rw [processMessage_discover hd]
  refine isAck_processMessage_iff.mpr ⟨hr, hip, ?_⟩
  have hcall : (ops.calls.request (ops.calls.discover server a).1 ip b).2 =
      (ops.allocLease (ops.findAvailableIp server.pool server.config.poolStart
        server.config.poolEnd a.mac a.curTime).1 ip b.mac server.config.leaseTime
          b.curTime).2 := by
    have hpool' : InPool (ops.calls.discover server a).1.config.poolStart
        (ops.calls.discover server a).1.config.poolEnd ip := hpool
    rw [ops.calls_request_of_inPool hpool']
    rfl
  rw [hcall, hgranted, LeasePool.alloc, if_pos hgrants]

/-! ### The bitmap backends -/

section Vartime

variable {pool : BmPoolVar} {config : DhcpConfig} {rangeSize : UInt32}

/-- A free slot of the range can be committed. -/
theorem dhcpBmpoolVarCommitIp_of_free {ip : UInt32} {s : ℕ}
    (hfits : pool.poolStart.toNat + pool.rangeSize.toNat < 2 ^ 32)
    (hip : ip.toNat = pool.poolStart.toNat + s) (hs : s < pool.rangeSize.toNat)
    (hfree : slotUsed pool.range.ips s = false) : (dhcpBmpoolVarCommitIp pool ip).2 = true := by
  have hle : pool.poolStart ≤ ip := UInt32.le_iff_toNat_le.mpr (by omega)
  have hlt : ip < pool.poolStart + pool.rangeSize := by
    rw [UInt32.lt_iff_toNat_lt, UInt32.toNat_add, Nat.mod_eq_of_lt hfits]
    omega
  have hslot : (ip - pool.poolStart).toNat = s := by
    rw [UInt32.toNat_sub_of_le _ _ hle]
    omega
  have hunused : dhcpBmUsed pool.range.ips (ip - pool.poolStart) pool.rangeSize = false := by
    rw [dhcpBmUsed_eq_slotUsed (UInt32.lt_iff_toNat_lt.mpr (hslot ▸ hs)), hslot]
    exact hfree
  have hin : ¬ (ip < pool.poolStart ∨ ip ≥ pool.poolStart + pool.rangeSize) :=
    not_or.mpr ⟨UInt32.not_lt.mpr hle, UInt32.not_le.mpr hlt⟩
  unfold dhcpBmpoolVarCommitIp
  rw [if_neg hin, if_neg (by rw [hunused]; exact Bool.false_ne_true)]

/-- The server of BITMAP_VARTIME keeps its pool; an ACK changes the lease time only. -/
structure VarPlaced (config : DhcpConfig) (rangeSize : UInt32) (server : DhcpServer BmPoolVar) :
    Prop where
  configStart_eq : server.config.poolStart = config.poolStart
  configEnd_eq : server.config.poolEnd = config.poolEnd
  poolStart_eq : server.pool.poolStart = config.poolStart
  rangeSize_eq : server.pool.rangeSize = rangeSize

theorem VarPlaced.step {server : DhcpServer BmPoolVar} (h : VarPlaced config rangeSize server)
    (a : Arrival) : VarPlaced config rangeSize (processMessage bmvarCalls server a).1 := by
  obtain hd | ⟨hr, ip, hip⟩ | hc | hi := a.cases
  · obtain ⟨hstart, hsize⟩ := (dhcpBmpoolVarPeek_range server.pool a.curTime).1
    rw [processMessage_discover hd]
    exact ⟨h.1, h.2, hstart.trans h.3, hsize.trans h.4⟩
  · obtain ⟨ips, hepoch⟩ := dhcpBmpoolVarCommitIp_epoch server.pool ip
    have hstart := congrArg Epoch.base hepoch
    have hsize := congrArg Epoch.size hepoch
    rw [processMessage_request hr hip]
    simp only [bmvarCalls]
    split_ifs
    · exact ⟨h.1, h.2, hstart.trans h.3, hsize.trans h.4⟩
    · exact ⟨h.1, h.2, hstart.trans h.3, hsize.trans h.4⟩
    · exact h
  · rw [processMessage_decline hc]
    exact h
  · rw [processMessage_ignored hi]
    exact h

theorem VarPlaced.honours {server : DhcpServer BmPoolVar} (h : VarPlaced config rangeSize server)
    (hpos : 0 < config.poolStart) (hend : config.poolEnd.toNat + 1 < 2 ^ 32)
    (hfits : config.poolStart.toNat + rangeSize.toNat ≤ config.poolEnd.toNat + 1) :
    Honours bmvarCalls server := by
  intro a b ip hoffer hr _ hip
  obtain ⟨hd, hfound, hne⟩ := isOffer_processMessage_iff.mp hoffer
  have hvalid : varPool.Valid server.pool := by
    refine ⟨?_, ?_⟩
    · rw [BmPoolVar.epoch, h.poolStart_eq]
      exact hpos
    · rw [BmPoolVar.epoch, h.poolStart_eq, h.rangeSize_eq]
      exact (hfits.trans_lt hend).le
  have hpeek : (dhcpBmpoolVarPeek server.pool a.curTime).2 = ip := hfound
  obtain ⟨hready, s, ⟨-, hs, hfree⟩, hanswer, -⟩ :=
    varPool.slot_of_answer hvalid (show (dhcpBmpoolVarPeek _ a.curTime).2 ≠ 0 from hpeek ▸ hne)
  have hepoch := (dhcpBmpoolVarPeek_of_ready hready).2
  -- the peek that made the offer has only moved the counter of the range it looked at
  set peeked := (dhcpBmpoolVarPeek server.pool a.curTime).1 with hpeeked
  have hstart : peeked.poolStart = (server.pool.refresh a.curTime).poolStart :=
    congrArg Epoch.base hepoch
  have hsize : peeked.rangeSize = (server.pool.refresh a.curTime).rangeSize :=
    congrArg Epoch.size hepoch
  have hips : peeked.range.ips = (server.pool.refresh a.curTime).range.ips :=
    congrArg Epoch.ips hepoch
  have hplaced := h.step a
  rw [processMessage_discover hd] at hplaced ⊢
  have hip' : ip.toNat = peeked.poolStart.toNat + s := by
    rw [← hpeek, hstart]
    exact hanswer
  have hlt : s < peeked.rangeSize.toNat := by
    rw [hsize]
    exact hs
  have hpool : InPool server.config.poolStart server.config.poolEnd ip := by
    have hbase : peeked.poolStart = config.poolStart := hplaced.poolStart_eq
    have hlen : peeked.rangeSize = rangeSize := hplaced.rangeSize_eq
    rw [hbase] at hip'
    rw [hlen] at hlt
    rw [InPool, h.configStart_eq, h.configEnd_eq, UInt32.le_iff_toNat_le, UInt32.le_iff_toNat_le]
    omega
  have hcommit : (dhcpBmpoolVarCommitIp peeked ip).2 = true := by
    refine dhcpBmpoolVarCommitIp_of_free ?_ hip' hlt (hips ▸ hfree)
    have hbase : peeked.poolStart = config.poolStart := hplaced.poolStart_eq
    have hlen : peeked.rangeSize = rangeSize := hplaced.rangeSize_eq
    rw [hbase, hlen]
    exact hfits.trans_lt hend
  refine isAck_processMessage_iff.mpr ⟨hr, hip, ?_⟩
  simp only [bmvarCalls]
  rw [if_pos hpool, if_pos hcommit]

end Vartime

/-- BITMAP_UNITIME: the address is free in the current range, and nothing moves the pool on. -/
theorem BmPoolUni.Placed.honours {server : DhcpServer BmPoolUni}
    {leaseTime rangeSize : UInt32} {numRanges : UInt8}
    (h : server.pool.Placed server.config.poolStart leaseTime rangeSize numRanges)
    (hfits : server.config.poolStart.toNat + numRanges.toNat * rangeSize.toNat ≤
      server.config.poolEnd.toNat + 1) : Honours bmuniCalls server := by
  intro a b ip hoffer hr _ hip
  obtain ⟨hd, hfound, hne⟩ := isOffer_processMessage_iff.mp hoffer
  obtain ⟨hle, hidx, -⟩ := h.of_isOffer hoffer
  have hpool : InPool server.config.poolStart server.config.poolEnd ip := by
    have hlt := lt_of_rangeIndex_lt h.size_pos hidx
    exact ⟨hle, UInt32.le_iff_toNat_le.mpr (by omega)⟩
  have hplaced := (h.step_cases a).2.1
  have hpeek : (dhcpBmpoolUniPeek server.pool a.curTime).2 = ip := hfound
  have hfree := dhcpBmpoolUniPeek_free server.pool a.curTime (hpeek ▸ hne)
  rw [hpeek] at hfree
  rw [dhcpProcessMessageBmuni, processMessage_discover hd] at hplaced
  rw [processMessage_discover hd]
  refine isAck_processMessage_iff.mpr ⟨hr, hip, ?_⟩
  refine (hplaced.request_of_inPool hpool b).trans ?_
  exact congrArg not hfree

/-! ### NPRC -/

/-- NPRC: the offer is the last one in the window, and is not acknowledged yet. -/
theorem NprcPool.Tracks.honours {W : ℕ} {server : DhcpServer (NprcPool W)} {acked : Set ℕ}
    (h : server.pool.Tracks server.config.poolStart server.config.poolEnd acked)
    (hword : W = 32 ∨ W = 64) (hpos : 0 < server.config.poolStart)
    (hend : server.config.poolEnd.toNat + 1 < 2 ^ 32) : Honours nprcCalls server := by
  intro a b ip hoffer hr _ hip
  have hnew : server.pool.offered ∉ acked := fun hmem =>
    Nat.lt_irrefl _ (h.sound.marked_lt _ hmem)
  obtain ⟨hconfig, ⟨-, hx, hoffered, hnext⟩ | ⟨hquiet, -⟩⟩ := h.step_cases hword hpos hend a
  · have hrecent := hnext.sound.base_le_of_recent hnew (by
      show NprcPool.offered _ ≤ server.pool.offered + (W - W / 4)
      omega)
    refine isAck_processMessage_iff.mpr ⟨hr, hip, ?_⟩
    obtain ⟨k, -, -, -, -, hok, -⟩ | ⟨hall, -⟩ := hnext.commit ip hpos hend
    · rw [← hconfig] at hok
      exact hok
    · exact absurd (hall _ (hx ip hoffer) hrecent (by omega)) hnew
  · exact absurd (isOfferReply_iff.mpr ⟨ip, hoffer⟩) (Bool.eq_false_iff.mp hquiet)

/-! ### Every lease mode -/

/-- The server of each lease mode as `dhcp_init_server_*` leaves it.  The bitmaps have no slots
behind the end of the pool. -/
inductive Initialised (config : DhcpConfig) : (mode : LeaseMode) → DhcpServer mode.Pool → Prop
  | array (maxLeases : UInt16) (leases : Fin maxLeases.toNat → DhcpLease) :
      Initialised config (.array maxLeases) (dhcpInitServerArray config leases)
  | hashmap (prior : HashPool) (maxLeases : UInt16) :
      Initialised config .hashmap (dhcpInitServerHashmap config prior maxLeases)
  | bmvar (range : BmRange) (rangeSize : UInt32)
      (hfits : config.poolStart.toNat + rangeSize.toNat ≤ config.poolEnd.toNat + 1) :
      Initialised config .bmvar (dhcpInitServerBmvar config range rangeSize)
  | bmuni (prior : BmPoolUni) (ranges : ℕ → BmRange) (rangeSize : UInt32) (numRanges : UInt8)
      (hsize : 0 < rangeSize) (hnum : 0 < numRanges)
      (hfits : config.poolStart.toNat + numRanges.toNat * rangeSize.toNat ≤
        config.poolEnd.toNat + 1) :
      Initialised config .bmuni (dhcpInitServerBmuni prior config ranges rangeSize numRanges)
  | nprc (W : ℕ) (hword : W = 32 ∨ W = 64) :
      Initialised config (.nprc W) (dhcpInitServerNprc W config)

/-- A well-formed pool of addresses. -/
structure DhcpConfig.WellFormed (config : DhcpConfig) : Prop where
  pos : 0 < config.poolStart
  le : config.poolStart ≤ config.poolEnd
  fits : config.poolEnd.toNat + 1 < 2 ^ 32

theorem circleConfig_wellFormed : circleConfig.WellFormed := ⟨by decide, by decide, by decide⟩

/-- **Every lease mode honours its offers**, after any messages. -/
theorem Initialised.honours {config : DhcpConfig} (hconfig : config.WellFormed)
    {mode : LeaseMode} {server : DhcpServer mode.Pool} (h : Initialised config mode server)
    (run : List Arrival) :
    Honours mode.adapter.calls (exec (processMessage mode.adapter.calls) server run) := by
  cases h with
  | array maxLeases leases =>
      obtain ⟨hsame, q, hq, hb⟩ := (arrayOps_refines maxLeases).bounded
        (dhcpInitServerArray config leases)
        (dhcpArraypoolInit_represents config.poolStart leases) hconfig.le run
      rw [← hsame] at hb
      exact (arrayOps_refines maxLeases).honours hq hb (hsame ▸ hconfig.le)
  | hashmap prior maxLeases =>
      obtain ⟨hsame, q, hq, hb⟩ := hashOps_refines.bounded
        (dhcpInitServerHashmap config prior maxLeases)
        (dhcpHashpoolInit_represents prior config.poolStart maxLeases) hconfig.le run
      rw [← hsame] at hb
      exact hashOps_refines.honours hq hb (hsame ▸ hconfig.le)
  | bmvar range rangeSize hfits =>
      have hplaced : VarPlaced config rangeSize
          (exec (processMessage bmvarCalls) (dhcpInitServerBmvar config range rangeSize) run) :=
        exec_inv (VarPlaced config rangeSize) (fun _ => True) (fun _ a hs _ => hs.step a) run _
          ⟨rfl, rfl, rfl, rfl⟩ fun _ _ => trivial
      exact hplaced.honours hconfig.pos hconfig.fits hfits
  | bmuni prior ranges rangeSize numRanges hsize hnum hfits =>
      have hinit : (dhcpInitServerBmuni prior config ranges rangeSize numRanges).pool.Placed
          config.poolStart config.leaseTime rangeSize numRanges :=
        dhcpBmpoolUniInit_placed prior ranges hnum hsize (hfits.trans_lt hconfig.fits)
      obtain ⟨hsame, hplaced⟩ := hinit.exec run
      change Honours bmuniCalls (exec dhcpProcessMessageBmuni _ run)
      generalize exec dhcpProcessMessageBmuni _ run = server at hsame hplaced ⊢
      obtain rfl : server.config = config := hsame
      exact hplaced.honours hfits
  | nprc W hword =>
      obtain ⟨hsame, acked, htracks⟩ := @dhcpInitServerNprc_tracks W config hword hconfig.pos
        hconfig.fits hconfig.le run
      change Honours nprcCalls (exec dhcpProcessMessageNprc _ run)
      generalize exec dhcpProcessMessageNprc _ run = server at hsame htracks ⊢
      obtain rfl : server.config = config := hsame
      exact htracks.honours hword hconfig.pos hconfig.fits

/-! ## What one client sees -/

section View

variable {P ι : Type} [DecidableEq ι] (adapter : Adapter P) (mac : ι → Bytes 6)
  (xid : ι → UInt32) (i : ι)

/-- The server and one of the clients. -/
def Net.view (net : Net P ι) : DhcpServer P × Bench := (net.server, net.clients i)

/-- A step of the network, as the server and the client see it. -/
def viewStep (v : DhcpServer P × Bench) : NetStep ι → (DhcpServer P × Bench) × Unit
  | .client j step =>
      if j = i ∧ ¬ step.IsReply then ((v.1, (benchStep (mac i) (xid i) v.2 step).1), ())
      else (v, ())
  | .serve t =>
      let done := kernelStep adapter v.1 t
      ((done.1, exec (benchStep (mac i) (xid i)) v.2 (done.2.toList.map BenchStep.reply)), ())

variable {adapter mac xid i}

theorem view_step (net : Net P ι) (step : NetStep ι) :
    (netStep adapter mac xid net step).1.view i =
      (viewStep adapter mac xid i (net.view i) step).1 := by
  cases step with
  | client j step =>
      by_cases hreply : step.IsReply
      · rw [netStep, if_pos hreply, viewStep, if_neg fun h => h.2 hreply]
      · rw [netStep, if_neg hreply, viewStep]
        by_cases hj : j = i
        · subst hj
          rw [if_pos ⟨rfl, hreply⟩]
          exact Prod.ext rfl (clients_move_self _)
        · rw [if_neg fun h => hj h.1]
          exact Prod.ext rfl (clients_move_of_ne _ fun h => hj h.symm)
  | serve t =>
      have hclient : ∀ reply : Option (List UInt8),
          (net.broadcast mac xid reply).clients i =
            exec (benchStep (mac i) (xid i)) (net.clients i)
              (reply.toList.map BenchStep.reply) := by
        intro reply
        cases reply with
        | none => rfl
        | some frame => rfl
      exact Prod.ext rfl (hclient _)

/-- **A whole run**, as the server and one client see it. -/
theorem view_exec (run : List (NetStep ι)) (net : Net P ι) :
    (exec (netStep adapter mac xid) net run).view i =
      exec (viewStep adapter mac xid i) (net.view i) run := by
  induction run generalizing net with
  | nil => rfl
  | cons step run ih => rw [exec_cons, ih, view_step, exec_cons]

end View

/-! ## The exchange -/

section Replies

variable {P : Type} {adapter : Adapter P} {server : DhcpServer P} {t : Turn} {m : BuildMeta}

/-- What the kernel transmits in answer to a frame of a client reaches the client, with the type
and the address of the library's answer. -/
theorem reply_of_frameBytes (hold : Holds t.frameBuffer 0 m.frameBytes)
    (htype : m.dhcpType = dhcpDiscover ∨ m.dhcpType = dhcpRequest) :
    ∃ h : Handover, h.Carries m ∧ h.arrival.curTime = tsInSec t.env.micros ∧
      (kernelStep adapter server t).1 = (processMessage adapter.calls server h.arrival).1 ∧
      (∀ response, (processMessage adapter.calls server h.arrival).2 = some response →
        (kernelStep adapter server t).2.isSome) ∧
      ∀ frame, (kernelStep adapter server t).2 = some frame →
        ∃ response, (processMessage adapter.calls server h.arrival).2 = some response ∧
          received m.xid frame = some frame ∧
          replyType m.xid frame = dhcpGetMessageType response (fun _ => 0) ∧
          (parsedReply m.xid frame).offeredIp = packIP response.yiaddr := by
  obtain ⟨h, hover, hanswered, hcarries⟩ := handover_frameBytes hold htype adapter.handlesDecline
  have hstep : kernelStep adapter server t = _ := kernelStep_of_some hover
  refine ⟨h, hcarries, (arrival_of_handover hover).2, by rw [hstep],
    fun response hresponse => ?_, fun frame hframe => ?_⟩
  · rw [hstep, hresponse, Handover.frame, if_pos hanswered]
    rfl
  · rw [hstep, Handover.frame, if_pos hanswered, Option.map_eq_some_iff] at hframe
    obtain ⟨response, hresponse, rfl⟩ := hframe
    have hanswers : Answers h.arrival.request response := answers_of_processMessage hresponse
    have hxid : htonl h.arrival.request.xid = m.xid := by
      rw [hcarries.xid_eq]
      exact be32_be32 _
    obtain ⟨hreceived, -⟩ := hanswers.received_responseFrame h.mac
    rw [hxid] at hreceived
    obtain ⟨-, hreply, hoffered⟩ := hanswers.of_received hreceived
    exact ⟨response, hresponse, hreceived, hreply, hoffered⟩

/-- An answer to a DISCOVER is an OFFER. -/
theorem isOffer_of_discover {calls : PoolCalls P} {a : Arrival} {response : DhcpMessage}
    (hd : a.msgType = dhcpDiscover)
    (hresponse : (processMessage calls server a).2 = some response) :
    IsOffer response.yiaddr (processMessage calls server a).2 := by
  rw [processMessage_discover hd] at hresponse ⊢
  dsimp only at hresponse ⊢
  split_ifs at hresponse ⊢
  obtain rfl := Option.some.inj hresponse
  exact isReply_dhcpBuildOffer.mpr ⟨rfl, (dhcpBuildOffer_spec _ _ _).2.1.symm⟩

end Replies

/-- A prompt exchange of one client: the turns in which the kernel receives its DISCOVER and its
REQUEST, and the steps that other clients take in the pauses around them. -/
structure Exchange (ι : Type) where
  discover : Turn
  request : Turn
  others : ℕ → List (ι × BenchStep)

namespace Exchange

variable {ι : Type}

def aside (e : Exchange ι) (n : ℕ) : List (NetStep ι) :=
  (e.others n).map fun p => .client p.1 p.2

/-- The `k`-th reply is delivered, and the client looks at it. -/
def look (i : ι) (k : ℕ) : List (NetStep ι) :=
  [.client i (.deliver k), .client i .lock, .client i (.process true)]

/-- Up to the REQUEST, when the OFFER is the `k`-th reply to arrive. -/
def firstHalf (e : Exchange ι) (i : ι) (k : ℕ) : List (NetStep ι) :=
  .client i (.start true) :: e.aside 0 ++ .serve e.discover :: e.aside 1 ++ look i k

/-- From the REQUEST on, when the ACK is the `k`-th reply to arrive. -/
def secondHalf (e : Exchange ι) (i : ι) (k : ℕ) : List (NetStep ι) :=
  e.aside 2 ++ .serve e.request :: e.aside 3 ++ look i k

/-- The whole exchange. -/
def run (e : Exchange ι) (i : ι) (k : ℕ) : List (NetStep ι) :=
  e.firstHalf i k ++ e.secondHalf i (k + 1)

/-- The turns receive what the client has sent, which is its DISCOVER and its REQUEST for the
OFFER in the given frame. -/
structure Carries (e : Exchange ι) (i : ι) (mac : Bytes 6) (xid : UInt32) (offer : List UInt8) :
    Prop where
  others : ∀ n, ∀ p ∈ e.others n, p.1 ≠ i
  discover : Holds e.discover.frameBuffer 0 (discoverMeta mac xid).frameBytes
  request : Holds e.request.frameBuffer 0 (requestMeta mac xid offer).frameBytes

section Steps

variable {P : Type} [DecidableEq ι] {adapter : Adapter P} {mac : ι → Bytes 6}
  {xid : ι → UInt32} {i : ι} {e : Exchange ι} {server server' : DhcpServer P} {b : Bench}
  {frame : List UInt8}

/-- The other clients change neither the server nor the client. -/
theorem exec_aside (hothers : ∀ n, ∀ p ∈ e.others n, p.1 ≠ i) (n : ℕ)
    (v : DhcpServer P × Bench) : exec (viewStep adapter mac xid i) v (e.aside n) = v := by
  refine exec_inv (fun w => w = v) (fun step => ∃ j s, j ≠ i ∧ step = .client j s) ?_ _ v rfl ?_
  · rintro w step rfl ⟨j, s, hj, rfl⟩
    rw [viewStep, if_neg fun h => hj h.1]
  · intro step hstep
    obtain ⟨p, hp, rfl⟩ := List.mem_map.mp hstep
    exact ⟨p.1, p.2, hothers n p hp, rfl⟩

theorem viewStep_client {step : BenchStep} (hstep : ¬ step.IsReply)
    (v : DhcpServer P × Bench) :
    (viewStep adapter mac xid i v (.client i step)).1 =
      (v.1, (benchStep (mac i) (xid i) v.2 step).1) := by
  rw [viewStep, if_pos ⟨rfl, hstep⟩]

/-- The client takes the newest reply out of its mailbox. -/
theorem exec_look {rs : List (List UInt8)} (hworker : b.worker = .locking) (hne : frame ≠ [])
    (hreceived : received (xid i) frame = some frame) (hreplies : b.replies = rs ++ [frame]) :
    exec (viewStep adapter mac xid i) (server, b) (look i rs.length) =
      (server, (Bench.process (mac i) (xid i)
        { b with worker := .holding frame, mailbox := [] } frame true).1) := by
  have hdeliver : (benchStep (mac i) (xid i) b (.deliver rs.length)).1 =
      { b with mailbox := frame } := by
    simp [benchStep, hreplies, hreceived]
  have hlock : (benchStep (mac i) (xid i) { b with mailbox := frame } .lock).1 =
      { b with worker := .holding frame, mailbox := [] } := by
    simp [benchStep, Bench.test, hworker, hne]
  simp only [look, exec_cons, exec_nil]
  rw [viewStep_client id, viewStep_client id, viewStep_client id]
  dsimp only
  rw [hdeliver, hlock]
  rfl

/-- A client that has sent nothing yet, whatever has arrived for it. -/
def waiting (mac : Bytes 6) (xid : UInt32) (rs : List (List UInt8)) : Bench :=
  { Bench.fresh mac xid with replies := rs }

/-- The client whose REQUEST is on its way. -/
def requesting (mac : Bytes 6) (xid : UInt32) (offer : List UInt8) (rs : List (List UInt8)) :
    Bench :=
  { Bench.fresh mac xid with
    state := .request
    worker := .locking
    bmeta := requestMeta mac xid offer
    replies := rs }

/-- **Up to the REQUEST.** -/
theorem view_firstHalf (hcarries : e.Carries i (mac i) (xid i) frame) {rs : List (List UInt8)}
    (hstep : kernelStep adapter server e.discover = (server', some frame))
    (hreceived : received (xid i) frame = some frame)
    (htype : replyType (xid i) frame = dhcpOffer) :
    exec (viewStep adapter mac xid i) (server, waiting (mac i) (xid i) rs)
        (e.firstHalf i rs.length) =
      (server', requesting (mac i) (xid i) frame (rs ++ [frame])) := by
  have hne : frame ≠ [] := ne_nil_of_replyType htype (by decide)
  have hparsed : (parsedReply (xid i) frame).dhcpType = dhcpOffer := htype
  rw [firstHalf, exec_append, exec_append, exec_cons, exec_cons, exec_aside hcarries.others,
    exec_aside hcarries.others, viewStep_client id, viewStep, hstep]
  dsimp only [Option.toList_some, List.map_cons, List.map_nil]
  rw [exec_look rfl hne hreceived rfl]
  simp [Bench.process, hparsed, benchStep, waiting, requesting, requestMeta, Bench.fresh]

/-- **From the REQUEST on.** -/
theorem view_secondHalf (hcarries : e.Carries i (mac i) (xid i) frame) {ack : List UInt8}
    {rs : List (List UInt8)}
    (hstep : kernelStep adapter server e.request = (server', some ack))
    (hreceived : received (xid i) ack = some ack) (htype : replyType (xid i) ack = dhcpAck) :
    (exec (viewStep adapter mac xid i) (server, requesting (mac i) (xid i) frame rs)
        (e.secondHalf i rs.length)).2 =
      { requesting (mac i) (xid i) frame (rs ++ [ack]) with
        state := .done
        assignedIp := (parsedReply (xid i) ack).offeredIp
        worker := .out } := by
  have hne : ack ≠ [] := ne_nil_of_replyType htype (by decide)
  have hparsed : (parsedReply (xid i) ack).dhcpType = dhcpAck := htype
  have hacked : dhcpAck ≠ dhcpOffer := by decide
  rw [secondHalf, exec_append, exec_append, exec_cons, exec_aside hcarries.others,
    exec_aside hcarries.others, viewStep, hstep]
  dsimp only [Option.toList_some, List.map_cons, List.map_nil]
  rw [exec_look rfl hne hreceived rfl]
  simp [Bench.process, hparsed, hacked, benchStep, requesting, Bench.fresh]

end Steps

end Exchange

/-- A client that takes no step is still waiting to start. -/
theorem view_waiting {P ι : Type} [DecidableEq ι] {adapter : Adapter P} {mac : ι → Bytes 6}
    {xid : ι → UInt32} (server : DhcpServer P) {i : ι} {before : List (NetStep ι)}
    (hbefore : ∀ step ∈ before, ∀ s, step ≠ .client i s) :
    let net := exec (netStep adapter mac xid) (Net.fresh mac xid server) before
    net.view i = (net.server, Exchange.waiting (mac i) (xid i) (net.clients i).replies) := by
  intro net
  have hinv : ∃ rs, (net.view i).2 = Exchange.waiting (mac i) (xid i) rs := by
    rw [view_exec]
    refine exec_inv
      (fun v : DhcpServer P × Bench => ∃ rs, v.2 = Exchange.waiting (mac i) (xid i) rs)
      (fun step => ∀ s, step ≠ .client i s) ?_ before _ ⟨[], rfl⟩ hbefore
    rintro ⟨s, b⟩ step ⟨rs, rfl⟩ hstep
    cases step with
    | client j step =>
        have hj : j ≠ i := fun hj => hstep step (by rw [hj])
        rw [viewStep, if_neg fun h => hj h.1]
        exact ⟨rs, rfl⟩
    | serve t =>
        rw [viewStep]
        cases (kernelStep adapter s t).2 with
        | none => exact ⟨rs, rfl⟩
        | some frame => exact ⟨rs ++ [frame], rfl⟩
  obtain ⟨rs, hrs⟩ := hinv
  have hreplies : (net.clients i).replies = rs := congrArg Bench.replies hrs
  rw [hreplies]
  exact Prod.ext rfl hrs

/-- **A prompt exchange comes to its end**, in every lease mode and whatever has happened on the
network before.  If the kernel answers the DISCOVER of a client at all, and receives its REQUEST
as the next message, the client ends in `STATE_DONE` with the address it was offered. -/
theorem exchange_completes {config : DhcpConfig} (hconfig : config.WellFormed) {mode : LeaseMode}
    {server : DhcpServer mode.Pool} (hinit : Initialised config mode server) {ι : Type}
    [DecidableEq ι] (mac : ι → Bytes 6) (xid : ι → UInt32) (i : ι) (before : List (NetStep ι))
    (hbefore : ∀ step ∈ before, ∀ s, step ≠ .client i s) (e : Exchange ι) (frame : List UInt8)
    (hcarries : e.Carries i (mac i) (xid i) frame) :
    let net := exec (netStep mode.adapter mac xid) (Net.fresh mac xid server) before
    let after := exec (netStep mode.adapter mac xid) net (e.run i (net.clients i).replies.length)
    (kernelStep mode.adapter net.server e.discover).2 = some frame →
      (after.clients i).state = .done ∧
        (after.clients i).assignedIp = (parsedReply (xid i) frame).offeredIp := by
  intro net after hframe
  -- the OFFER
  obtain ⟨h, hc, -, hserver, -, hreply⟩ :=
    @reply_of_frameBytes mode.Pool mode.adapter net.server _ _ hcarries.discover (Or.inl rfl)
  obtain ⟨response, hresponse, hreceived, htype, hoffered⟩ := hreply frame hframe
  have hoffer := isOffer_of_discover hc.msgType_eq hresponse
  have hofferType := hoffer
  rw [hresponse] at hofferType
  rw [(isReply_some.mp hofferType).1] at htype
  -- the ACK
  obtain ⟨h', hc', -, -, hsome, hreply'⟩ := @reply_of_frameBytes mode.Pool mode.adapter
    (kernelStep mode.adapter net.server e.discover).1 _ _ hcarries.request (Or.inr rfl)
  have hhonours := hinit.honours hconfig
    ((netLog mode.adapter mac xid (Net.fresh mac xid server) before).map LogEntry.arrival)
  have hreached : net.server = exec (processMessage mode.adapter.calls) server _ :=
    (history_netLog before (Net.fresh mac xid server)).1
  rw [← hreached] at hhonours
  have hasked : h'.arrival.requestedIp = some response.yiaddr := by
    rw [← unpackIP_packIP response.yiaddr, ← hoffered]
    exact hc'.requestedIp_eq rfl
  have hack := hhonours h.arrival h'.arrival response.yiaddr hoffer hc'.msgType_eq
    (hc'.mac_eq.trans hc.mac_eq.symm) hasked
  rw [← hserver] at hack
  obtain ⟨response', hresponse', hackType, hyiaddr⟩ := hack
  obtain ⟨ack, hframe'⟩ := Option.isSome_iff_exists.mp (hsome response' hresponse')
  obtain ⟨response'', hsame, hreceived', htype', hacked⟩ := hreply' ack hframe'
  obtain rfl := Option.some.inj (hresponse'.symm.trans hsame)
  rw [hackType] at htype'
  -- the client
  have hfinal : after.clients i =
      { Exchange.requesting (mac i) (xid i) frame ((net.clients i).replies ++ [frame] ++ [ack]) with
        state := .done
        assignedIp := (parsedReply (xid i) ack).offeredIp
        worker := .out } := by
    change (after.view i).2 = _
    rw [view_exec, view_waiting server hbefore, Exchange.run, exec_append,
      Exchange.view_firstHalf hcarries (Prod.ext rfl hframe) hreceived htype,
      ← List.length_concat, List.concat_eq_append,
      Exchange.view_secondHalf hcarries (Prod.ext rfl hframe') hreceived' htype']
  rw [hfinal]
  refine ⟨rfl, hacked.trans ?_⟩
  rw [hyiaddr]
  exact hoffered.symm

/-- The first of two clients at a server of mode NPRC; the second one starts in between. -/
theorem exchange_completes_first_client :
    let mac : Fin 2 → Bytes 6 := fun i => ![2, 0, 0, 255, 53, UInt8.ofNat i.val]
    let xid : Fin 2 → UInt32 := fun i => UInt32.ofNat i.val
    let server := dhcpInitServerNprc 64 circleConfig
    let env : Surroundings := ⟨fun _ => 2, 0, fun _ => 0, fun _ => 0⟩
    let t : Turn := ⟨env, bytesAt (discoverMeta (mac 0) (xid 0)).frameBytes, minSendLen⟩
    let frame := ((kernelStep (nprcAdapter 64) server t).2).getD []
    let e : Exchange (Fin 2) :=
      ⟨t, ⟨env, bytesAt (requestMeta (mac 0) (xid 0) frame).frameBytes, minSendLen⟩,
        fun _ => [(1, .start true)]⟩
    ((exec (netStep (nprcAdapter 64) mac xid) (Net.fresh mac xid server) (e.run 0 0)).clients
      0).state = .done := by
  intro mac xid server env t frame e
  have hconfig := circleConfig_wellFormed
  have hcarries : e.Carries 0 (mac 0) (xid 0) frame := by
    refine ⟨fun n p hp => ?_, holds_bytesAt _, holds_bytesAt _⟩
    rw [List.mem_singleton.mp hp]
    exact one_ne_zero
  -- the pool is not empty, so the DISCOVER is answered
  obtain ⟨h, hc, -, -, hsome, -⟩ :=
    @reply_of_frameBytes (NprcPool 64) (nprcAdapter 64) server t _ hcarries.discover (Or.inl rfl)
  have hoffer : IsOffer circleConfig.poolStart
      (processMessage (nprcAdapter 64).calls server h.arrival).2 :=
    ((NprcPool.tracks_init hconfig.le).isOffer_iff (Or.inr rfl) hconfig.pos hconfig.fits
      hc.msgType_eq).mpr ⟨hconfig.le, rfl⟩
  obtain ⟨response, hresponse, -⟩ := hoffer
  have hframe : (kernelStep (nprcAdapter 64) server t).2 = some frame := by
    obtain ⟨sent, hsent⟩ := Option.isSome_iff_exists.mp (hsome response hresponse)
    rw [hsent, show frame = sent from congrArg (fun o => o.getD []) hsent]
  exact (exchange_completes hconfig (Initialised.nprc 64 (Or.inr rfl)) mac xid 0 []
    (fun _ hstep => absurd hstep List.not_mem_nil) e frame hcarries hframe).1

end BaremetalDhcp
