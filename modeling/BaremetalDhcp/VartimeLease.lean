import BaremetalDhcp.BitmapOffers

/-!
# The lease times that BITMAP_VARTIME advertises

The header of `dhcp_bitmap_vartime.h` says what a client should be told: the remaining time
of the range.  An ACK is built after `config.lease_time` was set to that difference; an OFFER
is built from `config.lease_time` as it stands, which is the configured lease time at first
and the remainder at the last ACK later on.

So an OFFER is right at one age of the timer only: the age at which a REQUEST was last granted,
or 0 while there was none.  `TimerAges` keeps what this takes of the messages so far, and
`AtRightAge` is the condition on the time at which a message arrives.  It reads the messages
and the free slots, not the replies.  `AdvertisesRemaining` is the property of one reply, and
`bmvar_advertises_iff` says that along every run with a clock the two are the same.
`bmvar_stale_offer` is a run of two DISCOVERs.
-/

namespace BaremetalDhcp

open Machine

/-- **The reply advertises the remaining time of the range**, at least a second and at most
the lease time given. -/
def AdvertisesRemaining (leaseTime : UInt32) (server : DhcpServer BmPoolVar) (a : Arrival) :
    Prop :=
  ∀ ip, IsOffer ip (dhcpProcessMessageBmvar server a).2 ∨
      IsAck ip (dhcpProcessMessageBmvar server a).2 →
    ∃ l, replyLeaseTime (dhcpProcessMessageBmvar server a).2 = some l ∧
      a.curTime.toNat + l.toNat =
        (dhcpProcessMessageBmvar server a).1.pool.range.expireTime.toNat ∧
      1 ≤ l.toNat ∧ l.toNat ≤ leaseTime.toNat

/-! ## Which messages are granted an address -/

/-- The range has an address to offer: its first free slot, unless the address of that is 0. -/
def Epoch.Available (e : Epoch) : Prop :=
  ∃ slot : UInt32, IsLeast e.free slot.toNat ∧ e.base + slot ≠ 0

/-- A DISCOVER at this time finds an address in the range, which is recycled before if its
timer has run out. -/
def BmPoolVar.HasAddress (pool : BmPoolVar) (curTime : UInt32) : Prop :=
  (pool.refresh curTime).epoch.Available

/-- A REQUEST finds the address inside the configured pool and its slot free. -/
def FreeToGrant (server : DhcpServer BmPoolVar) (ip : UInt32) : Prop :=
  InPool server.config.poolStart server.config.poolEnd ip ∧
    ¬ (ip < server.pool.poolStart ∨ ip ≥ server.pool.poolStart + server.pool.rangeSize) ∧
    dhcpBmUsed server.pool.range.ips (ip - server.pool.poolStart) server.pool.rangeSize = false

instance decidableFreeToGrant (server : DhcpServer BmPoolVar) (ip : UInt32) :
    Decidable (FreeToGrant server ip) :=
  inferInstanceAs (Decidable (_ ∧ ¬ (_ ∨ _) ∧ _))

/-- The scan, with the test behind it, finds an address exactly if there is one. -/
theorem Epoch.scan_ne_zero_iff (e : Epoch) :
    (if e.scan.2 = 0 ∨ dhcpBmUsed e.ips (e.scan.2 - e.base) e.size = true then 0
      else e.scan.2) ≠ 0 ↔ e.Available := by
  have hused := dhcpBmUsed_add_base e
  have hempty : (∀ j : ℕ, e.counter.toNat ≤ j → j < e.size.toNat → slotUsed e.ips j = true) →
      ¬ e.Available := by
    rintro hall ⟨slot, ⟨hmem, -⟩, -⟩
    have hsome := hall _ hmem.1 hmem.2.1
    rw [hmem.2.2] at hsome
    exact Bool.false_ne_true hsome
  have hresult := peekScan_spec e.ips e.base e.size e.counter
  rw [scan]
  generalize peekScan e.ips e.base e.size e.counter = result at hresult ⊢
  cases hresult with
  | found slot hfrom hslot hfree hskipped =>
      have hleast : IsLeast e.free slot.toNat := by
        refine ⟨⟨UInt32.le_iff_toNat_le.mp hfrom, UInt32.lt_iff_toNat_lt.mp hslot, hfree⟩, ?_⟩
        intro s hs
        by_contra hlt
        have hsome := hskipped s hs.1 (not_le.mp hlt)
        rw [hs.2.2] at hsome
        exact Bool.false_ne_true hsome
      have hthis : e.Available ↔ e.base + slot ≠ 0 := by
        constructor
        · rintro ⟨slot', hleast', hne⟩
          rwa [← UInt32.toNat_inj.mp (hleast'.unique hleast)]
        · exact fun hne => ⟨slot, hleast, hne⟩
      simp only [hused slot hslot, hfree, Bool.false_eq_true, or_false]
      rw [hthis]
      split_ifs with hzero
      · exact iff_of_false (fun h => h rfl) (fun h => h hzero)
      · exact Iff.rfl
  | exhausted hlt hall =>
      -- the last candidate is in use, so the test behind the loop rejects it
      have hnat := UInt32.lt_iff_toNat_lt.mp hlt
      have hone : (1 : UInt32) ≤ e.size :=
        UInt32.le_iff_toNat_le.mpr (Nat.succ_le_of_lt (Nat.zero_lt_of_lt hnat))
      have hlast : (e.size - 1).toNat = e.size.toNat - 1 := UInt32.toNat_sub_of_le _ _ hone
      have htaken : dhcpBmUsed e.ips (e.base + (e.size - 1) - e.base) e.size = true := by
        rw [hused _ (by rw [UInt32.lt_iff_toNat_lt]; omega)]
        exact hall _ (by omega) (by omega)
      rw [if_pos (Or.inr htaken)]
      exact iff_of_false (fun h => h rfl) (hempty hall)
  | full hge =>
      rw [if_pos (Or.inl rfl)]
      refine iff_of_false (fun h => h rfl) (hempty fun j hj hj' => ?_)
      rw [UInt32.le_iff_toNat_le] at hge
      omega

/-- **A DISCOVER is offered an address** exactly if the range has one. -/
theorem dhcpBmpoolVarPeek_ne_zero_iff (pool : BmPoolVar) (t : UInt32) :
    (dhcpBmpoolVarPeek pool t).2 ≠ 0 ↔ pool.HasAddress t := by
  by_cases hrefuses : pool.Refuses t
  · rw [dhcpBmpoolVarPeek_of_refuses hrefuses]
    refine iff_of_false (fun h => h rfl) ?_
    rintro ⟨slot, ⟨hmem, -⟩, -⟩
    have hfull := ((pool.refuses_iff t).mp hrefuses).2
    rw [dhcpBmRangeFull, decide_eq_true_iff, ge_iff_le, UInt32.le_iff_toNat_le] at hfull
    exact absurd (hmem.1.trans_lt hmem.2.1) (Nat.not_lt.mpr hfull)
  · rw [(dhcpBmpoolVarPeek_of_ready hrefuses).1]
    exact Epoch.scan_ne_zero_iff _

/-- **A REQUEST is acknowledged** exactly if its address is free to grant. -/
theorem bmvarCalls_request_iff (server : DhcpServer BmPoolVar) (ip : UInt32) (a : Arrival) :
    (bmvarCalls.request server ip a).2 = true ↔ FreeToGrant server ip := by
  simp only [bmvarCalls, dhcpBmpoolVarCommitIp, FreeToGrant]
  split_ifs with hpool hout hused <;> simp_all

/-- A REQUEST that is refused leaves the server as it is. -/
theorem bmvarCalls_request_refused {server : DhcpServer BmPoolVar} {ip : UInt32} (a : Arrival)
    (h : ¬ FreeToGrant server ip) : (bmvarCalls.request server ip a).1 = server := by
  rw [← bmvarCalls_request_iff server ip a] at h
  simp only [bmvarCalls] at h ⊢
  split_ifs at h ⊢ with hpool hcommit
  · exact absurd rfl h
  · obtain hrefused | ⟨-, hgranted⟩ := dhcpBmpoolVarCommitIp_cases server.pool ip
    · rw [hrefused]
    · rw [hgranted] at hcommit
      exact absurd rfl hcommit
  · rfl

/-! ## The age of the timer -/

/-- What a run leaves behind of the times of its messages: the time of the DISCOVER that
started the timer last, and the age of the timer when a REQUEST was granted last. -/
structure TimerAges where
  started : ℕ
  granted : ℕ

/-- Nothing has been started or granted. -/
def TimerAges.zero : TimerAges := ⟨0, 0⟩

/-- The age of the timer for a message: a DISCOVER starts one that is not running, or has run
out, at its own time. -/
def TimerAges.age (ages : TimerAges) (server : DhcpServer BmPoolVar) (a : Arrival) : ℕ :=
  if server.pool.range.expireTime ≤ a.curTime then 0 else a.curTime.toNat - ages.started

/-- The two after a message. -/
def TimerAges.next (ages : TimerAges) (server : DhcpServer BmPoolVar) (a : Arrival) : TimerAges :=
  if a.msgType = dhcpDiscover then
    if server.pool.range.expireTime ≤ a.curTime then { ages with started := a.curTime.toNat }
    else ages
  else if a.msgType = dhcpRequest then
    match a.requestedIp with
    | some ip =>
        if FreeToGrant server ip then { ages with granted := a.curTime.toNat - ages.started }
        else ages
    | none => ages
  else ages

/-- The server together with the ages. -/
def agedStep (s : DhcpServer BmPoolVar × TimerAges) (a : Arrival) :
    (DhcpServer BmPoolVar × TimerAges) × Option DhcpMessage :=
  (((dhcpProcessMessageBmvar s.1 a).1, s.2.next s.1 a), (dhcpProcessMessageBmvar s.1 a).2)

/-- **The message arrives at the right age of the timer**: a DISCOVER that finds an address at
the age at which a REQUEST was last granted, a REQUEST for a free address before the timer has
run out. -/
def AtRightAge (leaseTime : UInt32) (s : DhcpServer BmPoolVar × TimerAges) (a : Arrival) : Prop :=
  (a.msgType = dhcpDiscover → s.1.pool.HasAddress a.curTime →
    1 ≤ leaseTime.toNat ∧ s.2.age s.1 a = s.2.granted) ∧
  ∀ ip, a.msgType = dhcpRequest → a.requestedIp = some ip → FreeToGrant s.1 ip →
    a.curTime < s.1.pool.range.expireTime

/-- What the ages say about the server: the timer ends a lease time after its start, and
`config.lease_time` is what was left at the age of the last grant. -/
structure TimerAges.Track (leaseTime : UInt32) (now : ℕ) (server : DhcpServer BmPoolVar)
    (ages : TimerAges) : Prop where
  leaseTime_eq : server.pool.leaseTime = leaseTime
  ends : server.pool.range.expireTime = 0 ∨
    server.pool.range.expireTime.toNat = ages.started + leaseTime.toNat
  started_le : ages.started ≤ now
  left : server.config.leaseTime.toNat + ages.granted = leaseTime.toNat

/-! ## One message -/

/-- The lease time in the reply is one particular value. -/
theorem remaining_iff {response : Option DhcpMessage} {c : UInt32} {t ends bound : ℕ}
    (hread : replyLeaseTime response = some c) :
    (∃ l, replyLeaseTime response = some l ∧ t + l.toNat = ends ∧ 1 ≤ l.toNat ∧
      l.toNat ≤ bound) ↔ t + c.toNat = ends ∧ 1 ≤ c.toNat ∧ c.toNat ≤ bound := by
  rw [hread]
  constructor
  · rintro ⟨l, hl, hrest⟩
    obtain rfl := Option.some.inj hl
    exact hrest
  · exact fun hrest => ⟨c, rfl, hrest⟩

namespace TimerAges.Track

variable {server : DhcpServer BmPoolVar} {a : Arrival} {leaseTime : UInt32} {ages : TimerAges}

theorem mono {now later : ℕ} (hle : now ≤ later) (h : ages.Track leaseTime now server) :
    ages.Track leaseTime later server :=
  ⟨h.leaseTime_eq, h.ends, h.started_le.trans hle, h.left⟩

/-- A timer that is running was started by the ages. -/
theorem ends_of_running {now : ℕ} (h : ages.Track leaseTime now server)
    (hrunning : a.curTime < server.pool.range.expireTime) :
    server.pool.range.expireTime.toNat = ages.started + leaseTime.toNat := by
  obtain hzero | hends := h.ends
  · rw [hzero] at hrunning
    exact absurd hrunning (UInt32.not_lt.mpr UInt32.zero_le)
  · exact hends

/-- An OFFER advertises `config.lease_time`, and the timer is the one after the peek. -/
theorem offer_iff (h : ages.Track leaseTime a.curTime.toNat server)
    (hfits : a.curTime.toNat + leaseTime.toNat < 2 ^ 32) {ip : UInt32}
    (hoffer : IsOffer ip (dhcpProcessMessageBmvar server a).2) :
    (∃ l, replyLeaseTime (dhcpProcessMessageBmvar server a).2 = some l ∧
      a.curTime.toNat + l.toNat =
        (dhcpProcessMessageBmvar server a).1.pool.range.expireTime.toNat ∧
      1 ≤ l.toNat ∧ l.toNat ≤ leaseTime.toNat) ↔
      1 ≤ leaseTime.toNat ∧ ages.age server a = ages.granted := by
  obtain ⟨hd, -, -⟩ := isOffer_processMessage_iff.mp hoffer
  have hread : replyLeaseTime (dhcpProcessMessageBmvar server a).2 =
      some server.config.leaseTime := replyLeaseTime_of_isOffer hoffer
  have htimer : (dhcpProcessMessageBmvar server a).1.pool.range.expireTime =
      if server.pool.range.expireTime ≤ a.curTime then a.curTime + server.pool.leaseTime
      else server.pool.range.expireTime := by
    unfold dhcpProcessMessageBmvar
    rw [processMessage_discover hd]
    exact (dhcpBmpoolVarPeek_timer server.pool a.curTime).2
  have hleft := h.left
  have hstarted := h.started_le
  rw [remaining_iff hread, htimer, age]
  split_ifs with hover
  · rw [h.leaseTime_eq, UInt32.toNat_add, Nat.mod_eq_of_lt hfits]
    omega
  · have hrunning := UInt32.not_le.mp hover
    have hends := h.ends_of_running hrunning
    have hlater := UInt32.lt_iff_toNat_lt.mp hrunning
    omega

/-- An ACK advertises the difference, which is what is left unless the timer is not
running. -/
theorem ack_iff (h : ages.Track leaseTime a.curTime.toNat server) {ip : UInt32}
    (hack : IsAck ip (dhcpProcessMessageBmvar server a).2) :
    (∃ l, replyLeaseTime (dhcpProcessMessageBmvar server a).2 = some l ∧
      a.curTime.toNat + l.toNat =
        (dhcpProcessMessageBmvar server a).1.pool.range.expireTime.toNat ∧
      1 ≤ l.toNat ∧ l.toNat ≤ leaseTime.toNat) ↔
      a.curTime < server.pool.range.expireTime := by
  obtain ⟨hr, hip, hgranted⟩ := isAck_processMessage_iff.mp hack
  obtain ⟨-, hnext⟩ := bmvarCalls_request_granted hgranted
  have hread : replyLeaseTime (dhcpProcessMessageBmvar server a).2 =
      some (server.pool.range.expireTime - a.curTime) := by
    rw [show replyLeaseTime (dhcpProcessMessageBmvar server a).2 = _ from
      replyLeaseTime_of_isAck hack, hnext]
  have htimer : (dhcpProcessMessageBmvar server a).1.pool.range.expireTime =
      server.pool.range.expireTime := by
    unfold dhcpProcessMessageBmvar
    rw [processMessage_request hr hip]
    show (bmvarCalls.request server ip a).1.pool.range.expireTime = _
    rw [hnext]
  rw [remaining_iff hread, htimer]
  constructor
  · rintro ⟨heq, hpos, -⟩
    rw [UInt32.lt_iff_toNat_lt]
    omega
  · intro hrunning
    have hends := h.ends_of_running hrunning
    have hstarted := h.started_le
    have hlt := UInt32.lt_iff_toNat_lt.mp hrunning
    rw [UInt32.toNat_sub_of_le _ _ (UInt32.le_iff_toNat_le.mpr hlt.le)]
    omega

/-- **One message**: the reply advertises the remaining time exactly if the message arrives
at the right age. -/
theorem advertises_iff (h : ages.Track leaseTime a.curTime.toNat server)
    (hfits : a.curTime.toNat + leaseTime.toNat < 2 ^ 32) :
    AdvertisesRemaining leaseTime server a ↔ AtRightAge leaseTime (server, ages) a := by
  have hoffered : ∀ {ip}, IsOffer ip (dhcpProcessMessageBmvar server a).2 ↔
      a.msgType = dhcpDiscover ∧ (dhcpBmpoolVarPeek server.pool a.curTime).2 = ip ∧ ip ≠ 0 :=
    isOffer_processMessage_iff
  have hacked : ∀ {ip}, IsAck ip (dhcpProcessMessageBmvar server a).2 ↔
      a.msgType = dhcpRequest ∧ a.requestedIp = some ip ∧ FreeToGrant server ip := by
    intro ip
    rw [← bmvarCalls_request_iff server ip a]
    exact isAck_processMessage_iff
  constructor
  · intro hall
    constructor
    · intro hd haddress
      have hoffer := hoffered.mpr
        ⟨hd, rfl, (dhcpBmpoolVarPeek_ne_zero_iff server.pool a.curTime).mpr haddress⟩
      exact (h.offer_iff hfits hoffer).mp (hall _ (Or.inl hoffer))
    · intro ip hr hip hfree
      have hack := hacked.mpr ⟨hr, hip, hfree⟩
      exact (h.ack_iff hack).mp (hall ip (Or.inr hack))
  · rintro ⟨hdiscover, hrequest⟩ ip (hoffer | hack)
    · obtain ⟨hd, hpeek, hne⟩ := hoffered.mp hoffer
      have haddress : server.pool.HasAddress a.curTime :=
        (dhcpBmpoolVarPeek_ne_zero_iff server.pool a.curTime).mp (hpeek.symm ▸ hne)
      exact (h.offer_iff hfits hoffer).mpr (hdiscover hd haddress)
    · obtain ⟨hr, hip, hfree⟩ := hacked.mp hack
      exact (h.ack_iff hack).mpr (hrequest ip hr hip hfree)

/-- **One message at the right age** keeps the ages and the server together. -/
theorem step (h : ages.Track leaseTime a.curTime.toNat server)
    (hfits : a.curTime.toNat + leaseTime.toNat < 2 ^ 32)
    (hage : AtRightAge leaseTime (server, ages) a) :
    (ages.next server a).Track leaseTime a.curTime.toNat (dhcpProcessMessageBmvar server a).1 := by
  unfold dhcpProcessMessageBmvar TimerAges.next
  obtain hd | ⟨hr, ip, hip⟩ | hc | hi := a.cases
  · obtain ⟨hlease, htimer⟩ := dhcpBmpoolVarPeek_timer server.pool a.curTime
    rw [processMessage_discover hd, if_pos hd]
    change TimerAges.Track leaseTime a.curTime.toNat
      { server with pool := (dhcpBmpoolVarPeek server.pool a.curTime).1 } _
    have hlease' := hlease.trans h.leaseTime_eq
    by_cases hover : server.pool.range.expireTime ≤ a.curTime
    · rw [if_pos hover] at htimer ⊢
      refine ⟨hlease', Or.inr ?_, le_rfl, h.left⟩
      change (dhcpBmpoolVarPeek server.pool a.curTime).1.range.expireTime.toNat = _
      rw [htimer, h.leaseTime_eq, UInt32.toNat_add, Nat.mod_eq_of_lt hfits]
    · rw [if_neg hover] at htimer ⊢
      refine ⟨hlease', ?_, h.started_le, h.left⟩
      change (dhcpBmpoolVarPeek server.pool a.curTime).1.range.expireTime = 0 ∨
        (dhcpBmpoolVarPeek server.pool a.curTime).1.range.expireTime.toNat = _
      rw [htimer]
      exact h.ends
  · have hne : a.msgType ≠ dhcpDiscover := by rw [hr]; decide
    rw [processMessage_request hr hip, if_neg hne, if_pos hr, hip]
    change TimerAges.Track leaseTime a.curTime.toNat (bmvarCalls.request server ip a).1
      (if FreeToGrant server ip then _ else _)
    by_cases hfree : FreeToGrant server ip
    · -- what is left now is the lease time less the age of the timer
      have hrunning : a.curTime < server.pool.range.expireTime := hage.2 ip hr hip hfree
      have hends := h.ends_of_running hrunning
      have hstarted := h.started_le
      have hlt := UInt32.lt_iff_toNat_lt.mp hrunning
      obtain ⟨-, hnext⟩ :=
        bmvarCalls_request_granted ((bmvarCalls_request_iff server ip a).mpr hfree)
      rw [if_pos hfree, hnext]
      refine ⟨h.leaseTime_eq, h.ends, h.started_le, ?_⟩
      change (server.pool.range.expireTime - a.curTime).toNat +
        (a.curTime.toNat - ages.started) = _
      rw [UInt32.toNat_sub_of_le _ _ (UInt32.le_iff_toNat_le.mpr hlt.le)]
      omega
    · rw [if_neg hfree, bmvarCalls_request_refused a hfree]
      exact h
  · have hne : a.msgType ≠ dhcpDiscover := by rw [hc]; decide
    have hne' : a.msgType ≠ dhcpRequest := by rw [hc]; decide
    rw [processMessage_decline hc, if_neg hne, if_neg hne']
    exact h
  · rw [processMessage_ignored hi, if_neg hi.1]
    split_ifs with hr
    · rw [hi.2.2 hr]
      exact h
    · exact h

end TimerAges.Track

/-- **BITMAP_VARTIME advertises the remaining time along a run** exactly if every message of
the run that is granted an address arrives at the right age of the timer. -/
theorem bmvar_advertises_iff (config : DhcpConfig) (range : BmRange) (rangeSize : UInt32)
    (run : List Arrival) (hsorted : run.Pairwise fun c d => c.curTime ≤ d.curTime)
    (hfits : ∀ a ∈ run, a.curTime.toNat + config.leaseTime.toNat < 2 ^ 32) :
    Along dhcpProcessMessageBmvar (AdvertisesRemaining config.leaseTime)
        (dhcpInitServerBmvar config range rangeSize) run ↔
      Along agedStep (AtRightAge config.leaseTime)
        (dhcpInitServerBmvar config range rangeSize, TimerAges.zero) run := by
  have hinit : TimerAges.zero.Track config.leaseTime 0
      (dhcpInitServerBmvar config range rangeSize) :=
    ⟨rfl, Or.inl rfl, le_rfl, rfl⟩
  refine along_congr_timed (fun a : Arrival => a.curTime.toNat)
    (fun now server s => s.1 = server ∧ s.2.Track config.leaseTime now server)
    (fun a => a.curTime.toNat + config.leaseTime.toNat < 2 ^ 32) ?_ ?_ ?_ run _ _ 0
    ⟨rfl, hinit⟩ hfits (fun _ _ => Nat.zero_le _)
    (hsorted.imp fun hle => UInt32.le_iff_toNat_le.mp hle)
  · exact fun hle hrel => ⟨hrel.1, hrel.2.mono hle⟩
  · rintro server ⟨server', ages⟩ a ⟨rfl, htrack⟩ ha
    exact htrack.advertises_iff ha
  · rintro server ⟨server', ages⟩ a ⟨rfl, htrack⟩ ha hadvertises
    exact ⟨rfl, htrack.step ha ((htrack.advertises_iff ha).mp hadvertises)⟩

/-- The first OFFER starts the timer and advertises the full 10 seconds, the ACK two seconds
later advertises 8, and so does the OFFER to another client in the same second. -/
theorem bmvar_advertises_two_clients :
    let server := dhcpInitServerBmvar (poolConfig 100 101 10) ⟨fun _ => 0, 0⟩ 2
    let run := [discoverFrom 1 0, requestFrom 1 100 2, discoverFrom 2 2]
    Along dhcpProcessMessageBmvar (AdvertisesRemaining 10) server run ∧
      IsOffer 101 (dhcpProcessMessageBmvar (exec dhcpProcessMessageBmvar server
        [discoverFrom 1 0, requestFrom 1 100 2]) (discoverFrom 2 2)).2 := by
  intro server run
  refine ⟨(bmvar_advertises_iff (poolConfig 100 101 10) ⟨fun _ => 0, 0⟩ 2 run (by decide)
    (by decide)).mpr ?_, ?_⟩
  · refine ⟨⟨fun _ _ => ⟨by decide, by decide⟩, fun ip hr => absurd hr (by decide)⟩,
      ⟨fun hd => absurd hd (by decide), fun _ _ _ _ => by decide +kernel⟩,
      ⟨fun _ _ => ⟨by decide, by decide +kernel⟩, fun ip hr => absurd hr (by decide)⟩, trivial⟩
  · exact isOffer_processMessage_iff.mpr ⟨by decide, by decide +kernel, by decide⟩

/-- A second client's DISCOVER at time 5 finds the timer running to 10, and its OFFER
advertises 10 seconds where 5 are left. -/
theorem bmvar_stale_offer :
    let server := dhcpInitServerBmvar (poolConfig 100 101 10) ⟨fun _ => 0, 0⟩ 2
    let a := discoverFrom 2 5
    let s := exec dhcpProcessMessageBmvar server [discoverFrom 1 0]
    IsOffer 101 (dhcpProcessMessageBmvar s a).2 ∧
      replyLeaseTime (dhcpProcessMessageBmvar s a).2 = some 10 ∧
      (dhcpProcessMessageBmvar s a).1.pool.range.expireTime = 10 ∧
      ¬ AdvertisesRemaining 10 s a := by
  intro server a s
  have hoffer : IsOffer 101 (dhcpProcessMessageBmvar s a).2 :=
    isOffer_processMessage_iff.mpr ⟨by decide, by decide +kernel, by decide⟩
  have hread : replyLeaseTime (dhcpProcessMessageBmvar s a).2 = some 10 :=
    (replyLeaseTime_of_isOffer hoffer).trans (by decide +kernel)
  have htimer : (dhcpProcessMessageBmvar s a).1.pool.range.expireTime = 10 := by decide +kernel
  refine ⟨hoffer, hread, htimer, fun hall => ?_⟩
  obtain ⟨l, hl, heq, -⟩ := hall 101 (Or.inl hoffer)
  obtain rfl := Option.some.inj (hread.symm.trans hl)
  rw [htimer] at heq
  exact absurd heq (by decide)

end BaremetalDhcp
