import BaremetalDhcp.Bitmap

/-!
# The BITMAP_VARTIME backend

`dhcp_bitmap_vartime.c`: one range with one timer.  The first DISCOVER after a
recycle starts the timer, the first one after its end recycles the range, and an
ACK promises what is left of it, `expire_time - cur_time`.

Only DISCOVER looks at the timer.  A REQUEST that arrives while it is not running,
or after it has run out, is acknowledged all the same, and the difference it
promises wraps around 32 bits.  `bmvar_no_double_lease` is what holds of the other
ACKs; `bmvar_wrapped_lease` is a run with one of these.
-/

namespace BaremetalDhcp

open Machine

/-- `dhcp_bmpool_var_t`. -/
structure BmPoolVar where
  poolStart : UInt32
  leaseTime : UInt32
  counter : UInt32
  range : BmRange
  rangeSize : UInt32

/-- `dhcp_bmpool_var_recycle`. -/
def dhcpBmpoolVarRecycle (pool : BmPoolVar) : BmPoolVar :=
  { pool with
    range := pool.range.recycle pool.rangeSize
    counter := 0 }

/-- `dhcp_bmpool_var_init`, on a range with arbitrary contents. -/
def dhcpBmpoolVarInit (poolStart leaseTime : UInt32) (range : BmRange) (rangeSize : UInt32) :
    BmPoolVar :=
  dhcpBmpoolVarRecycle
    { poolStart := poolStart
      leaseTime := leaseTime
      counter := 0
      range := range
      rangeSize := rangeSize }

/-- `dhcp_bmpool_var_peek`: the next pool and the address to offer, 0 for none. -/
def dhcpBmpoolVarPeek (pool : BmPoolVar) (curTime : UInt32) : BmPoolVar × UInt32 :=
  let pool :=
    if pool.range.expireTime > 0 ∧ pool.range.expireTime ≤ curTime then
      dhcpBmpoolVarRecycle pool
    else pool
  if pool.range.expireTime > 0 ∧ dhcpBmRangeFull pool.counter pool.rangeSize then (pool, 0)
  else
    let pool :=
      if pool.range.expireTime = 0 then
        { pool with range := { pool.range with expireTime := curTime + pool.leaseTime } }
      else pool
    let scan := peekScan pool.range.ips pool.poolStart pool.rangeSize pool.counter
    let pool := { pool with counter := scan.1 }
    if scan.2 = 0 ∨ dhcpBmUsed pool.range.ips (scan.2 - pool.poolStart) pool.rangeSize then
      (pool, 0)
    else (pool, scan.2)

/-- `dhcp_bmpool_var_commit_ip`. -/
def dhcpBmpoolVarCommitIp (pool : BmPoolVar) (ip : UInt32) : BmPoolVar × Bool :=
  if ip < pool.poolStart ∨ ip ≥ pool.poolStart + pool.rangeSize then (pool, false)
  else
    let bit := ip - pool.poolStart
    if dhcpBmUsed pool.range.ips bit pool.rangeSize then (pool, false)
    else
      ({ pool with range := { pool.range with ips := dhcpBmSet pool.range.ips bit } }, true)

/-- The pool calls of `dhcp_process_message_bmvar`; a DECLINE is ignored. -/
def bmvarCalls : PoolCalls BmPoolVar where
  discover server a :=
    let peeked := dhcpBmpoolVarPeek server.pool a.curTime
    ({ server with pool := peeked.1 }, peeked.2)
  request server ip a :=
    if InPool server.config.poolStart server.config.poolEnd ip then
      let committed := dhcpBmpoolVarCommitIp server.pool ip
      if committed.2 then
        ({ config := { server.config with
            leaseTime := committed.1.range.expireTime - a.curTime }
           pool := committed.1 }, true)
      else ({ server with pool := committed.1 }, false)
    else (server, false)
  decline server _ := server

/-- `dhcp_init_server_bmvar`. -/
def dhcpInitServerBmvar (config : DhcpConfig) (range : BmRange) (rangeSize : UInt32) :
    DhcpServer BmPoolVar where
  config := config
  pool := dhcpBmpoolVarInit config.poolStart config.leaseTime range rangeSize

/-- `dhcp_process_message_bmvar`. -/
def dhcpProcessMessageBmvar (server : DhcpServer BmPoolVar) (a : Arrival) :
    DhcpServer BmPoolVar × Option DhcpMessage :=
  processMessage bmvarCalls server a

/-! ## What a step can do -/

section Steps

variable {pool : BmPoolVar} {server : DhcpServer BmPoolVar} {a : Arrival}

/-- The first half of a peek: a range whose timer has run out is recycled. -/
def BmPoolVar.refresh (pool : BmPoolVar) (curTime : UInt32) : BmPoolVar :=
  if pool.range.expireTime > 0 ∧ pool.range.expireTime ≤ curTime then dhcpBmpoolVarRecycle pool
  else pool

/-- The second half: start the timer if it is not running, and scan. -/
def BmPoolVar.offer (pool : BmPoolVar) (curTime : UInt32) : BmPoolVar × UInt32 :=
  if pool.range.expireTime > 0 ∧ dhcpBmRangeFull pool.counter pool.rangeSize then (pool, 0)
  else
    let pool :=
      if pool.range.expireTime = 0 then
        { pool with range := { pool.range with expireTime := curTime + pool.leaseTime } }
      else pool
    let scan := peekScan pool.range.ips pool.poolStart pool.rangeSize pool.counter
    let pool := { pool with counter := scan.1 }
    if scan.2 = 0 ∨ dhcpBmUsed pool.range.ips (scan.2 - pool.poolStart) pool.rangeSize then
      (pool, 0)
    else (pool, scan.2)

theorem dhcpBmpoolVarPeek_eq (pool : BmPoolVar) (curTime : UInt32) :
    dhcpBmpoolVarPeek pool curTime = (pool.refresh curTime).offer curTime := rfl

/-- A peek leaves the range alone, except that it recycles one whose timer has run
out and starts the timer of one without. -/
theorem dhcpBmpoolVarPeek_range (pool : BmPoolVar) (curTime : UInt32) :
    ((dhcpBmpoolVarPeek pool curTime).1.poolStart = pool.poolStart ∧
      (dhcpBmpoolVarPeek pool curTime).1.rangeSize = pool.rangeSize) ∧
      ((dhcpBmpoolVarPeek pool curTime).1.range = pool.range ∨
        pool.range.expireTime ≤ curTime) := by
  unfold dhcpBmpoolVarPeek
  by_cases hover : pool.range.expireTime > 0 ∧ pool.range.expireTime ≤ curTime
  · simp only [hover, and_self, if_true]
    refine ⟨?_, Or.inr trivial⟩
    split_ifs <;> exact ⟨rfl, rfl⟩
  · simp only [hover, if_false]
    by_cases hzero : pool.range.expireTime = 0
    · simp only [hzero]
      refine ⟨?_, Or.inr (UInt32.zero_le)⟩
      split_ifs <;> exact ⟨rfl, rfl⟩
    · simp only [hzero, if_false]
      split_ifs <;> exact ⟨⟨rfl, rfl⟩, Or.inl rfl⟩

/-- The timer after a peek: one that is not running or has run out is started anew. -/
theorem dhcpBmpoolVarPeek_timer (pool : BmPoolVar) (curTime : UInt32) :
    (dhcpBmpoolVarPeek pool curTime).1.leaseTime = pool.leaseTime ∧
      (dhcpBmpoolVarPeek pool curTime).1.range.expireTime =
        if pool.range.expireTime ≤ curTime then curTime + pool.leaseTime
        else pool.range.expireTime := by
  unfold dhcpBmpoolVarPeek
  by_cases hrunning : pool.range.expireTime > 0
  · by_cases hover : pool.range.expireTime ≤ curTime
    · simp only [hrunning, hover, and_self, if_true, dhcpBmpoolVarRecycle, BmRange.recycle]
      split_ifs <;> simp_all
    · have hne : pool.range.expireTime ≠ 0 := UInt32.pos_iff_ne_zero.mp hrunning
      simp only [hover, and_false, if_false, hne]
      split_ifs <;> exact ⟨rfl, rfl⟩
  · have hzero : pool.range.expireTime = 0 := by
      by_contra hne
      exact hrunning (UInt32.pos_iff_ne_zero.mpr hne)
    simp only [hzero, gt_iff_lt, UInt32.lt_irrefl, false_and, if_false, if_true,
      UInt32.zero_le]
    split_ifs <;> exact ⟨rfl, rfl⟩

/-- A commit succeeds on a free slot of the range, and then only marks that slot. -/
theorem dhcpBmpoolVarCommitIp_cases (pool : BmPoolVar) (ip : UInt32) :
    dhcpBmpoolVarCommitIp pool ip = (pool, false) ∨
      slotUsed pool.range.ips (ip - pool.poolStart).toNat = false ∧
        dhcpBmpoolVarCommitIp pool ip =
          ({ pool with range := { pool.range with
              ips := dhcpBmSet pool.range.ips (ip - pool.poolStart) } }, true) := by
  unfold dhcpBmpoolVarCommitIp
  dsimp only
  split_ifs with hout hused
  · exact Or.inl rfl
  · exact Or.inl rfl
  · refine Or.inr ⟨?_, rfl⟩
    have hin : ip - pool.poolStart < pool.rangeSize := by
      by_contra hge
      exact hused (dhcpBmUsed_of_le (UInt32.not_lt.mp hge))
    rw [dhcpBmUsed_eq_slotUsed hin] at hused
    simpa using hused

/-- Until the deadline the address is marked, and the deadline is the end of the
range's timer. -/
def BmPoolVar.Held (x : UInt32) (deadline now : ℕ) (pool : BmPoolVar) : Prop :=
  deadline ≤ now ∨
    slotUsed pool.range.ips (x - pool.poolStart).toNat = true ∧
      pool.range.expireTime.toNat = deadline

theorem BmPoolVar.Held.mono {x : UInt32} {deadline now later : ℕ} (hle : now ≤ later)
    (h : pool.Held x deadline now) : pool.Held x deadline later :=
  Or.imp_left (fun hover => hover.trans hle) h

theorem BmPoolVar.Held.peek {x curTime : UInt32} {deadline : ℕ}
    (h : pool.Held x deadline curTime.toNat) :
    (dhcpBmpoolVarPeek pool curTime).1.Held x deadline curTime.toNat := by
  obtain hover | ⟨hused, hexpire⟩ := h
  · exact Or.inl hover
  obtain ⟨⟨hstart, -⟩, hrange | hover⟩ := dhcpBmpoolVarPeek_range pool curTime
  · right
    rw [hrange, hstart]
    exact ⟨hused, hexpire⟩
  · left
    rw [← hexpire]
    exact UInt32.le_iff_toNat_le.mp hover

theorem BmPoolVar.Held.commit {x ip : UInt32} {deadline now : ℕ}
    (h : pool.Held x deadline now) : (dhcpBmpoolVarCommitIp pool ip).1.Held x deadline now := by
  obtain hcommit | ⟨-, hcommit⟩ := dhcpBmpoolVarCommitIp_cases pool ip
  · rw [hcommit]
    exact h
  · rw [hcommit]
    exact h.imp_right fun hheld => ⟨(slotUsed_dhcpBmSet _ _ _).mpr (Or.inr hheld.1), hheld.2⟩

/-- What a REQUEST does to the pool is a commit, or nothing. -/
theorem bmvarCalls_request_pool (server : DhcpServer BmPoolVar) (ip : UInt32) (a : Arrival) :
    (bmvarCalls.request server ip a).1.pool = server.pool ∨
      (bmvarCalls.request server ip a).1.pool = (dhcpBmpoolVarCommitIp server.pool ip).1 := by
  simp only [bmvarCalls]
  split_ifs
  · exact Or.inr rfl
  · exact Or.inr rfl
  · exact Or.inl rfl

/-- An acknowledged address was free, is marked, and the lease promised is what is
left of the timer. -/
theorem bmvarCalls_request_granted {ip : UInt32}
    (h : (bmvarCalls.request server ip a).2 = true) :
    slotUsed server.pool.range.ips (ip - server.pool.poolStart).toNat = false ∧
      (bmvarCalls.request server ip a).1 =
        { config := { server.config with
            leaseTime := server.pool.range.expireTime - a.curTime }
          pool := { server.pool with range := { server.pool.range with
            ips := dhcpBmSet server.pool.range.ips (ip - server.pool.poolStart) } } } := by
  simp only [bmvarCalls] at h ⊢
  split_ifs at h ⊢ with hpool hcommit
  obtain hrefused | ⟨hfree, hgranted⟩ := dhcpBmpoolVarCommitIp_cases server.pool ip
  · rw [hrefused] at hcommit
    simp at hcommit
  · rw [hgranted]
    exact ⟨hfree, rfl⟩

/-- **One message keeps a held address.** -/
theorem BmPoolVar.Held.step {x : UInt32} {deadline : ℕ}
    (h : server.pool.Held x deadline a.curTime.toNat) :
    (dhcpProcessMessageBmvar server a).1.pool.Held x deadline a.curTime.toNat := by
  unfold dhcpProcessMessageBmvar
  obtain hd | ⟨hr, ip, hip⟩ | hc | hi := a.cases
  · rw [processMessage_discover hd]
    exact h.peek
  · rw [processMessage_request hr hip]
    obtain hsame | hcommit := bmvarCalls_request_pool server ip a
    · show BmPoolVar.Held _ _ _ (bmvarCalls.request server ip a).1.pool
      rw [hsame]
      exact h
    · show BmPoolVar.Held _ _ _ (bmvarCalls.request server ip a).1.pool
      rw [hcommit]
      exact h.commit
  · rw [processMessage_decline hc]
    exact h
  · rw [processMessage_ignored hi]
    exact h

end Steps

/-- **No double lease while the timer runs.**  If `x` is acknowledged with a lease of
`l` while the range's timer is running, it is not acknowledged again before the
lease has ended. -/
theorem bmvar_no_double_lease (config : DhcpConfig) (range : BmRange) (rangeSize : UInt32)
    (before between : List Arrival) (a b : Arrival) (x l : UInt32)
    (hsorted : (before ++ a :: between ++ [b]).Pairwise fun c d => c.curTime ≤ d.curTime)
    (hack : IsAck x (dhcpProcessMessageBmvar
      (exec dhcpProcessMessageBmvar (dhcpInitServerBmvar config range rangeSize) before) a).2)
    (hlease : replyLeaseTime (dhcpProcessMessageBmvar
      (exec dhcpProcessMessageBmvar (dhcpInitServerBmvar config range rangeSize) before) a).2 =
        some l)
    (hrunning : a.curTime ≤ (exec dhcpProcessMessageBmvar
      (dhcpInitServerBmvar config range rangeSize) before).pool.range.expireTime)
    (hack' : IsAck x (dhcpProcessMessageBmvar (exec dhcpProcessMessageBmvar
      (dhcpInitServerBmvar config range rangeSize) (before ++ a :: between)) b).2) :
    a.curTime.toNat + l.toNat ≤ b.curTime.toNat := by
  rw [exec_append, exec_cons] at hack'
  generalize exec dhcpProcessMessageBmvar (dhcpInitServerBmvar config range rangeSize) before =
    server at hack hlease hrunning hack'
  obtain ⟨hab, hbetween, hmiddle⟩ := timestamps_between hsorted
  -- the first ACK: the address is marked, and the lease ends with the timer
  obtain ⟨hr, hip, hgranted⟩ := isAck_processMessage_iff.mp hack
  obtain ⟨-, hnext⟩ := bmvarCalls_request_granted hgranted
  have hpromise : l = server.pool.range.expireTime - a.curTime := by
    have hread := replyLeaseTime_of_isAck hack
    rw [hnext] at hread
    exact Option.some.inj (hlease.symm.trans hread)
  have hdeadline : a.curTime.toNat + l.toNat = server.pool.range.expireTime.toNat := by
    rw [hpromise, UInt32.toNat_sub_of_le _ _ hrunning]
    exact Nat.add_sub_of_le (UInt32.le_iff_toNat_le.mp hrunning)
  have hheld : (dhcpProcessMessageBmvar server a).1.pool.Held x
      (a.curTime.toNat + l.toNat) a.curTime.toNat := by
    unfold dhcpProcessMessageBmvar
    rw [processMessage_request hr hip]
    show BmPoolVar.Held _ _ _ (bmvarCalls.request server x a).1.pool
    rw [hnext]
    exact Or.inr ⟨(slotUsed_dhcpBmSet _ _ _).mpr (Or.inl rfl), hdeadline.symm⟩
  -- it stays so until the second ACK arrives
  have hlater := exec_timed (fun c : Arrival => c.curTime.toNat)
    (fun now (s : DhcpServer BmPoolVar) => s.pool.Held x (a.curTime.toNat + l.toNat) now)
    (fun _ => True) BmPoolVar.Held.mono (fun _ _ hh _ => hh.step) between _ a.curTime.toNat
    b.curTime.toNat hheld hab (fun _ _ => trivial) hbetween hmiddle
  -- the second ACK found the slot free
  obtain ⟨-, -, hgranted'⟩ := isAck_processMessage_iff.mp hack'
  obtain ⟨hfree, -⟩ := bmvarCalls_request_granted hgranted'
  obtain hover | ⟨hused, -⟩ := hlater
  · exact hover
  · rw [hfree] at hused
    simp at hused

/-- An offered address, acknowledged at time 2 for the remaining 8 seconds, is
acknowledged again at time 10. -/
theorem bmvar_no_double_lease_renewed :
    let server := dhcpInitServerBmvar (poolConfig 100 100 10) ⟨fun _ => 0, 0⟩ 1
    let a := requestFrom 1 100 2
    let b := requestFrom 2 100 10
    IsAck 100 (dhcpProcessMessageBmvar
        (exec dhcpProcessMessageBmvar server [discoverFrom 1 0]) a).2 ∧
      IsAck 100 (dhcpProcessMessageBmvar (exec dhcpProcessMessageBmvar server
        ([discoverFrom 1 0] ++ a :: [discoverFrom 2 10])) b).2 ∧
      a.curTime.toNat + (8 : UInt32).toNat ≤ b.curTime.toNat := by
  intro server a b
  have hack : IsAck 100 (dhcpProcessMessageBmvar
      (exec dhcpProcessMessageBmvar server [discoverFrom 1 0]) a).2 :=
    isAck_processMessage_iff.mpr ⟨by decide, by decide, by decide +kernel⟩
  have hack' : IsAck 100 (dhcpProcessMessageBmvar (exec dhcpProcessMessageBmvar server
      ([discoverFrom 1 0] ++ a :: [discoverFrom 2 10])) b).2 :=
    isAck_processMessage_iff.mpr ⟨by decide, by decide, by decide +kernel⟩
  have hlease : replyLeaseTime (dhcpProcessMessageBmvar
      (exec dhcpProcessMessageBmvar server [discoverFrom 1 0]) a).2 = some 8 :=
    (replyLeaseTime_of_isAck hack).trans (by decide +kernel)
  exact ⟨hack, hack', bmvar_no_double_lease _ _ _ [discoverFrom 1 0] [discoverFrom 2 10] a b 100 8
    (by decide) hack hlease (by decide +kernel) hack'⟩

/-- A REQUEST at time 5 with no timer running is acknowledged with a lease of
`2^32 - 5` seconds; the address is acknowledged again at time 15, after a DISCOVER
at time 5 has started the timer and one at time 15 has recycled the range. -/
theorem bmvar_wrapped_lease :
    let server := dhcpInitServerBmvar (poolConfig 100 100 10) ⟨fun _ => 0, 0⟩ 1
    let a := requestFrom 1 100 5
    let between := [discoverFrom 2 5, discoverFrom 2 15]
    let b := requestFrom 2 100 15
    ([] ++ a :: between ++ [b]).Pairwise (fun c d : Arrival => c.curTime ≤ d.curTime) ∧
      IsAck 100 (dhcpProcessMessageBmvar (exec dhcpProcessMessageBmvar server []) a).2 ∧
      replyLeaseTime (dhcpProcessMessageBmvar
        (exec dhcpProcessMessageBmvar server []) a).2 = some 4294967291 ∧
      IsAck 100 (dhcpProcessMessageBmvar
        (exec dhcpProcessMessageBmvar server ([] ++ a :: between)) b).2 ∧
      ¬ a.curTime.toNat + (4294967291 : UInt32).toNat ≤ b.curTime.toNat := by
  intro server a between b
  have hack : IsAck 100 (dhcpProcessMessageBmvar (exec dhcpProcessMessageBmvar server []) a).2 :=
    isAck_processMessage_iff.mpr ⟨by decide, by decide, by decide +kernel⟩
  refine ⟨by decide, hack, ?_, ?_, by decide⟩
  · exact (replyLeaseTime_of_isAck hack).trans (by decide +kernel)
  · exact isAck_processMessage_iff.mpr ⟨by decide, by decide, by decide +kernel⟩

end BaremetalDhcp
