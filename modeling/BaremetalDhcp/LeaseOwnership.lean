import BaremetalDhcp.ArrayPool
import BaremetalDhcp.HashPool

/-!
# Ownership and availability of leases

What the two client-tracking backends promise over whole runs, proved once for
every implementation of the abstract lease pool and then read off for ARRAY and
HASHMAP.

* `lease_ownership` — from the ACK to the end of the lease, the address belongs to
  the client: it is offered and acknowledged to nobody else, and every exchange of
  the client ends on it.
* `offer_iff_not_starved` — when a client without a lease gets an OFFER.  The
  clean-up is triggered by the size of the table alone, so expired leases that
  cover the whole address range block new clients until the table fills up.

The invariant behind the first is `Owned`, indexed by the clock; behind the second
it is `LeasePool.Bounded`, which holds at all times.
-/

namespace BaremetalDhcp

open Machine

/-! ## Ownership -/

namespace LeasePool

variable {q q₀ q' : LeasePool} {l : Lease} {batch : ℕ∞} {t poolStart poolEnd : UInt32}
  {config : DhcpConfig} {a : Arrival}

/-- A live lease survives every clean-up. -/
theorem Purges.mem_of_live (h : Purges batch t q q₀) (hl : l ∈ q.table.leases)
    (hlive : t < l.expireTime) : l ∈ q₀.table.leases := by
  by_contra hgone
  exact absurd (h.expired l hl hgone) (UInt32.not_le.mpr hlive)

/-- A client with a lease is offered its address. -/
theorem find_own (hl : l ∈ q.table.leases) :
    q.find poolStart poolEnd l.macAddress = (q, l.ipAddress) := by
  unfold find
  rw [LeaseTable.lookup_eq_some_iff.mpr ⟨hl, rfl⟩]

/-- The search leaves the table alone. -/
theorem find_table (q : LeasePool) (mac : Mac) :
    (q.find poolStart poolEnd mac).1.table = q.table ∧
      (q.find poolStart poolEnd mac).1.max = q.max := by
  unfold find
  cases q.table.lookup mac with
  | some l => exact ⟨rfl, rfl⟩
  | none => by_cases hfull : q.Full <;> simp [hfull]

/-- Nobody else is offered the address of a lease. -/
theorem find_ne_of_held (hl : l ∈ q.table.leases) {mac : Mac} (hmac : l.macAddress ≠ mac)
    (hne : l.ipAddress ≠ 0) : (q.find poolStart poolEnd mac).2 ≠ l.ipAddress := by
  unfold find
  cases hlookup : q.table.lookup mac with
  | some x =>
      obtain ⟨hx, rfl⟩ := LeaseTable.lookup_eq_some_iff.mp hlookup
      exact fun hip => hmac (by rw [q.table.ip_inj x hx l hl hip])
  | none =>
      by_cases hfull : q.Full
      · simp only [hfull, if_true]
        exact hne.symm
      · simp only [hfull, if_false]
        have hsearch := cursorLoop_not_leased (fun ip => decide (q.table.Holds ip)) poolStart
          (poolEnd - poolStart + 1) (poolEnd - poolStart + 1).toNat q.nextIp
        intro hfound
        change (cursorLoop _ _ _ _ _).1 = _ at hfound
        rw [hfound] at hsearch
        obtain hzero | hfree := hsearch
        · exact hne hzero
        · exact of_decide_eq_false hfree ⟨l, hl, rfl⟩

/-- Until the deadline the client holds the address, with a lease that lasts at
least as long. -/
def Owned (mac : Mac) (ip : UInt32) (deadline now : ℕ) (q : LeasePool) : Prop :=
  deadline ≤ now ∨
    ∃ l ∈ q.table.leases, l.macAddress = mac ∧ l.ipAddress = ip ∧
      deadline ≤ l.expireTime.toNat

/-- A grant to anybody keeps an owned lease: the owner only renews it, and others
are granted other addresses. -/
theorem alloc_keeps (hl : l ∈ q.table.leases) {ip : UInt32} {mac : Mac} {expireTime : UInt32}
    {deadline : ℕ} (hdeadline : deadline ≤ l.expireTime.toNat)
    (hlater : deadline ≤ expireTime.toNat) :
    ∃ x ∈ (q.alloc ip mac expireTime).1.table.leases, x.macAddress = l.macAddress ∧
      x.ipAddress = l.ipAddress ∧ deadline ≤ x.expireTime.toNat := by
  unfold alloc
  by_cases hgrants : q.Grants ip mac
  · rw [if_pos hgrants]
    by_cases hmac : l.macAddress = mac
    · subst hmac
      obtain rfl := (grants_own_iff hl).mp hgrants
      exact ⟨_, LeaseTable.mem_put.mpr (Or.inl rfl), rfl, rfl, hlater⟩
    · have hip : l.ipAddress ≠ ip := by
        rintro rfl
        exact not_grants_of_held hl hmac hgrants
      exact ⟨l, LeaseTable.mem_put.mpr (Or.inr ⟨hl, hmac, hip⟩), rfl, rfl, hdeadline⟩
  · rw [if_neg hgrants]
    exact ⟨l, hl, rfl, rfl, hdeadline⟩

/-- **One message keeps ownership**, unless it is a DECLINE of the owner. -/
theorem Owned.step {mac : Mac} {ip : UInt32} {deadline : ℕ}
    (h : Owned mac ip deadline a.curTime.toNat q) (hstep : LeaseStep config batch q a q')
    (hfits : a.curTime.toNat + config.leaseTime.toNat < 2 ^ 32)
    (hlater : deadline ≤ a.curTime.toNat + config.leaseTime.toNat)
    (hkeeps : a.mac = mac → a.msgType ≠ dhcpDecline) :
    Owned mac ip deadline a.curTime.toNat q' := by
  obtain hover | ⟨l, hl, rfl, rfl, hdeadline⟩ := h
  · exact Or.inl hover
  by_cases hover : deadline ≤ a.curTime.toNat
  · exact Or.inl hover
  have hlive : a.curTime < l.expireTime := by
    rw [UInt32.lt_iff_toNat_lt]
    omega
  right
  cases hstep with
  | discover htype hpurge =>
      rw [(find_table _ _).1]
      exact ⟨l, hpurge.mem_of_live hl hlive, rfl, rfl, hdeadline⟩
  | request htype hpool hpurge =>
      have hexpire : (a.curTime + config.leaseTime).toNat =
          a.curTime.toNat + config.leaseTime.toNat := by
        rw [UInt32.toNat_add, Nat.mod_eq_of_lt hfits]
      exact alloc_keeps (hpurge.mem_of_live hl hlive) hdeadline (hexpire ▸ hlater)
  | decline htype =>
      have hmac : l.macAddress ≠ a.mac := fun hmac => hkeeps hmac.symm htype
      exact ⟨l, LeaseTable.mem_keep.mpr ⟨hl, hmac⟩, rfl, rfl, hdeadline⟩
  | idle => exact ⟨l, hl, rfl, rfl, hdeadline⟩

end LeasePool

section Ownership

variable {P : Type} {ops : LeaseOps P} {batch : ℕ∞} {Rep : P → LeasePool → Prop}

/-- What is true of every state of a run: the configuration is the initial one
and the pool implements some abstract pool. -/
def Implements (Rep : P → LeasePool → Prop) (config : DhcpConfig) (s : DhcpServer P) : Prop :=
  s.config = config ∧ ∃ q, Rep s.pool q

theorem LeaseOps.Refines.implements (href : ops.Refines batch Rep) {server : DhcpServer P}
    {q : LeasePool} (hrep : Rep server.pool q) (run : List Arrival) :
    Implements Rep server.config (exec (processMessage ops.calls) server run) := by
  refine exec_inv (Implements Rep server.config) (fun _ => True) ?_ run server
    ⟨rfl, q, hrep⟩ fun _ _ => trivial
  rintro s a ⟨hconfig, q, hq⟩ -
  obtain ⟨hsame, q', -, hq'⟩ := href.step (a := a) hq
  exact ⟨hsame.trans hconfig, q', hq'⟩

/-- Right after the ACK the client holds the address for the whole lease time. -/
theorem LeaseOps.Refines.owned_of_isAck (href : ops.Refines batch Rep)
    {server : DhcpServer P} {q : LeasePool} (hrep : Rep server.pool q) {a : Arrival}
    {ip : UInt32} (hack : IsAck ip (processMessage ops.calls server a).2)
    (hfits : a.curTime.toNat + server.config.leaseTime.toNat < 2 ^ 32) :
    InPool server.config.poolStart server.config.poolEnd ip ∧
      ∃ q', Rep (processMessage ops.calls server a).1.pool q' ∧
        q'.Owned a.mac ip (a.curTime.toNat + server.config.leaseTime.toNat)
          a.curTime.toNat := by
  obtain ⟨hr, hip, hcommit⟩ := isAck_processMessage_iff.mp hack
  have hpool : InPool server.config.poolStart server.config.poolEnd ip := by
    by_contra hout
    rw [ops.calls_request_of_not_inPool hout] at hcommit
    simp at hcommit
  rw [ops.calls_request_of_inPool hpool] at hcommit
  obtain ⟨q₀, -, hsame, hnext⟩ := href.alloc ip a.mac server.config.leaseTime a.curTime hrep
  have hgrants : q₀.Grants ip a.mac := by
    by_contra hnot
    rw [hsame, LeasePool.alloc, if_neg hnot] at hcommit
    simp at hcommit
  refine ⟨hpool, (q₀.alloc ip a.mac (a.curTime + server.config.leaseTime)).1, ?_,
    Or.inr ⟨⟨a.mac, ip, a.curTime + server.config.leaseTime⟩, ?_, rfl, rfl, ?_⟩⟩
  · rw [processMessage_request hr hip, ops.calls_request_of_inPool hpool]
    exact hnext
  · rw [LeasePool.alloc, if_pos hgrants]
    exact LeaseTable.mem_put.mpr (Or.inl rfl)
  · rw [UInt32.toNat_add, Nat.mod_eq_of_lt hfits]

/-- **The run lemma.**  Ownership lasts over any messages but a DECLINE of the
owner. -/
theorem LeaseOps.Refines.owned_exec (href : ops.Refines batch Rep) {config : DhcpConfig}
    {mac : Mac} {ip : UInt32} {deadline : ℕ} (run : List Arrival) {server : DhcpServer P}
    {now later : ℕ} (hconfig : server.config = config)
    (howned : ∃ q, Rep server.pool q ∧ q.Owned mac ip deadline now) (hle : now ≤ later)
    (hok : ∀ a ∈ run, a.curTime.toNat + config.leaseTime.toNat < 2 ^ 32 ∧
      deadline ≤ a.curTime.toNat + config.leaseTime.toNat ∧
      (a.mac = mac → a.msgType ≠ dhcpDecline))
    (hbetween : ∀ a ∈ run, now ≤ a.curTime.toNat ∧ a.curTime.toNat ≤ later)
    (hsorted : run.Pairwise fun a b => a.curTime.toNat ≤ b.curTime.toNat) :
    ∃ q, Rep (exec (processMessage ops.calls) server run).pool q ∧
      q.Owned mac ip deadline later := by
  refine (exec_timed (fun a : Arrival => a.curTime.toNat)
    (fun now s => s.config = config ∧ ∃ q, Rep s.pool q ∧ q.Owned mac ip deadline now)
    (fun a => a.curTime.toNat + config.leaseTime.toNat < 2 ^ 32 ∧
      deadline ≤ a.curTime.toNat + config.leaseTime.toNat ∧
      (a.mac = mac → a.msgType ≠ dhcpDecline))
    ?_ ?_ run server now later ⟨hconfig, howned⟩ hle hok hbetween hsorted).2
  · rintro t t' s htt' ⟨hc, q, hq, howned⟩
    exact ⟨hc, q, hq, howned.imp_left fun hd => hd.trans htt'⟩
  · rintro s a ⟨rfl, q, hq, howned⟩ ⟨hfits, hlater, hkeeps⟩
    obtain ⟨hsame, q', hstep, hq'⟩ := href.step (a := a) hq
    exact ⟨hsame, q', hq', howned.step hstep hfits hlater hkeeps⟩

/-- What the owner and the others are told while the lease is live. -/
theorem LeaseOps.Refines.answers_of_owned (href : ops.Refines batch Rep)
    {server : DhcpServer P} {q : LeasePool} (hrep : Rep server.pool q) {mac : Mac} {ip : UInt32}
    {deadline : ℕ} {b : Arrival} (howned : q.Owned mac ip deadline b.curTime.toNat)
    (hbefore : b.curTime.toNat < deadline)
    (hpool : InPool server.config.poolStart server.config.poolEnd ip) (hne : ip ≠ 0) :
    let response := (processMessage ops.calls server b).2
    (b.mac = mac → b.msgType = dhcpDiscover → IsOffer ip response) ∧
      (b.mac = mac → b.msgType = dhcpRequest → ∀ y, b.requestedIp = some y →
        (y = ip → IsAck ip response) ∧ (y ≠ ip → ∀ z, ¬ IsAck z response)) ∧
      (b.mac ≠ mac → ¬ IsOffer ip response ∧ ¬ IsAck ip response) := by
  obtain hover | ⟨l, hl, rfl, rfl, hdeadline⟩ := howned
  · omega
  have hlive : b.curTime < l.expireTime := by
    rw [UInt32.lt_iff_toNat_lt]
    omega
  refine ⟨fun hmac hd => ?_, fun hmac hr y hy => ?_, fun hmac => ⟨fun hoffer => ?_, fun hack => ?_⟩⟩
  · obtain ⟨q₀, hpurge, hiff⟩ := href.isOffer_iff hrep hd
    rw [hiff, hmac, LeasePool.find_own (hpurge.mem_of_live hl hlive)]
    exact ⟨rfl, hne⟩
  · obtain ⟨q₀, hpurge, hiff⟩ := href.isAck_iff hrep hr hy
    rw [hmac, LeasePool.grants_own_iff (hpurge.mem_of_live hl hlive)] at hiff
    refine ⟨fun hyx => ?_, fun hyx z hack => ?_⟩
    · subst hyx
      exact hiff.mpr ⟨hpool, rfl⟩
    · obtain rfl : y = z := Option.some.inj (hy.symm.trans (isAck_processMessage_iff.mp hack).2.1)
      exact hyx (hiff.mp hack).2.symm
  · have hd := (isOffer_processMessage_iff.mp hoffer).1
    obtain ⟨q₀, hpurge, hiff⟩ := href.isOffer_iff hrep hd
    exact LeasePool.find_ne_of_held (hpurge.mem_of_live hl hlive) hmac.symm hne
      ((hiff _).mp hoffer).1
  · obtain ⟨hr, hip, -⟩ := isAck_processMessage_iff.mp hack
    obtain ⟨q₀, hpurge, hiff⟩ := href.isAck_iff hrep hr hip
    exact LeasePool.not_grants_of_held (hpurge.mem_of_live hl hlive) hmac.symm (hiff.mp hack).2

end Ownership

/-- **A server keeps its leases**, over every run from the given state: if `a` is
acknowledged with `x` and its client declines nothing afterwards, then up to the
end of the lease time a DISCOVER of the client is answered with `x`, a REQUEST of
the client is acknowledged exactly for `x`, and no other client is offered or
acknowledged `x`. -/
def KeepsLeases {P : Type}
    (step : DhcpServer P → Arrival → DhcpServer P × Option DhcpMessage)
    (server : DhcpServer P) : Prop :=
  ∀ (before between : List Arrival) (a b : Arrival) (x : UInt32),
    (before ++ a :: between ++ [b]).Pairwise (fun c d => c.curTime ≤ d.curTime) →
    (∀ c ∈ before ++ a :: between ++ [b],
      c.curTime.toNat + server.config.leaseTime.toNat < 2 ^ 32) →
    IsAck x (step (exec step server before) a).2 →
    (∀ c ∈ between, c.mac = a.mac → c.msgType ≠ dhcpDecline) →
    b.curTime.toNat < a.curTime.toNat + server.config.leaseTime.toNat →
    let response := (step (exec step server (before ++ a :: between)) b).2
    (b.mac = a.mac → b.msgType = dhcpDiscover → IsOffer x response) ∧
      (b.mac = a.mac → b.msgType = dhcpRequest → ∀ y, b.requestedIp = some y →
        (y = x → IsAck x response) ∧ (y ≠ x → ∀ z, ¬ IsAck z response)) ∧
      (b.mac ≠ a.mac → ¬ IsOffer x response ∧ ¬ IsAck x response)

/-- Every implementation of the abstract pool keeps its leases. -/
theorem LeaseOps.Refines.keepsLeases {P : Type} {ops : LeaseOps P} {batch : ℕ∞}
    {Rep : P → LeasePool → Prop} (href : ops.Refines batch Rep) {server : DhcpServer P}
    {q : LeasePool} (hrep : Rep server.pool q) (hpos : 0 < server.config.poolStart) :
    KeepsLeases (processMessage ops.calls) server := by
  intro before between a b x hsorted hfits hack hkeeps hbefore
  obtain ⟨hconfig, q₁, hq₁⟩ := href.implements hrep before
  generalize hs₁ : exec (processMessage ops.calls) server before = s₁ at hconfig hq₁ hack
  obtain ⟨hab, hbetween, hmiddle⟩ := timestamps_between hsorted
  -- the state right after the ACK
  obtain ⟨hpool, q₂, hq₂, howned⟩ := href.owned_of_isAck hq₁ hack
    (by rw [hconfig]; exact hfits a (by simp))
  rw [hconfig] at hpool howned
  have hconfig₂ : (processMessage ops.calls s₁ a).1.config = server.config :=
    (href.step (a := a) hq₁).1.trans hconfig
  -- the state when `b` arrives
  obtain ⟨q₃, hq₃, howned₃⟩ := href.owned_exec between hconfig₂
    ⟨q₂, hq₂, howned⟩ hab
    (fun c hc => ⟨hfits c (by simp [hc]), Nat.add_le_add_right (hbetween c hc).1 _,
      hkeeps c hc⟩) hbetween hmiddle
  have hrun : exec (processMessage ops.calls) server (before ++ a :: between) =
      exec (processMessage ops.calls) (processMessage ops.calls s₁ a).1 between := by
    rw [exec_append, hs₁, exec_cons]
  have hconfig₃ : (exec (processMessage ops.calls) server (before ++ a :: between)).config =
      server.config := (href.implements hrep _).1
  rw [hrun] at hconfig₃ ⊢
  exact href.answers_of_owned hq₃ howned₃ hbefore (by rw [hconfig₃]; exact hpool)
    (hpool.ne_zero hpos)

/-- **Lease ownership**, for both client-tracking backends. -/
theorem lease_ownership (config : DhcpConfig) (hpos : 0 < config.poolStart)
    (maxLeases : UInt16) (leases : Fin maxLeases.toNat → DhcpLease) (prior : HashPool) :
    KeepsLeases dhcpProcessMessageArray (dhcpInitServerArray config leases) ∧
      KeepsLeases dhcpProcessMessageHashmap (dhcpInitServerHashmap config prior maxLeases) :=
  ⟨(arrayOps_refines maxLeases).keepsLeases (dhcpArraypoolInit_represents _ _) hpos,
    hashOps_refines.keepsLeases (dhcpHashpoolInit_represents _ _ _) hpos⟩

/-- Two clients on a pool of two addresses: at time 5 the first is offered the
address it was acknowledged at time 0. -/
theorem lease_ownership_two_clients :
    let config := poolConfig 100 101 10
    let array : DhcpServer (ArrayPool 2) :=
      dhcpInitServerArray config fun _ => ⟨⟨fun _ => 0, 0, 0⟩, false⟩
    let hashmap := dhcpInitServerHashmap config HashPool.zeroed 2
    let run := [] ++ requestFrom 1 100 0 :: [requestFrom 2 101 1]
    0 < config.poolStart ∧
      IsOffer 100 (dhcpProcessMessageArray (exec dhcpProcessMessageArray array run)
        (discoverFrom 1 5)).2 ∧
      IsOffer 100 (dhcpProcessMessageHashmap (exec dhcpProcessMessageHashmap hashmap run)
        (discoverFrom 1 5)).2 := by
  intro config array hashmap run
  obtain ⟨harray, hhashmap⟩ := lease_ownership config (by decide) 2
    (fun _ => ⟨⟨fun _ => 0, 0, 0⟩, false⟩) HashPool.zeroed
  have hack : IsAck 100 (dhcpProcessMessageArray array (requestFrom 1 100 0)).2 :=
    isAck_processMessage_iff.mpr ⟨by decide, by decide, by decide +kernel⟩
  have hack' : IsAck 100 (dhcpProcessMessageHashmap hashmap (requestFrom 1 100 0)).2 :=
    isAck_processMessage_iff.mpr ⟨by decide, by decide, by decide +kernel⟩
  have hsorted : (run ++ [discoverFrom 1 5]).Pairwise (fun c d => c.curTime ≤ d.curTime) := by
    decide
  have hfits : ∀ c ∈ run ++ [discoverFrom 1 5],
      c.curTime.toNat + config.leaseTime.toNat < 2 ^ 32 := by decide
  have hkeeps : ∀ c ∈ [requestFrom 2 101 1], c.mac = (requestFrom 1 100 0).mac →
      c.msgType ≠ dhcpDecline := by decide
  have hmac : (discoverFrom 1 5).mac = (requestFrom 1 100 0).mac := by decide
  have hbefore : (discoverFrom 1 5).curTime.toNat <
      (requestFrom 1 100 0).curTime.toNat + config.leaseTime.toNat := by decide
  have htype : (discoverFrom 1 5).msgType = dhcpDiscover := by decide
  exact ⟨by decide,
    (harray [] [requestFrom 2 101 1] (requestFrom 1 100 0) (discoverFrom 1 5) 100 hsorted
      hfits hack hkeeps hbefore).1 hmac htype,
    (hhashmap [] [requestFrom 2 101 1] (requestFrom 1 100 0) (discoverFrom 1 5) 100 hsorted
      hfits hack' hkeeps hbefore).1 hmac htype⟩

/-! ## Availability -/

namespace LeasePool

variable {q q₀ q' : LeasePool} {batch : ℕ∞} {t poolStart poolEnd : UInt32}
  {config : DhcpConfig} {a : Arrival} {mac : Mac} {max : ℕ}

/-- The leases that have not run out. -/
def live (q : LeasePool) (t : UInt32) : Finset Lease :=
  q.table.leases.filter fun l => t < l.expireTime

/-- The table is within its capacity, and addresses and cursor within the pool. -/
structure Bounded (poolStart poolEnd : UInt32) (max : ℕ) (q : LeasePool) : Prop where
  max_eq : q.max = max
  card_le : q.table.leases.card ≤ max
  ips : ∀ l ∈ q.table.leases, InPool poolStart poolEnd l.ipAddress
  cursor : InPool poolStart poolEnd q.nextIp

/-- An empty table is within any bounds. -/
theorem bounded_empty (hle : poolStart ≤ poolEnd) (max : ℕ) :
    Bounded poolStart poolEnd max ⟨LeaseTable.empty, max, poolStart⟩ where
  max_eq := rfl
  card_le := Nat.zero_le _
  ips l hl := absurd hl (Finset.notMem_empty l)
  cursor := ⟨UInt32.le_refl _, hle⟩

theorem Bounded.purge (h : q.Bounded poolStart poolEnd max) (hpurge : Purges batch t q q₀) :
    q₀.Bounded poolStart poolEnd max where
  max_eq := hpurge.max_eq.trans h.max_eq
  card_le := (Finset.card_le_card hpurge.subset).trans h.card_le
  ips l hl := h.ips l (hpurge.subset hl)
  cursor := by
    rw [hpurge.nextIp_eq]
    exact h.cursor

theorem Bounded.find (h : q.Bounded poolStart poolEnd max) (hle : poolStart ≤ poolEnd)
    (mac : Mac) :
    (q.find poolStart poolEnd mac).1.Bounded poolStart poolEnd max := by
  unfold LeasePool.find
  cases q.table.lookup mac with
  | some l => exact h
  | none =>
      by_cases hfull : q.Full
      · simp only [hfull, if_true]
        exact h
      · simp only [hfull, if_false]
        exact ⟨h.max_eq, h.card_le, h.ips, (cursorLoop_inPool hle _ _ h.cursor).1⟩

theorem Bounded.alloc (h : q.Bounded poolStart poolEnd max) {ip : UInt32}
    (hip : InPool poolStart poolEnd ip) (mac : Mac) (expireTime : UInt32) :
    (q.alloc ip mac expireTime).1.Bounded poolStart poolEnd max := by
  unfold LeasePool.alloc
  by_cases hgrants : q.Grants ip mac
  · rw [if_pos hgrants]
    refine ⟨h.max_eq, ?_, fun l hl => ?_, h.cursor⟩
    · obtain ⟨l, hl, hmac, hlip⟩ | ⟨hfresh, hroom⟩ := hgrants
      · exact (LeaseTable.card_put_of_mem hl hmac hlip).trans_le h.card_le
      · rw [← h.max_eq]
        exact (LeaseTable.card_put_of_fresh hfresh).trans_le (not_le.mp hroom)
    · obtain rfl | ⟨hl, -⟩ := LeaseTable.mem_put.mp hl
      · exact hip
      · exact h.ips l hl
  · rw [if_neg hgrants]
    exact h

/-- **One message keeps the bounds.** -/
theorem Bounded.step (h : q.Bounded config.poolStart config.poolEnd max)
    (hstep : LeaseStep config batch q a q') (hle : config.poolStart ≤ config.poolEnd) :
    q'.Bounded config.poolStart config.poolEnd max := by
  cases hstep with
  | discover htype hpurge => exact (h.purge hpurge).find hle a.mac
  | request htype hpool hpurge => exact (h.purge hpurge).alloc hpool a.mac _
  | decline htype =>
      have hsub : (q.decline a.mac).table.leases ⊆ q.table.leases := Finset.filter_subset _ _
      exact ⟨h.max_eq, (Finset.card_le_card hsub).trans h.card_le,
        fun l hl => h.ips l (hsub hl), h.cursor⟩
  | idle => exact h

/-- The addresses taken, as numbers. -/
def taken (q : LeasePool) : Finset ℕ := q.table.leases.image fun l => l.ipAddress.toNat

theorem mem_taken {ip : UInt32} : ip.toNat ∈ q.taken ↔ q.table.Holds ip := by
  unfold taken
  rw [Finset.mem_image]
  exact exists_congr fun l => and_congr_right fun _ => UInt32.toNat_inj

theorem card_taken (q : LeasePool) : q.taken.card = q.table.leases.card := by
  refine Finset.card_image_of_injOn fun l hl l' hl' hip => ?_
  exact q.table.ip_inj l hl l' hl' (UInt32.toNat_inj.mp hip)

theorem Bounded.taken_subset (h : q.Bounded poolStart poolEnd max) :
    q.taken ⊆ Finset.Icc poolStart.toNat poolEnd.toNat := by
  intro n hn
  obtain ⟨l, hl, rfl⟩ := Finset.mem_image.mp hn
  exact Finset.mem_Icc.mpr ⟨UInt32.le_iff_toNat_le.mp (h.ips l hl).1,
    UInt32.le_iff_toNat_le.mp (h.ips l hl).2⟩

theorem card_addresses (hle : poolStart ≤ poolEnd) :
    (Finset.Icc poolStart.toNat poolEnd.toNat).card =
      poolEnd.toNat - poolStart.toNat + 1 := by
  have hle := UInt32.le_iff_toNat_le.mp hle
  rw [Nat.card_Icc]
  omega

/-- There are at most as many leases as addresses. -/
theorem Bounded.card_le_size (h : q.Bounded poolStart poolEnd max)
    (hle : poolStart ≤ poolEnd) :
    q.table.leases.card ≤ poolEnd.toNat - poolStart.toNat + 1 := by
  rw [← card_taken, ← card_addresses hle]
  exact Finset.card_le_card h.taken_subset

/-- As many leases as the pool has addresses take them all, and only then is none
left. -/
theorem Bounded.exists_free_iff (h : q.Bounded poolStart poolEnd max)
    (hle : poolStart ≤ poolEnd) :
    (∃ ip, InPool poolStart poolEnd ip ∧ decide (q.table.Holds ip) = false) ↔
      q.table.leases.card < poolEnd.toNat - poolStart.toNat + 1 := by
  rw [← card_taken, ← card_addresses hle]
  constructor
  · rintro ⟨ip, hip, hfree⟩
    refine Finset.card_lt_card ((Finset.ssubset_iff_of_subset h.taken_subset).mpr
      ⟨ip.toNat, ?_, fun hin => of_decide_eq_false hfree (mem_taken.mp hin)⟩)
    exact Finset.mem_Icc.mpr ⟨UInt32.le_iff_toNat_le.mp hip.1, UInt32.le_iff_toNat_le.mp hip.2⟩
  · intro hlt
    obtain ⟨n, hn, hfree⟩ := Finset.exists_mem_notMem_of_card_lt_card hlt
    obtain ⟨hlo, hhi⟩ := Finset.mem_Icc.mp hn
    have hnat : (UInt32.ofNat n).toNat = n :=
      UInt32.toNat_ofNat_of_lt' (lt_of_le_of_lt hhi poolEnd.toNat_lt)
    refine ⟨UInt32.ofNat n, ⟨?_, ?_⟩, decide_eq_false fun hheld => hfree ?_⟩
    · rw [UInt32.le_iff_toNat_le, hnat]
      exact hlo
    · rw [UInt32.le_iff_toNat_le, hnat]
      exact hhi
    · rw [← hnat]
      exact mem_taken.mpr hheld

/-- A search succeeds for a known client, and otherwise when there is both room in
the table and an address left. -/
theorem Bounded.find_ne_zero_iff (h : q.Bounded poolStart poolEnd max)
    (hpos : 0 < poolStart) (hle : poolStart ≤ poolEnd) :
    (q.find poolStart poolEnd mac).2 ≠ 0 ↔
      (∃ l ∈ q.table.leases, l.macAddress = mac) ∨
        ¬ q.Full ∧ q.table.leases.card < poolEnd.toNat - poolStart.toNat + 1 := by
  unfold LeasePool.find
  cases hlookup : q.table.lookup mac with
  | some l =>
      obtain ⟨hl, hmac⟩ := LeaseTable.lookup_eq_some_iff.mp hlookup
      exact iff_of_true ((h.ips l hl).ne_zero hpos) (Or.inl ⟨l, hl, hmac⟩)
  | none =>
      have hunknown : ¬ ∃ l ∈ q.table.leases, l.macAddress = mac := by
        rintro ⟨l, hl, hmac⟩
        exact LeaseTable.lookup_eq_none_iff.mp hlookup l hl hmac
      rw [or_iff_right hunknown, ← h.exists_free_iff hle]
      by_cases hfull : q.Full
      · simp [hfull]
      · simp only [hfull, if_false, not_false_eq_true, true_and]
        exact searchPool_ne_zero_iff hpos hle h.cursor

/-- **When a DISCOVER is answered.**  With fewer live leases than slots, a client
gets an address when the table is full (and is then cleaned up), when it is known,
or when fewer leases are stored than there are addresses. -/
theorem Bounded.offer_iff (h : q.Bounded poolStart poolEnd max) (hpos : 0 < poolStart)
    (hle : poolStart ≤ poolEnd) (hpurge : Purges batch t q q₀)
    (hlive : (q.live t).card < max) :
    (q₀.find poolStart poolEnd mac).2 ≠ 0 ↔
      q.Full ∨ (∃ l ∈ q.table.leases, l.macAddress = mac) ∨
        q.table.leases.card < poolEnd.toNat - poolStart.toNat + 1 := by
  rw [(h.purge hpurge).find_ne_zero_iff hpos hle]
  by_cases hfull : q.Full
  · -- some lease has expired, so the clean-up makes room
    have hexpired : (q.expired t).Nonempty := by
      by_contra hnone
      have hall : q.live t = q.table.leases := by
        refine Finset.filter_true_of_mem fun l hl => UInt32.not_le.mp fun hexp => hnone ?_
        exact ⟨l, Finset.mem_filter.mpr ⟨hl, hexp⟩⟩
      rw [hall, ← h.max_eq] at hlive
      exact absurd hfull (not_le.mpr hlive)
    have hfewer := hpurge.progress hfull hexpired
    refine iff_of_true (Or.inr ⟨?_, ?_⟩) (Or.inl hfull)
    · unfold LeasePool.Full
      rw [hpurge.max_eq, h.max_eq]
      exact not_le.mpr (hfewer.trans_le h.card_le)
    · exact hfewer.trans_le (h.card_le_size hle)
  · have hroom : ¬ q₀.Full := by
      unfold LeasePool.Full
      rw [hpurge.max_eq, hpurge.idle hfull]
      exact hfull
    rw [hpurge.idle hfull, and_iff_right hroom, or_iff_right hfull]

end LeasePool

section Availability

variable {P : Type} {ops : LeaseOps P} {batch : ℕ∞} {Rep : P → LeasePool → Prop}

/-- The bounds hold in every state of a run. -/
theorem LeaseOps.Refines.bounded (href : ops.Refines batch Rep) (server : DhcpServer P)
    {max : ℕ} (hrep : Rep server.pool ⟨LeaseTable.empty, max, server.config.poolStart⟩)
    (hle : server.config.poolStart ≤ server.config.poolEnd) (run : List Arrival) :
    (exec (processMessage ops.calls) server run).config = server.config ∧
      ∃ q, Rep (exec (processMessage ops.calls) server run).pool q ∧
        q.Bounded server.config.poolStart server.config.poolEnd max := by
  refine exec_inv (fun s => s.config = server.config ∧ ∃ q, Rep s.pool q ∧
      q.Bounded server.config.poolStart server.config.poolEnd max) (fun _ => True) ?_ run server
    ⟨rfl, _, hrep, LeasePool.bounded_empty hle max⟩ fun _ _ => trivial
  rintro s a ⟨hconfig, q, hq, hb⟩ -
  obtain ⟨hsame, q', hstep, hq'⟩ := href.step (a := a) hq
  rw [hconfig] at hstep
  exact ⟨hsame.trans hconfig, q', hq', hb.step hstep hle⟩

/-- When a DISCOVER is answered, for every implementation of the abstract pool. -/
theorem LeaseOps.Refines.exists_offer_iff (href : ops.Refines batch Rep)
    {server : DhcpServer P} {q : LeasePool} (hrep : Rep server.pool q)
    (hpos : 0 < server.config.poolStart)
    (hle : server.config.poolStart ≤ server.config.poolEnd) {max : ℕ}
    (hbounded : q.Bounded server.config.poolStart server.config.poolEnd max) {a : Arrival}
    (hd : a.msgType = dhcpDiscover) (hlive : (q.live a.curTime).card < max) :
    (∃ x, IsOffer x (processMessage ops.calls server a).2) ↔
      q.table.leases.card = max ∨ (q.table.lookup a.mac).isSome ∨
        q.table.leases.card < server.config.poolEnd.toNat - server.config.poolStart.toNat + 1 := by
  obtain ⟨q₀, hpurge, hiff⟩ := href.isOffer_iff hrep hd
  have hfull : q.table.leases.card = max ↔ q.Full := by
    unfold LeasePool.Full
    rw [hbounded.max_eq]
    exact ⟨fun h => h.ge, fun h => le_antisymm hbounded.card_le h⟩
  have hknown : (q.table.lookup a.mac).isSome = true ↔
      ∃ l ∈ q.table.leases, l.macAddress = a.mac := by
    rw [Option.isSome_iff_exists]
    exact exists_congr fun l => LeaseTable.lookup_eq_some_iff
  rw [hfull, hknown, ← hbounded.offer_iff hpos hle hpurge hlive]
  simp only [hiff]
  exact ⟨fun ⟨x, hx, hne⟩ => hx ▸ hne, fun hne => ⟨_, rfl, hne⟩⟩

end Availability

/-- **When a new client is starved**, for both client-tracking backends.  In every
reachable state with fewer live leases than slots and than addresses, a DISCOVER
is answered with an OFFER exactly when the table is full, the client has a stored
lease, or fewer leases are stored than there are addresses. -/
theorem offer_iff_not_starved (config : DhcpConfig) (hpos : 0 < config.poolStart)
    (hle : config.poolStart ≤ config.poolEnd) (maxLeases : UInt16)
    (leases : Fin maxLeases.toNat → DhcpLease) (prior : HashPool) (run : List Arrival)
    (a : Arrival) (hd : a.msgType = dhcpDiscover) :
    let size := config.poolEnd.toNat - config.poolStart.toNat + 1
    let array := exec dhcpProcessMessageArray (dhcpInitServerArray config leases) run
    let hashmap := exec dhcpProcessMessageHashmap
      (dhcpInitServerHashmap config prior maxLeases) run
    (array.pool.liveCount a.curTime < maxLeases.toNat → array.pool.liveCount a.curTime < size →
      ((∃ x, IsOffer x (dhcpProcessMessageArray array a).2) ↔
        array.pool.leaseCount = maxLeases ∨
          (dhcpArraypoolFindLease array.pool a.mac).isSome ∨
          array.pool.leaseCount.toNat < size)) ∧
      (maxLeases.toNat ≤ hashN →
        hashmap.pool.liveCount a.curTime < maxLeases.toNat →
        hashmap.pool.liveCount a.curTime < size →
        ((∃ x, IsOffer x (dhcpProcessMessageHashmap hashmap a).2) ↔
          hashSize hashmap.pool.leases = maxLeases.toNat ∨
            (dhcpHashpoolFindLease hashmap.pool a.mac).isSome ∨
            hashSize hashmap.pool.leases < size)) := by
  intro size array hashmap
  constructor
  · intro hlive _
    obtain ⟨hconfig, q, hq, hb⟩ := (arrayOps_refines maxLeases).bounded
      (dhcpInitServerArray config leases) (dhcpArraypoolInit_represents _ _) hle run
    have hcount : (q.live a.curTime).card = array.pool.liveCount a.curTime :=
      hq.slots.card_filter fun l => a.curTime < l.expireTime
    have hiff := (arrayOps_refines maxLeases).exists_offer_iff hq (by rw [hconfig]; exact hpos)
      (by rw [hconfig]; exact hle) (by rw [hconfig]; exact hb) hd (hcount ▸ hlive)
    rw [hconfig, ← hq.lookup, Option.isSome_map, hq.card_eq, UInt16.toNat_inj] at hiff
    exact hiff
  · intro hmax hlive _
    obtain ⟨hconfig, q, hq, hb⟩ := hashOps_refines.bounded
      (dhcpInitServerHashmap config prior maxLeases) (dhcpHashpoolInit_represents _ _ _) hle
      run
    rw [min_eq_right hmax] at hb
    have hcount : (q.live a.curTime).card = hashmap.pool.liveCount a.curTime :=
      hq.wf.card_filter macKeys_lawful hq.mem_iff fun l => a.curTime < l.expireTime
    have hiff := hashOps_refines.exists_offer_iff hq (by rw [hconfig]; exact hpos)
      (by rw [hconfig]; exact hle) (by rw [hconfig]; exact hb) hd (hcount ▸ hlive)
    rw [hconfig, ← hq.lookup, Option.isSome_map, ← hq.card_eq] at hiff
    exact hiff

/-- On a pool of two addresses with one of them leased, a second client gets an
OFFER from either backend. -/
theorem offer_iff_not_starved_second_client :
    let config := poolConfig 100 101 10
    let run := [requestFrom 1 100 0]
    let array := exec dhcpProcessMessageArray
      (dhcpInitServerArray config fun _ : Fin (2 : UInt16).toNat => ⟨⟨fun _ => 0, 0, 0⟩, false⟩) run
    let hashmap := exec dhcpProcessMessageHashmap
      (dhcpInitServerHashmap config HashPool.zeroed 2) run
    (0 < config.poolStart ∧ config.poolStart ≤ config.poolEnd) ∧
      (∃ x, IsOffer x (dhcpProcessMessageArray array (discoverFrom 2 5)).2) ∧
      ∃ x, IsOffer x (dhcpProcessMessageHashmap hashmap (discoverFrom 2 5)).2 := by
  intro config run array hashmap
  have hd : (discoverFrom 2 5).msgType = dhcpDiscover := by decide
  obtain ⟨harray, hhashmap⟩ := offer_iff_not_starved config (by decide) (by decide) 2
    (fun _ => ⟨⟨fun _ => 0, 0, 0⟩, false⟩) HashPool.zeroed run (discoverFrom 2 5) hd
  refine ⟨by decide, ?_, ?_⟩
  · exact (harray (by decide +kernel) (by decide +kernel)).mpr (Or.inr (Or.inr (by decide +kernel)))
  · exact (hhashmap (by decide) (by decide +kernel) (by decide +kernel)).mpr
      (Or.inr (Or.inr (by decide +kernel)))

/-- One address, room for two leases: the only lease has run out at time 10, yet a
new client gets no OFFER, since the half-empty table is not cleaned up. -/
theorem expired_lease_starves_client :
    let config := poolConfig 100 100 10
    let server := exec dhcpProcessMessageArray
      (dhcpInitServerArray config fun _ : Fin (2 : UInt16).toNat => ⟨⟨fun _ => 0, 0, 0⟩, false⟩)
      [requestFrom 1 100 0]
    ¬ (server.pool.liveCount 10 < 2 →
      server.pool.liveCount 10 < config.poolEnd.toNat - config.poolStart.toNat + 1 →
      ∃ x, IsOffer x (dhcpProcessMessageArray server (discoverFrom 2 10)).2) := by
  intro config server hclaim
  obtain ⟨x, hx⟩ := hclaim (by decide +kernel) (by decide +kernel)
  obtain ⟨-, hfound, hne⟩ := isOffer_processMessage_iff.mp hx
  have hnone : ((arrayOps 2).calls.discover server (discoverFrom 2 10)).2 = 0 := by
    decide +kernel
  exact hne (hfound.symm.trans hnone)

end BaremetalDhcp
