import Mathlib.Data.List.Iterate
import BaremetalDhcp.LeaseOwnership

/-!
# Round-robin offers

An OFFER of ARRAY or HASHMAP reserves nothing.  What keeps two clients that are
both between DISCOVER and REQUEST from being offered one address is the cursor
`next_ip`: it moves by one for every address the search looks at, found free or
not, and it never moves back.

* `cursorPasses` — the addresses one search looks at, and `RoundRobin.visits` —
  those of a whole run.  Both are iterates of `advance`, which walks the pool in a
  circle; `visits_eq_iterate` is the invariant that carries the result.
* `RoundRobin` — what the argument uses of a backend, with the laws it needs.
  `arrayRoundRobin` and `hashRoundRobin` are the two backends of the source.
* `LapsFully` — two offers of one address are a full lap apart.

A pass over an address ends in its offer or finds it leased, so in a full lap
every other address was offered or was held when the cursor came by.
-/

namespace BaremetalDhcp

open Machine

/-! ## The cursor walks in a circle -/

/-- The address after `ip`, going round the pool. -/
def advance (poolStart poolEnd ip : UInt32) : UInt32 :=
  poolStart + (ip - poolStart + 1) % (poolEnd - poolStart + 1)

section Circle

variable {leased : UInt32 → Bool} {poolStart poolEnd : UInt32}

theorem inPool_iterate_advance (hle : poolStart ≤ poolEnd) {ip : UInt32}
    (hip : InPool poolStart poolEnd ip) (k : ℕ) :
    InPool poolStart poolEnd ((advance poolStart poolEnd)^[k] ip) := by
  induction k with
  | zero => exact hip
  | succ k ih =>
      rw [Function.iterate_succ_apply']
      exact inPool_advance hle ih

/-- After `k` steps the offset has grown by `k`, modulo the size of the pool. -/
theorem toNat_iterate_advance (hpos : 0 < poolStart) (hle : poolStart ≤ poolEnd) {ip : UInt32}
    (hip : InPool poolStart poolEnd ip) (k : ℕ) :
    ((advance poolStart poolEnd)^[k] ip).toNat = poolStart.toNat +
      (ip.toNat - poolStart.toNat + k) % (poolEnd.toNat - poolStart.toNat + 1) := by
  induction k with
  | zero =>
      have hlo := UInt32.le_iff_toNat_le.mp hip.1
      have hhi := UInt32.le_iff_toNat_le.mp hip.2
      rw [Function.iterate_zero_apply, Nat.add_zero, Nat.mod_eq_of_lt (by omega)]
      omega
  | succ k ih =>
      rw [Function.iterate_succ_apply', advance,
        toNat_advance (rangeFits_of_pos hpos) hle (inPool_iterate_advance hle hip k), ih,
        Nat.add_sub_cancel_left, Nat.mod_add_mod, Nat.add_assoc]

/-- **A closed walk of the cursor visits the whole pool.** -/
theorem exists_iterate_advance (hpos : 0 < poolStart) (hle : poolStart ≤ poolEnd) {ip : UInt32}
    (hip : InPool poolStart poolEnd ip) {k : ℕ} (hk : 0 < k)
    (hclosed : (advance poolStart poolEnd)^[k] ip = ip) {x : UInt32}
    (hx : InPool poolStart poolEnd x) : ∃ j < k, (advance poolStart poolEnd)^[j] ip = x := by
  have hsteps := fun j => toNat_iterate_advance hpos hle hip j
  generalize hsize : poolEnd.toNat - poolStart.toNat + 1 = size at hsteps
  have hiplo := UInt32.le_iff_toNat_le.mp hip.1
  have hiphi := UInt32.le_iff_toNat_le.mp hip.2
  have hxlo := UInt32.le_iff_toNat_le.mp hx.1
  have hxhi := UInt32.le_iff_toNat_le.mp hx.2
  -- the walk comes back to where it was, so its length is a multiple of the size
  have hround : (ip.toNat - poolStart.toNat + k) % size = ip.toNat - poolStart.toNat := by
    have hback := hsteps k
    rw [hclosed] at hback
    omega
  have hlap : size ≤ k := by
    by_contra hlt
    rcases Nat.lt_or_ge (ip.toNat - poolStart.toNat + k) size with hin | hout
    · rw [Nat.mod_eq_of_lt hin] at hround
      omega
    · rw [Nat.mod_eq_sub_mod hout, Nat.mod_eq_of_lt (by omega)] at hround
      omega
  have hpositive : 0 < size := by omega
  let j := (x.toNat - poolStart.toNat + (size - (ip.toNat - poolStart.toNat))) % size
  refine ⟨j, lt_of_lt_of_le (Nat.mod_lt _ hpositive) hlap, UInt32.toNat_inj.mp ?_⟩
  have hsum : ip.toNat - poolStart.toNat +
      (x.toNat - poolStart.toNat + (size - (ip.toNat - poolStart.toNat))) =
        x.toNat - poolStart.toNat + size := by omega
  rw [hsteps j, Nat.add_mod_mod, hsum, Nat.add_mod_right, Nat.mod_eq_of_lt (by omega)]
  omega

/-! ## What one search looks at -/

/-- The addresses that the search loop looks at, in order. -/
def cursorPasses (leased : UInt32 → Bool) (poolStart poolEnd : UInt32) :
    ℕ → UInt32 → List UInt32
  | 0, _ => []
  | fuel + 1, nextIp =>
      if leased nextIp then
        nextIp :: cursorPasses leased poolStart poolEnd fuel (advance poolStart poolEnd nextIp)
      else [nextIp]

/-- The search over the whole pool. -/
def searchPasses (leased : UInt32 → Bool) (poolStart poolEnd nextIp : UInt32) : List UInt32 :=
  cursorPasses leased poolStart poolEnd (poolEnd - poolStart + 1).toNat nextIp

/-- A search looks at consecutive addresses from the cursor on, and leaves the cursor behind
the last of them. -/
theorem cursorPasses_eq_iterate (leased : UInt32 → Bool) (poolStart poolEnd : UInt32) :
    ∀ (fuel : ℕ) (nextIp : UInt32), ∃ k,
      cursorPasses leased poolStart poolEnd fuel nextIp =
          List.iterate (advance poolStart poolEnd) nextIp k ∧
        (cursorLoop leased poolStart (poolEnd - poolStart + 1) fuel nextIp).2 =
          (advance poolStart poolEnd)^[k] nextIp := by
  intro fuel
  induction fuel with
  | zero => intro nextIp; exact ⟨0, rfl, rfl⟩
  | succ fuel ih =>
      intro nextIp
      obtain ⟨k, hpasses, hcursor⟩ := ih (advance poolStart poolEnd nextIp)
      unfold cursorPasses cursorLoop
      cases hleased : leased nextIp with
      | true => exact ⟨k + 1, by rw [if_pos rfl, hpasses]; rfl, hcursor⟩
      | false => exact ⟨1, rfl, rfl⟩

/-- Every address looked at is leased or is the one found. -/
theorem mem_cursorPasses (leased : UInt32 → Bool) (poolStart poolEnd : UInt32) {x : UInt32} :
    ∀ (fuel : ℕ) (nextIp : UInt32), x ∈ cursorPasses leased poolStart poolEnd fuel nextIp →
      leased x = true ∨
        (cursorLoop leased poolStart (poolEnd - poolStart + 1) fuel nextIp).1 = x := by
  intro fuel
  induction fuel with
  | zero => intro nextIp hx; simp [cursorPasses] at hx
  | succ fuel ih =>
      intro nextIp hx
      unfold cursorPasses at hx
      unfold cursorLoop
      cases hleased : leased nextIp with
      | true =>
          rw [hleased, if_pos rfl, List.mem_cons] at hx
          rcases hx with rfl | hx
          · exact Or.inl hleased
          · exact ih _ hx
      | false =>
          rw [hleased] at hx
          obtain rfl : x = nextIp := by simpa using hx
          exact Or.inr rfl

/-- The address found is the last one looked at. -/
theorem getLast?_cursorPasses (leased : UInt32 → Bool) (poolStart poolEnd : UInt32) :
    ∀ (fuel : ℕ) (nextIp : UInt32),
      (cursorLoop leased poolStart (poolEnd - poolStart + 1) fuel nextIp).1 ≠ 0 →
      (cursorPasses leased poolStart poolEnd fuel nextIp).getLast? =
        some (cursorLoop leased poolStart (poolEnd - poolStart + 1) fuel nextIp).1 := by
  intro fuel
  induction fuel with
  | zero => intro nextIp hne; exact absurd rfl hne
  | succ fuel ih =>
      intro nextIp hne
      unfold cursorLoop at hne ⊢
      unfold cursorPasses
      cases hleased : leased nextIp with
      | true =>
          rw [hleased] at hne
          have hrest := ih _ hne
          rw [if_pos rfl, if_pos rfl, List.getLast?_cons]
          change (cursorPasses leased poolStart poolEnd fuel
            (advance poolStart poolEnd nextIp)).getLast? = _ at hrest
          rw [hrest]
          rfl
      | false => rfl

end Circle

/-! ## Backends with a cursor -/

/-- A client-tracking backend as the search sees it: the functions its
`find_available_ip` is made of, the leases it stores, and how they fit together. -/
structure RoundRobin (P : Type) where
  ops : LeaseOps P
  /-- The clean-up at the head of `find_available_ip`. -/
  purge : P → UInt32 → P
  /-- `find_lease` returns a lease of the client. -/
  knows : P → Mac → Bool
  /-- The test for a full table. -/
  full : P → Bool
  /-- The test for a leased address in the search loop. -/
  leased : P → UInt32 → Bool
  nextIp : P → UInt32
  Stored : P → Lease → Prop
  batch : ℕ∞
  Rep : P → LeasePool → Prop
  refines : ops.Refines batch Rep
  rep_purge : ∀ {p q} (t : UInt32), Rep p q → ∃ q₀, Rep (purge p t) q₀
  nextIp_eq : ∀ {p q}, Rep p q → q.nextIp = nextIp p
  stored_iff : ∀ {p q}, Rep p q → ∀ l, Stored p l ↔ l ∈ q.table.leases
  knows_iff : ∀ {p q}, Rep p q → ∀ mac,
    knows p mac = true ↔ ∃ l ∈ q.table.leases, l.macAddress = mac
  leased_eq : ∀ {p q}, Rep p q → leased p = fun ip => decide (q.table.Holds ip)
  nextIp_purge : ∀ p t, nextIp (purge p t) = nextIp p
  find_known : ∀ p poolStart poolEnd mac t, knows (purge p t) mac = true →
    nextIp (ops.findAvailableIp p poolStart poolEnd mac t).1 = nextIp p
  find_full : ∀ p poolStart poolEnd mac t, knows (purge p t) mac = false →
    full (purge p t) = true →
      (ops.findAvailableIp p poolStart poolEnd mac t).2 = 0 ∧
        nextIp (ops.findAvailableIp p poolStart poolEnd mac t).1 = nextIp p
  find_search : ∀ p poolStart poolEnd mac t, knows (purge p t) mac = false →
    full (purge p t) = false →
      (ops.findAvailableIp p poolStart poolEnd mac t).2 =
          (searchPool (leased (purge p t)) poolStart poolEnd (nextIp p)).1 ∧
        nextIp (ops.findAvailableIp p poolStart poolEnd mac t).1 =
          (searchPool (leased (purge p t)) poolStart poolEnd (nextIp p)).2
  nextIp_alloc : ∀ p ip mac leaseTime t, nextIp (ops.allocLease p ip mac leaseTime t).1 = nextIp p
  nextIp_decline : ∀ p mac, nextIp (ops.declineLease p mac) = nextIp p

namespace RoundRobin

variable {P : Type} (rr : RoundRobin P)

/-- One message. -/
def step (server : DhcpServer P) (a : Arrival) : DhcpServer P × Option DhcpMessage :=
  processMessage rr.ops.calls server a

/-- Some lease of the pool is for the address. -/
def Holds (pool : P) (ip : UInt32) : Prop := ∃ l, rr.Stored pool l ∧ l.ipAddress = ip

/-- The client has no lease when its DISCOVER is searched for. -/
def Unknown (server : DhcpServer P) (a : Arrival) : Prop :=
  ∀ l, rr.Stored (rr.purge server.pool a.curTime) l → l.macAddress ≠ a.mac

/-- The message is answered with an OFFER of the address that the cursor chose. -/
def Chooses (server : DhcpServer P) (a : Arrival) (ip : UInt32) : Prop :=
  IsOffer ip (rr.step server a).2 ∧ rr.Unknown server a

/-- The search loop is run for the message. -/
def Searches (server : DhcpServer P) (a : Arrival) : Prop :=
  a.msgType = dhcpDiscover ∧ rr.Unknown server a ∧
    rr.full (rr.purge server.pool a.curTime) = false

/-- The addresses that the cursor passes while the message is processed. -/
def passes (server : DhcpServer P) (a : Arrival) : List UInt32 :=
  let pool := rr.purge server.pool a.curTime
  if a.msgType = dhcpDiscover ∧ rr.knows pool a.mac = false ∧ rr.full pool = false then
    searchPasses (rr.leased pool) server.config.poolStart server.config.poolEnd (rr.nextIp pool)
  else []

/-- The addresses that the cursor passes in a run. -/
def visits : DhcpServer P → List Arrival → List UInt32
  | _, [] => []
  | server, a :: as => rr.passes server a ++ visits (rr.step server a).1 as

end RoundRobin

/-- **Offers of one address are a full lap apart**, in every run from the given server:

* between two offers of `ip` that the cursor chose, it passed every other address of the pool,
  and offered it there or found it leased;
* an address that the cursor chooses is not leased;
* a search ends without an offer only when every address of the pool is leased. -/
structure LapsFully {P : Type} (rr : RoundRobin P) (server : DhcpServer P) : Prop where
  lap : ∀ (before between : List Arrival) (a b : Arrival) (ip : UInt32),
    rr.Chooses (exec rr.step server before) a ip →
    rr.Chooses (exec rr.step server (before ++ a :: between)) b ip →
    ∀ x, InPool server.config.poolStart server.config.poolEnd x → x ≠ ip →
      ∃ earlier c later, between ++ [b] = earlier ++ c :: later ∧
        let now := exec rr.step server (before ++ a :: earlier)
        x ∈ rr.passes now c ∧
          (rr.Chooses now c x ∨ rr.Holds (rr.purge now.pool c.curTime) x)
  unleased : ∀ (before : List Arrival) (a : Arrival) (ip : UInt32),
    let now := exec rr.step server before
    rr.Chooses now a ip → ¬ rr.Holds (rr.purge now.pool a.curTime) ip
  exhausted : ∀ (before : List Arrival) (a : Arrival),
    let now := exec rr.step server before
    rr.Searches now a → (∀ ip, ¬ IsOffer ip (rr.step now a).2) →
    ∀ x, InPool server.config.poolStart server.config.poolEnd x →
      rr.Holds (rr.purge now.pool a.curTime) x

namespace RoundRobin

variable {P : Type} (rr : RoundRobin P) {server : DhcpServer P} {a : Arrival}

/-! ### One message -/

theorem passes_of_not_discover (h : a.msgType ≠ dhcpDiscover) : rr.passes server a = [] :=
  if_neg fun hsearch => h hsearch.1

/-- The search of a DISCOVER, when it comes to it. -/
theorem passes_of_search (hd : a.msgType = dhcpDiscover)
    (hknows : rr.knows (rr.purge server.pool a.curTime) a.mac = false)
    (hfull : rr.full (rr.purge server.pool a.curTime) = false) :
    rr.passes server a =
      searchPasses (rr.leased (rr.purge server.pool a.curTime)) server.config.poolStart
        server.config.poolEnd (rr.nextIp server.pool) := by
  rw [passes, if_pos ⟨hd, hknows, hfull⟩, rr.nextIp_purge]

/-- **One message** moves the cursor over the addresses it passes, one by one. -/
theorem passes_eq_iterate (server : DhcpServer P) (a : Arrival) : ∃ k,
    rr.passes server a = List.iterate
        (advance server.config.poolStart server.config.poolEnd) (rr.nextIp server.pool) k ∧
      rr.nextIp (rr.step server a).1.pool =
        (advance server.config.poolStart server.config.poolEnd)^[k] (rr.nextIp server.pool) := by
  have hidle : a.msgType ≠ dhcpDiscover →
      rr.nextIp (rr.step server a).1.pool = rr.nextIp server.pool → ∃ k,
        rr.passes server a = List.iterate
            (advance server.config.poolStart server.config.poolEnd) (rr.nextIp server.pool) k ∧
          rr.nextIp (rr.step server a).1.pool = (advance server.config.poolStart
            server.config.poolEnd)^[k] (rr.nextIp server.pool) := by
    intro hne hsame
    exact ⟨0, rr.passes_of_not_discover hne, hsame⟩
  rcases a.cases with hd | ⟨hr, ip, hip⟩ | hc | hi
  · have hstep : (rr.step server a).1.pool = (rr.ops.findAvailableIp server.pool
        server.config.poolStart server.config.poolEnd a.mac a.curTime).1 := by
      rw [step, processMessage_discover hd]
      rfl
    rw [hstep]
    cases hknows : rr.knows (rr.purge server.pool a.curTime) a.mac with
    | true =>
        refine ⟨0, if_neg fun hsearch => ?_, rr.find_known _ _ _ _ _ hknows⟩
        exact Bool.false_ne_true (hsearch.2.1.symm.trans hknows)
    | false =>
        cases hfull : rr.full (rr.purge server.pool a.curTime) with
        | true =>
            refine ⟨0, if_neg fun hsearch => ?_, (rr.find_full _ _ _ _ _ hknows hfull).2⟩
            exact Bool.false_ne_true (hsearch.2.2.symm.trans hfull)
        | false =>
            obtain ⟨k, hpasses, hcursor⟩ := cursorPasses_eq_iterate
              (rr.leased (rr.purge server.pool a.curTime)) server.config.poolStart
              server.config.poolEnd
              (server.config.poolEnd - server.config.poolStart + 1).toNat (rr.nextIp server.pool)
            refine ⟨k, ?_, ?_⟩
            · rw [rr.passes_of_search hd hknows hfull]
              exact hpasses
            · rw [(rr.find_search _ _ _ _ _ hknows hfull).2]
              exact hcursor
  · refine hidle (by rw [hr]; decide) ?_
    rw [step, processMessage_request hr hip]
    by_cases hpool : InPool server.config.poolStart server.config.poolEnd ip
    · rw [rr.ops.calls_request_of_inPool hpool]
      exact rr.nextIp_alloc _ _ _ _ _
    · rw [rr.ops.calls_request_of_not_inPool hpool]
  · refine hidle (by rw [hc]; decide) ?_
    rw [step, processMessage_decline hc]
    exact rr.nextIp_decline _ _
  · refine hidle hi.1 ?_
    rw [step, processMessage_ignored hi]

section Answers

variable {q : LeasePool} (hrep : rr.Rep server.pool q)
include hrep

theorem knows_eq_false_iff :
    rr.knows (rr.purge server.pool a.curTime) a.mac = false ↔ rr.Unknown server a := by
  obtain ⟨q₀, h₀⟩ := rr.rep_purge a.curTime hrep
  rw [← Bool.not_eq_true, rr.knows_iff h₀, Unknown]
  constructor
  · intro hnone l hl hmac
    exact hnone ⟨l, (rr.stored_iff h₀ l).mp hl, hmac⟩
  · rintro hunknown ⟨l, hl, hmac⟩
    exact hunknown l ((rr.stored_iff h₀ l).mpr hl) hmac

theorem leased_eq_true_iff {ip : UInt32} :
    rr.leased (rr.purge server.pool a.curTime) ip = true ↔
      rr.Holds (rr.purge server.pool a.curTime) ip := by
  obtain ⟨q₀, h₀⟩ := rr.rep_purge a.curTime hrep
  rw [rr.leased_eq h₀, decide_eq_true_iff]
  constructor
  · rintro ⟨l, hl, hip⟩
    exact ⟨l, (rr.stored_iff h₀ l).mpr hl, hip⟩
  · rintro ⟨l, hl, hip⟩
    exact ⟨l, (rr.stored_iff h₀ l).mp hl, hip⟩

/-- What the server answers when it searches. -/
theorem isOffer_of_searches (h : rr.Searches server a) (ip : UInt32) :
    IsOffer ip (rr.step server a).2 ↔
      (searchPool (rr.leased (rr.purge server.pool a.curTime)) server.config.poolStart
        server.config.poolEnd (rr.nextIp server.pool)).1 = ip ∧ ip ≠ 0 := by
  obtain ⟨hd, hunknown, hfull⟩ := h
  rw [step, isOffer_processMessage_iff, and_iff_right hd,
    ← (rr.find_search _ _ _ _ _ ((rr.knows_eq_false_iff hrep).mpr hunknown) hfull).1]
  rfl

/-- An address the cursor chose comes from a search. -/
theorem Chooses.searches {ip : UInt32} (h : rr.Chooses server a ip) : rr.Searches server a := by
  obtain ⟨hoffer, hunknown⟩ := h
  obtain ⟨hd, hfound, hne⟩ := isOffer_processMessage_iff.mp hoffer
  refine ⟨hd, hunknown, ?_⟩
  rw [← Bool.not_eq_true]
  intro hfull
  have hnone := (rr.find_full _ server.config.poolStart server.config.poolEnd _ _
    ((rr.knows_eq_false_iff hrep).mpr hunknown) hfull).1
  exact hne (hfound.symm.trans hnone)

/-- The address chosen is the last one passed, and the cursor stands behind it. -/
theorem Chooses.getLast?_passes {ip : UInt32} (h : rr.Chooses server a ip) :
    (rr.passes server a).getLast? = some ip := by
  have hsearch := Chooses.searches rr hrep h
  obtain ⟨hfound, hne⟩ := (rr.isOffer_of_searches hrep hsearch ip).mp h.1
  rw [rr.passes_of_search hsearch.1 ((rr.knows_eq_false_iff hrep).mpr hsearch.2.1) hsearch.2.2,
    ← hfound]
  refine getLast?_cursorPasses _ _ _ _ _ ?_
  change (searchPool _ _ _ _).1 ≠ 0
  rw [hfound]
  exact hne

theorem Chooses.inPool {ip : UInt32}
    (hle : server.config.poolStart ≤ server.config.poolEnd)
    (hcursor : InPool server.config.poolStart server.config.poolEnd (rr.nextIp server.pool))
    (h : rr.Chooses server a ip) : InPool server.config.poolStart server.config.poolEnd ip := by
  obtain ⟨hfound, hne⟩ :=
    (rr.isOffer_of_searches hrep (Chooses.searches rr hrep h) ip).mp h.1
  rw [← hfound]
  refine (cursorLoop_inPool hle _ _ hcursor).2.resolve_left ?_
  change (searchPool _ _ _ _).1 ≠ 0
  rw [hfound]
  exact hne

theorem Chooses.not_holds {ip : UInt32} (h : rr.Chooses server a ip) :
    ¬ rr.Holds (rr.purge server.pool a.curTime) ip := by
  obtain ⟨hfound, hne⟩ :=
    (rr.isOffer_of_searches hrep (Chooses.searches rr hrep h) ip).mp h.1
  rw [← rr.leased_eq_true_iff hrep, Bool.not_eq_true, ← hfound]
  refine (cursorLoop_not_leased _ _ _ _ _).resolve_left ?_
  change (searchPool _ _ _ _).1 ≠ 0
  rw [hfound]
  exact hne

/-- Every address passed is chosen or leased. -/
theorem mem_passes {x : UInt32} (hne : x ≠ 0) (hx : x ∈ rr.passes server a) :
    rr.Chooses server a x ∨ rr.Holds (rr.purge server.pool a.curTime) x := by
  by_cases hsearch : a.msgType = dhcpDiscover ∧
      rr.knows (rr.purge server.pool a.curTime) a.mac = false ∧
      rr.full (rr.purge server.pool a.curTime) = false
  · obtain ⟨hd, hknows, hfull⟩ := hsearch
    have hunknown := (rr.knows_eq_false_iff hrep).mp hknows
    rw [rr.passes_of_search hd hknows hfull] at hx
    rcases mem_cursorPasses _ _ _ _ _ hx with hleased | hfound
    · exact Or.inr ((rr.leased_eq_true_iff hrep).mp hleased)
    · refine Or.inl ⟨?_, hunknown⟩
      exact (rr.isOffer_of_searches hrep ⟨hd, hunknown, hfull⟩ x).mpr ⟨hfound, hne⟩
  · rw [passes, if_neg hsearch] at hx
    simp at hx

end Answers

/-! ### Every run -/

/-- The configuration never changes. -/
theorem step_config {q : LeasePool} (hrep : rr.Rep server.pool q) :
    (rr.step server a).1.config = server.config :=
  (rr.refines.step hrep).1

theorem exists_rep_step {q : LeasePool} (hrep : rr.Rep server.pool q) (a : Arrival) :
    ∃ q', rr.Rep (rr.step server a).1.pool q' := by
  obtain ⟨-, q', -, hq'⟩ := rr.refines.step (a := a) hrep
  exact ⟨q', hq'⟩

/-- **A run** moves the cursor over the addresses it visits, one by one. -/
theorem visits_eq_iterate : ∀ (as : List Arrival) {server : DhcpServer P} {q : LeasePool},
    rr.Rep server.pool q → ∃ k,
      rr.visits server as = List.iterate
          (advance server.config.poolStart server.config.poolEnd) (rr.nextIp server.pool) k ∧
        rr.nextIp (exec rr.step server as).pool =
          (advance server.config.poolStart server.config.poolEnd)^[k]
            (rr.nextIp server.pool) := by
  intro as
  induction as with
  | nil => intro server q _; exact ⟨0, rfl, rfl⟩
  | cons a as ih =>
      intro server q hrep
      obtain ⟨k, hpasses, hcursor⟩ := rr.passes_eq_iterate server a
      obtain ⟨q', hrep'⟩ := rr.exists_rep_step hrep a
      obtain ⟨m, hvisits, hend⟩ := ih hrep'
      rw [rr.step_config hrep] at hvisits hend
      refine ⟨k + m, ?_, ?_⟩
      · rw [visits, hpasses, hvisits, hcursor, List.iterate_add]
      · rw [exec_cons, hend, hcursor, ← Function.iterate_add_apply, Nat.add_comm]

/-- An address visited in a run is passed while one of its messages is processed. -/
theorem mem_visits {x : UInt32} : ∀ {as : List Arrival} {server : DhcpServer P},
    x ∈ rr.visits server as → ∃ earlier c later, as = earlier ++ c :: later ∧
      x ∈ rr.passes (exec rr.step server earlier) c := by
  intro as
  induction as with
  | nil => intro server hx; simp [visits] at hx
  | cons a as ih =>
      intro server hx
      rw [visits, List.mem_append] at hx
      rcases hx with hx | hx
      · exact ⟨[], a, as, rfl, hx⟩
      · obtain ⟨earlier, c, later, rfl, hpass⟩ := ih hx
        exact ⟨a :: earlier, c, later, rfl, hpass⟩

theorem visits_append (as : List Arrival) (b : Arrival) : ∀ server : DhcpServer P,
    rr.visits server (as ++ [b]) =
      rr.visits server as ++ rr.passes (exec rr.step server as) b := by
  induction as with
  | nil => intro server; simp [visits]
  | cons a as ih =>
      intro server
      rw [List.cons_append, visits, visits, ih, List.append_assoc, exec_cons]

/-- What every run keeps: the configuration, a pool that implements an abstract one, and a
cursor in the pool. -/
theorem reached (server : DhcpServer P) {max : ℕ}
    (hle : server.config.poolStart ≤ server.config.poolEnd)
    (hrep : rr.Rep server.pool ⟨LeaseTable.empty, max, server.config.poolStart⟩)
    (as : List Arrival) :
    (exec rr.step server as).config = server.config ∧
      (∃ q, rr.Rep (exec rr.step server as).pool q) ∧
      InPool server.config.poolStart server.config.poolEnd
        (rr.nextIp (exec rr.step server as).pool) := by
  obtain ⟨hconfig, q, hq, hb⟩ := rr.refines.bounded server hrep hle as
  have hcursor := hb.cursor
  rw [rr.nextIp_eq hq] at hcursor
  exact ⟨hconfig, ⟨q, hq⟩, hcursor⟩

/-- The last address of a walk. -/
theorem getLast?_iterate {f : UInt32 → UInt32} {start last : UInt32} {k : ℕ}
    (h : (List.iterate f start k).getLast? = some last) : ∃ m, k = m + 1 ∧ f^[m] start = last := by
  cases k with
  | zero => simp at h
  | succ m =>
      have hsplit : List.iterate f start (m + 1) = List.iterate f start m ++ [f^[m] start] := by
        rw [List.iterate_add]
        rfl
      rw [hsplit, List.getLast?_concat, Option.some.injEq] at h
      exact ⟨m, rfl, h⟩

/-- After an offer the cursor stands behind the address. -/
theorem Chooses.nextIp {q : LeasePool} (hrep : rr.Rep server.pool q) {ip : UInt32}
    (h : rr.Chooses server a ip) :
    rr.nextIp (rr.step server a).1.pool =
      advance server.config.poolStart server.config.poolEnd ip := by
  obtain ⟨k, hpasses, hnext⟩ := rr.passes_eq_iterate server a
  have hlast := Chooses.getLast?_passes rr hrep h
  rw [hpasses] at hlast
  obtain ⟨m, rfl, hm⟩ := getLast?_iterate hlast
  rw [hnext, Function.iterate_succ_apply', hm]

/-- From behind `ip` to an offer of `ip` the cursor visits every other address. -/
theorem mem_visits_of_lap (hpos : 0 < server.config.poolStart)
    (hle : server.config.poolStart ≤ server.config.poolEnd) {ip : UInt32}
    (hip : InPool server.config.poolStart server.config.poolEnd ip)
    {q q' : LeasePool} (hrep : rr.Rep server.pool q)
    (hcursor : rr.nextIp server.pool =
      advance server.config.poolStart server.config.poolEnd ip)
    {between : List Arrival} {b : Arrival}
    (hrep' : rr.Rep (exec rr.step server between).pool q')
    (h : rr.Chooses (exec rr.step server between) b ip) {x : UInt32}
    (hx : InPool server.config.poolStart server.config.poolEnd x) (hne : x ≠ ip) :
    x ∈ rr.visits server (between ++ [b]) := by
  obtain ⟨k, hvisits, -⟩ := rr.visits_eq_iterate (between ++ [b]) hrep
  have hlast : (rr.visits server (between ++ [b])).getLast? = some ip := by
    rw [rr.visits_append, List.getLast?_append, Chooses.getLast?_passes rr hrep' h]
    rfl
  rw [hvisits, hcursor] at hlast
  obtain ⟨m, rfl, hm⟩ := getLast?_iterate hlast
  -- the visits close the circle from `ip` to `ip`
  rw [← Function.iterate_succ_apply] at hm
  obtain ⟨j, hj, rfl⟩ := exists_iterate_advance hpos hle hip (Nat.succ_pos m) hm hx
  rw [hvisits, hcursor, List.mem_iterate]
  cases j with
  | zero => exact absurd rfl hne
  | succ j => exact ⟨j, by omega, rfl⟩

/-- **Two offers of one address are a full lap apart**, for every backend with a cursor. -/
theorem lapsFully {max : ℕ} (hpos : 0 < server.config.poolStart)
    (hle : server.config.poolStart ≤ server.config.poolEnd)
    (hrep : rr.Rep server.pool ⟨LeaseTable.empty, max, server.config.poolStart⟩) :
    LapsFully rr server where
  lap := by
    intro before between a b ip hchosen hchosen' x hx hne
    have hreached := rr.reached server hle hrep
    have hrun : ∀ as, exec rr.step server (before ++ a :: as) =
        exec rr.step (exec rr.step server (before ++ [a])) as := by
      intro as
      rw [← exec_append, List.append_assoc, List.singleton_append]
    obtain ⟨hconfig₁, ⟨q₁, hrep₁⟩, hcursor₁⟩ := hreached before
    obtain ⟨hconfig₂, ⟨q₂, hrep₂⟩, -⟩ := hreached (before ++ [a])
    obtain ⟨-, ⟨q₃, hrep₃⟩, -⟩ := hreached (before ++ a :: between)
    have hip := Chooses.inPool rr hrep₁ (by rw [hconfig₁]; exact hle)
      (by rw [hconfig₁]; exact hcursor₁) hchosen
    have hnext := Chooses.nextIp rr hrep₁ hchosen
    rw [hconfig₁, ← hconfig₂] at hip hnext
    have hstep : (rr.step (exec rr.step server before) a).1 =
        exec rr.step server (before ++ [a]) := by
      rw [exec_append, exec_cons, exec_nil]
    rw [hstep] at hnext
    rw [hrun] at hchosen' hrep₃
    have hvisited := rr.mem_visits_of_lap (by rw [hconfig₂]; exact hpos)
      (by rw [hconfig₂]; exact hle) hip hrep₂ hnext hrep₃ hchosen'
      (by rw [hconfig₂]; exact hx) hne
    obtain ⟨earlier, c, later, hsplit, hpass⟩ := rr.mem_visits hvisited
    obtain ⟨-, ⟨q₄, hrep₄⟩, -⟩ := hreached (before ++ a :: earlier)
    rw [← hrun] at hpass
    exact ⟨earlier, c, later, hsplit, hpass, rr.mem_passes hrep₄ (hx.ne_zero hpos) hpass⟩
  unleased := by
    intro before a ip now hchosen
    obtain ⟨-, ⟨q, hq⟩, -⟩ := rr.reached server hle hrep before
    exact Chooses.not_holds rr hq hchosen
  exhausted := by
    intro before a now hsearch hnone x hx
    obtain ⟨hconfig, ⟨q, hq⟩, hcursor⟩ := rr.reached server hle hrep before
    by_contra hfree
    have hunleased : rr.leased (rr.purge now.pool a.curTime) x = false := by
      rw [← Bool.not_eq_true, rr.leased_eq_true_iff hq]
      exact hfree
    have hfound := (searchPool_ne_zero_iff hpos hle hcursor).mpr ⟨x, hx, hunleased⟩
    refine hnone _ ((rr.isOffer_of_searches hq hsearch _).mpr ⟨rfl, ?_⟩)
    rw [hconfig]
    exact hfound

end RoundRobin

/-! ## The two backends -/

section Array

variable {maxLeases : UInt16} (pool : ArrayPool maxLeases)

theorem ArrayPool.nextIp_purge (t : UInt32) : (pool.purge t).nextIp = pool.nextIp := by
  unfold ArrayPool.purge
  split_ifs <;> rfl

theorem dhcpArraypoolAllocLease_nextIp (ip : UInt32) (mac : Mac) (leaseTime t : UInt32) :
    (dhcpArraypoolAllocLease pool ip mac leaseTime t).1.nextIp = pool.nextIp := by
  rw [← pool.nextIp_purge t]
  unfold dhcpArraypoolAllocLease
  dsimp only
  split
  · split_ifs <;> rfl
  · split
    · rfl
    · split <;> rfl

theorem dhcpArraypoolDeclineLease_nextIp (mac : Mac) :
    (dhcpArraypoolDeclineLease pool mac).nextIp = pool.nextIp := by
  unfold dhcpArraypoolDeclineLease
  split <;> rfl

/-- ARRAY. -/
def arrayRoundRobin (maxLeases : UInt16) : RoundRobin (ArrayPool maxLeases) where
  ops := arrayOps maxLeases
  purge := ArrayPool.purge
  knows pool mac := (dhcpArraypoolFindLease pool mac).isSome
  full pool := pool.leaseCount ≥ maxLeases
  leased := ArrayPool.leased
  nextIp := ArrayPool.nextIp
  Stored pool l := ∃ i, (pool.leases i).inUse = true ∧ (pool.leases i).toLease = l
  batch := ⊤
  Rep := ArrayPool.Represents
  refines := arrayOps_refines maxLeases
  rep_purge t h := by
    obtain ⟨q₀, -, h₀⟩ := h.purge t
    exact ⟨q₀, h₀⟩
  nextIp_eq h := h.nextIp_eq
  stored_iff h l := (h.slots.mem_iff l).symm
  knows_iff h mac := by
    rw [← Option.isSome_map, h.lookup, Option.isSome_iff_exists]
    exact exists_congr fun l => LeaseTable.lookup_eq_some_iff
  leased_eq h := h.leased
  nextIp_purge := ArrayPool.nextIp_purge
  find_known pool poolStart poolEnd mac t hknown := by
    obtain ⟨i, hi⟩ := Option.isSome_iff_exists.mp hknown
    simp only [arrayOps, dhcpArraypoolFindAvailableIp, hi, pool.nextIp_purge]
  find_full pool poolStart poolEnd mac t hknown hfull := by
    rw [Option.isSome_eq_false_iff, Option.isNone_iff_eq_none] at hknown
    rw [decide_eq_true_iff] at hfull
    simp only [arrayOps, dhcpArraypoolFindAvailableIp, hknown, if_pos hfull, pool.nextIp_purge,
      and_self]
  find_search pool poolStart poolEnd mac t hknown hfull := by
    rw [Option.isSome_eq_false_iff, Option.isNone_iff_eq_none] at hknown
    rw [decide_eq_false_iff_not] at hfull
    simp only [arrayOps, dhcpArraypoolFindAvailableIp, hknown, if_neg hfull, pool.nextIp_purge,
      and_self]
  nextIp_alloc := dhcpArraypoolAllocLease_nextIp
  nextIp_decline := dhcpArraypoolDeclineLease_nextIp

end Array

section Hash

variable (pool : HashPool)

theorem HashPool.nextIp_purge (t : UInt32) : (pool.purge t).nextIp = pool.nextIp := by
  have hfold : ∀ (expired : List (Mac × UInt32)) (p : HashPool),
      (expired.foldl (fun p e => p.deleteBoth e.1 e.2) p).nextIp = p.nextIp := by
    intro expired
    induction expired with
    | nil => intro p; rfl
    | cons e expired ih => intro p; exact ih (p.deleteBoth e.1 e.2)
  unfold HashPool.purge
  split_ifs
  · exact hfold _ pool
  · rfl

theorem dhcpHashpoolAllocLease_nextIp (ip : UInt32) (mac : Mac) (leaseTime t : UInt32) :
    (dhcpHashpoolAllocLease pool ip mac leaseTime t).1.nextIp = pool.nextIp := by
  rw [← pool.nextIp_purge t]
  unfold dhcpHashpoolAllocLease
  dsimp only
  split
  · split_ifs <;> rfl
  · split_ifs <;> rfl

theorem dhcpHashpoolDeclineLease_nextIp (mac : Mac) :
    (dhcpHashpoolDeclineLease pool mac).nextIp = pool.nextIp := by
  unfold dhcpHashpoolDeclineLease
  split <;> rfl

/-- HASHMAP. -/
def hashRoundRobin : RoundRobin HashPool where
  ops := hashOps
  purge := HashPool.purge
  knows pool mac := (dhcpHashpoolFindLease pool mac).isSome
  full pool := hashSize pool.leases ≥ pool.maxLeases.toNat
  leased pool ip := (hashFind ipKeys pool.ipSet ip).isSome
  nextIp := HashPool.nextIp
  Stored pool l := pool.leases.Stored l
  batch := 32
  Rep := HashPool.Represents
  refines := hashOps_refines
  rep_purge t h := by
    obtain ⟨q₀, -, h₀⟩ := h.purge t
    exact ⟨q₀, h₀⟩
  nextIp_eq h := h.nextIp_eq
  stored_iff h l := (h.mem_iff l).symm
  knows_iff h mac := by
    rw [← Option.isSome_map, h.lookup, Option.isSome_iff_exists]
    exact exists_congr fun l => LeaseTable.lookup_eq_some_iff
  leased_eq h := h.leased
  nextIp_purge := HashPool.nextIp_purge
  find_known pool poolStart poolEnd mac t hknown := by
    obtain ⟨i, hi⟩ := Option.isSome_iff_exists.mp hknown
    simp only [hashOps, dhcpHashpoolFindAvailableIp, hi, pool.nextIp_purge]
  find_full pool poolStart poolEnd mac t hknown hfull := by
    rw [Option.isSome_eq_false_iff, Option.isNone_iff_eq_none] at hknown
    rw [decide_eq_true_iff] at hfull
    simp only [hashOps, dhcpHashpoolFindAvailableIp, hknown, if_pos hfull, pool.nextIp_purge,
      and_self]
  find_search pool poolStart poolEnd mac t hknown hfull := by
    rw [Option.isSome_eq_false_iff, Option.isNone_iff_eq_none] at hknown
    rw [decide_eq_false_iff_not] at hfull
    simp only [hashOps, dhcpHashpoolFindAvailableIp, hknown, if_neg hfull, pool.nextIp_purge,
      and_self]
  nextIp_alloc := dhcpHashpoolAllocLease_nextIp
  nextIp_decline := dhcpHashpoolDeclineLease_nextIp

end Hash

/-- **Round-robin offers do not collide before a full lap**, for both client-tracking
backends: in every run, whatever the messages and their times. -/
theorem offers_lap_fully (config : DhcpConfig) (hpos : 0 < config.poolStart)
    (hle : config.poolStart ≤ config.poolEnd) (maxLeases : UInt16)
    (leases : Fin maxLeases.toNat → DhcpLease) (prior : HashPool) :
    LapsFully (arrayRoundRobin maxLeases) (dhcpInitServerArray config leases) ∧
      LapsFully hashRoundRobin (dhcpInitServerHashmap config prior maxLeases) :=
  ⟨(arrayRoundRobin maxLeases).lapsFully hpos hle (dhcpArraypoolInit_represents _ _),
    hashRoundRobin.lapsFully hpos hle (dhcpHashpoolInit_represents _ _ _)⟩

/-- Three clients on a pool of two addresses: the third is offered the address of the first, and
the cursor has passed the other one in between. -/
theorem offers_lap_fully_three_clients :
    let config := poolConfig 100 101 10
    let rr := arrayRoundRobin 2
    let server := dhcpInitServerArray config fun _ => ⟨⟨fun _ => 0, 0, 0⟩, false⟩
    (0 < config.poolStart ∧ config.poolStart ≤ config.poolEnd) ∧
      rr.Chooses server (discoverFrom 1 0) 100 ∧
      rr.Chooses (exec rr.step server [discoverFrom 1 0, discoverFrom 2 1]) (discoverFrom 3 2) 100 ∧
      ∃ earlier c later, [discoverFrom 2 1, discoverFrom 3 2] = earlier ++ c :: later ∧
        101 ∈ rr.passes (exec rr.step server (discoverFrom 1 0 :: earlier)) c := by
  intro config rr server
  obtain ⟨harray, -⟩ := offers_lap_fully config (by decide) (by decide) 2
    (fun _ => ⟨⟨fun _ => 0, 0, 0⟩, false⟩) HashPool.zeroed
  have hrep := dhcpArraypoolInit_represents config.poolStart
    (fun _ : Fin (2 : UInt16).toNat => (⟨⟨fun _ => 0, 0, 0⟩, false⟩ : DhcpLease))
  have hchooses : ∀ (before : List Arrival) (a : Arrival) (ip : UInt32),
      rr.knows (rr.purge (exec rr.step server before).pool a.curTime) a.mac = false →
      IsOffer ip (rr.step (exec rr.step server before) a).2 →
      rr.Chooses (exec rr.step server before) a ip := by
    intro before a ip hknows hoffer
    obtain ⟨-, ⟨q, hq⟩, -⟩ := rr.reached server (by decide) hrep before
    exact ⟨hoffer, (rr.knows_eq_false_iff hq).mp hknows⟩
  have hfirst : rr.Chooses server (discoverFrom 1 0) 100 :=
    hchooses [] _ _ (by decide +kernel)
      (isOffer_processMessage_iff.mpr ⟨by decide, by decide +kernel, by decide⟩)
  have hthird : rr.Chooses (exec rr.step server [discoverFrom 1 0, discoverFrom 2 1])
      (discoverFrom 3 2) 100 :=
    hchooses _ _ _ (by decide +kernel)
      (isOffer_processMessage_iff.mpr ⟨by decide, by decide +kernel, by decide⟩)
  obtain ⟨earlier, c, later, hsplit, hpass, -⟩ := harray.lap [] [discoverFrom 2 1]
    (discoverFrom 1 0) (discoverFrom 3 2) 100 hfirst hthird 101 ⟨by decide, by decide⟩ (by decide)
  exact ⟨by decide, hfirst, hthird, earlier, c, later, hsplit, hpass⟩

end BaremetalDhcp
