import BaremetalDhcp.Lib.Projection
import BaremetalDhcp.FrameValidators

/-!
# What a benchmark client does in a whole run

`BenchMailbox` is about the mailbox; this module is about the client behind it.  Whatever the
threads, the server and the network do, a client hands the same DISCOVER to `sendto` a few
times, then the same REQUEST a few times, and then stops.

* `Bench.process_eq` — everything the switch on the message type can do, with its call.
* `Bench.Called` — what a client has handed to `sendto`, as two numbers and an OFFER.
* `Bench.Phase` — where a client is in its exchange; `Bench.Phase.step` is the step lemma.

`client_run` reads the phases off at the end of a run: how often the client has called, where
the address in its REQUEST comes from, what made it finish, and what made it fail.
-/

namespace BaremetalDhcp

open Machine

/-! ## Messages of a client -/

/-- The message that `worker_thread` builds before it enters the loop. -/
def discoverMeta (mac : Bytes 6) (xid : UInt32) : BuildMeta where
  clientMac := mac
  requestedIp := fun _ => 0
  serverIp := fun _ => 0
  dhcpType := dhcpDiscover
  xid := xid

/-- The message that it builds from an OFFER. -/
def requestMeta (mac : Bytes 6) (xid : UInt32) (offer : List UInt8) : BuildMeta where
  clientMac := mac
  requestedIp := (parsedReply xid offer).offeredIp
  serverIp := (parsedReply xid offer).serverIp
  dhcpType := dhcpRequest
  xid := xid

/-- The server has sent a reply of the given type to the client; the client reads `rbuf`. -/
def Bench.Got (xid : UInt32) (b : Bench) (type : UInt8) (rbuf : List UInt8) : Prop :=
  (∃ frame ∈ b.replies, received xid frame = some rbuf) ∧ replyType xid rbuf = type

/-- **Everything the switch can do.**  It ignores the frame, answers an OFFER, stops because
the answer could not be sent, accepts an ACK, or fails on a NAK. -/
theorem Bench.process_eq (mac : Bytes 6) (xid : UInt32) (b : Bench) (rbuf : List UInt8)
    (sent : Bool) :
    b.process mac xid rbuf sent = ({ b with worker := .locking }, none) ∨
      (replyType xid rbuf = dhcpOffer ∧ b.state = .discover ∧
        b.process mac xid rbuf sent =
          ({ b with
              bmeta := requestMeta mac xid rbuf
              state := .request
              retries := 0
              worker := .locking }, some (requestMeta mac xid rbuf, true))) ∨
      (replyType xid rbuf = dhcpOffer ∧ b.state = .discover ∧
        b.process mac xid rbuf sent =
          ({ b with bmeta := requestMeta mac xid rbuf, worker := .out },
            some (requestMeta mac xid rbuf, false))) ∨
      (replyType xid rbuf = dhcpAck ∧ b.state = .request ∧
        b.process mac xid rbuf sent =
          ({ b with
              assignedIp := (parsedReply xid rbuf).offeredIp
              state := .done
              worker := .out }, none)) ∨
      (replyType xid rbuf = dhcpNak ∧
        b.process mac xid rbuf sent = ({ b with state := .failed, worker := .out }, none)) := by
  have htype : (parsedReply xid rbuf).dhcpType = replyType xid rbuf := rfl
  simp only [Bench.process, htype]
  split_ifs with hoffer hstate hsent hack hstate hnak
  · exact Or.inl rfl
  · exact Or.inr (Or.inl ⟨hoffer, not_not.mp hstate, rfl⟩)
  · exact Or.inr (Or.inr (Or.inl ⟨hoffer, not_not.mp hstate, rfl⟩))
  · exact Or.inl rfl
  · exact Or.inr (Or.inr (Or.inr (Or.inl ⟨hack, not_not.mp hstate, rfl⟩)))
  · exact Or.inr (Or.inr (Or.inr (Or.inr ⟨hnak, rfl⟩)))
  · exact Or.inl rfl

/-! ## Phases -/

section Phases

variable {mac : Bytes 6} {xid : UInt32} {b b' : Bench} {calls : List SendCall} {n m : ℕ}
  {offer : List UInt8}

/-- The client has handed its DISCOVER to `sendto` `n` times, and then `m` times the REQUEST for
an OFFER that it got. -/
structure Bench.Called (mac : Bytes 6) (xid : UInt32) (b : Bench) (calls : List SendCall)
    (n m : ℕ) (offer : List UInt8) : Prop where
  calls_eq : calls.map Prod.fst = List.replicate n (discoverMeta mac xid) ++
    List.replicate m (requestMeta mac xid offer)
  discovers_le : n ≤ maxRetries
  requests_le : m ≤ maxRetries
  offered : m ≠ 0 → b.Got xid dhcpOffer offer

/-- Why a client has stopped: with an ACK, with a NAK, after it has tried the message of its
state often enough, or because its first DISCOVER or its first REQUEST could not be sent. -/
inductive Bench.Ended (xid : UInt32) (b : Bench) (calls : List SendCall) (n m : ℕ) : Prop
  | acked (ack : List UInt8) (state_eq : b.state = .done) (requested : m ≠ 0)
      (got : b.Got xid dhcpAck ack) (assigned_eq : b.assignedIp = (parsedReply xid ack).offeredIp)
  | refused (nak : List UInt8) (state_eq : b.state = .failed) (got : b.Got xid dhcpNak nak)
  | gaveUp (state_eq : b.state = .failed) (tries : m = maxRetries ∨ m = 0 ∧ n = maxRetries)
  | notSent (last_eq : calls.getLast?.map Prod.snd = some false)
      (first : b.state = .unset ∧ n = 1 ∧ m = 0 ∨ b.state = .discover ∧ m = 1)

/-- Where a client is in its exchange. -/
inductive Bench.Phase (mac : Bytes 6) (xid : UInt32) (b : Bench) (calls : List SendCall) : Prop
  | starting (worker_eq : b.worker = .starting) (state_eq : b.state = .unset)
      (bmeta_eq : b.bmeta = discoverMeta mac xid) (retries_eq : b.retries = 0)
      (calls_eq : calls = [])
  | discovering (state_eq : b.state = .discover) (looping : b.worker ≠ .starting ∧ b.worker ≠ .out)
      (bmeta_eq : b.bmeta = discoverMeta mac xid)
      (has_called : b.Called mac xid calls (b.retries + 1) 0 [])
  | requesting (n : ℕ) (offer : List UInt8) (state_eq : b.state = .request)
      (looping : b.worker ≠ .starting ∧ b.worker ≠ .out)
      (bmeta_eq : b.bmeta = requestMeta mac xid offer)
      (has_called : b.Called mac xid calls n (b.retries + 1) offer)
  | stopped (n m : ℕ) (offer : List UInt8) (worker_eq : b.worker = .out)
      (has_called : b.Called mac xid calls n m offer) (ended : b.Ended xid calls n m)

/-- A reply stays. -/
theorem Bench.Got.mono {type : UInt8} {rbuf : List UInt8} (h : b.Got xid type rbuf)
    (hreplies : b.replies ⊆ b'.replies) : b'.Got xid type rbuf := by
  obtain ⟨⟨frame, hframe, hreceived⟩, htype⟩ := h
  exact ⟨⟨frame, hreplies hframe, hreceived⟩, htype⟩

theorem Bench.Called.mono (h : b.Called mac xid calls n m offer)
    (hreplies : b.replies ⊆ b'.replies) : b'.Called mac xid calls n m offer :=
  ⟨h.calls_eq, h.discovers_le, h.requests_le, fun hm => (h.offered hm).mono hreplies⟩

/-- **A step of somebody else**: the state, the retries and the message to send are as they
were, and the worker has neither started nor stopped. -/
theorem Bench.Phase.of_eq (h : b.Phase mac xid calls) (hstate : b'.state = b.state)
    (hbmeta : b'.bmeta = b.bmeta) (hretries : b'.retries = b.retries)
    (hassigned : b'.assignedIp = b.assignedIp) (hreplies : b.replies ⊆ b'.replies)
    (hstarting : b'.worker = .starting ↔ b.worker = .starting)
    (hout : b'.worker = .out ↔ b.worker = .out) : b'.Phase mac xid calls := by
  cases h with
  | starting hw hs hb hr hcalled =>
      exact .starting (hstarting.mpr hw) (hstate.trans hs) (hbmeta.trans hb)
        (hretries.trans hr) hcalled
  | discovering hs hw hb hcalled =>
      exact .discovering (hstate.trans hs) ⟨mt hstarting.mp hw.1, mt hout.mp hw.2⟩
        (hbmeta.trans hb) (hretries ▸ hcalled.mono hreplies)
  | requesting n offer hs hw hb hcalled =>
      exact .requesting n offer (hstate.trans hs) ⟨mt hstarting.mp hw.1, mt hout.mp hw.2⟩
        (hbmeta.trans hb) (hretries ▸ hcalled.mono hreplies)
  | stopped n m offer hw hcalled hended =>
      refine .stopped n m offer (hout.mpr hw) (hcalled.mono hreplies) ?_
      cases hended with
      | acked ack hs hm hgot hip =>
          exact .acked ack (hstate.trans hs) hm (hgot.mono hreplies) (hassigned.trans hip)
      | refused nak hs hgot => exact .refused nak (hstate.trans hs) (hgot.mono hreplies)
      | gaveUp hs htries => exact .gaveUp (hstate.trans hs) htries
      | notSent hlast hs => exact .notSent hlast (by rwa [hstate])

theorem Bench.Called.retry (h : b.Called mac xid calls n m offer) (hm : m < maxRetries)
    (hfirst : m ≠ 0) (ok : Bool) :
    b.Called mac xid (calls ++ [(requestMeta mac xid offer, ok)]) n (m + 1) offer := by
  refine ⟨?_, h.discovers_le, hm, fun _ => h.offered hfirst⟩
  rw [List.map_append, h.calls_eq, List.append_assoc, List.replicate_succ']
  rfl

theorem Bench.Called.retry_discover (h : b.Called mac xid calls n 0 []) (hn : n < maxRetries)
    (ok : Bool) : b.Called mac xid (calls ++ [(discoverMeta mac xid, ok)]) (n + 1) 0 [] := by
  refine ⟨?_, hn, Nat.zero_le _, fun hm => absurd rfl hm⟩
  rw [List.map_append, h.calls_eq, List.replicate_zero, List.append_nil, List.append_nil,
    List.replicate_succ']
  rfl

/-- The first REQUEST comes after the DISCOVERs. -/
theorem Bench.Called.request (h : b.Called mac xid calls n 0 []) (hgot : b.Got xid dhcpOffer offer)
    (ok : Bool) : b.Called mac xid (calls ++ [(requestMeta mac xid offer, ok)]) n 1 offer := by
  refine ⟨?_, h.discovers_le, by decide, fun _ => hgot⟩
  rw [List.map_append, h.calls_eq, List.replicate_zero, List.append_nil, List.replicate_one]
  rfl

/-- The first DISCOVER. -/
theorem Bench.called_first (mac : Bytes 6) (xid : UInt32) (b : Bench) (ok : Bool) :
    b.Called mac xid [(discoverMeta mac xid, ok)] 1 0 [] :=
  ⟨rfl, by decide, Nat.zero_le _, fun hm => absurd rfl hm⟩

/-- There is one DISCOVER, and one REQUEST. -/
theorem Bench.Called.mem (h : b.Called mac xid calls n m offer) {call : SendCall}
    (hcall : call ∈ calls) :
    call.1 = discoverMeta mac xid ∨ m ≠ 0 ∧ call.1 = requestMeta mac xid offer := by
  have hmem := List.mem_map_of_mem (f := Prod.fst) hcall
  rw [h.calls_eq, List.mem_append, List.mem_replicate, List.mem_replicate] at hmem
  exact hmem.imp And.right id

/-! ## One step -/

/-- A worker that has not started has called nothing. -/
theorem Bench.Phase.of_starting (h : b.Phase mac xid calls) (hstarting : b.worker = .starting) :
    b.state = .unset ∧ b.bmeta = discoverMeta mac xid ∧ b.retries = 0 ∧ calls = [] := by
  cases h with
  | starting _ hs hb hr hnone => exact ⟨hs, hb, hr, hnone⟩
  | discovering _ hw => exact absurd hstarting hw.1
  | requesting _ _ _ hw => exact absurd hstarting hw.1
  | stopped _ _ _ hw => rw [hw] at hstarting; cases hstarting

/-- The worker takes the frame out of the mailbox, or waits. -/
theorem Bench.Phase.test (h : b.Phase mac xid calls) (hstarting : b.worker ≠ .starting)
    (hout : b.worker ≠ .out) : b.test.Phase mac xid calls := by
  unfold Bench.test
  split_ifs with hempty
  · exact h.of_eq rfl rfl rfl rfl (List.Subset.refl _)
      (iff_of_false (by simp) hstarting) (iff_of_false (by simp) hout)
  · exact h.of_eq rfl rfl rfl rfl (List.Subset.refl _)
      (iff_of_false (by simp) hstarting) (iff_of_false (by simp) hout)

/-- **The time-out** tries the message of the state once more, or gives up. -/
theorem Bench.Phase.timedOut (h : b.Phase mac xid calls) (hblocked : b.worker = .blocked)
    (ok : Bool) : (b.timedOut ok).1.Phase mac xid (calls ++ (b.timedOut ok).2.toList) := by
  cases h with
  | starting hw => rw [hblocked] at hw; cases hw
  | stopped _ _ _ hw => rw [hblocked] at hw; cases hw
  | discovering hs _ hb hcalled =>
      have hle := hcalled.discovers_le
      unfold Bench.timedOut
      dsimp only
      split_ifs with hover
      · rw [Option.toList_none, List.append_nil]
        exact .stopped _ 0 [] rfl (hcalled.mono (List.Subset.refl _))
          (.gaveUp rfl (Or.inr ⟨rfl, le_antisymm hle hover⟩))
      · rw [Option.toList_some, hb]
        exact .discovering hs (by simp) rfl
          ((hcalled.retry_discover (not_le.mp hover) ok).mono (List.Subset.refl _))
  | requesting n offer hs _ hb hcalled =>
      have hle := hcalled.requests_le
      unfold Bench.timedOut
      dsimp only
      split_ifs with hover
      · rw [Option.toList_none, List.append_nil]
        exact .stopped n _ offer rfl (hcalled.mono (List.Subset.refl _))
          (.gaveUp rfl (Or.inl (le_antisymm hle hover)))
      · rw [Option.toList_some, hb]
        exact .requesting n offer hs (by simp) rfl
          ((hcalled.retry (not_le.mp hover) (Nat.succ_ne_zero _) ok).mono (List.Subset.refl _))

/-- **The switch** moves the exchange on.  The frame was sent by the server, because the worker
has nothing else. -/
theorem Bench.Phase.process (h : b.Phase mac xid calls) {rbuf : List UInt8}
    (hholding : b.worker = .holding rbuf)
    (hsource : ∃ frame ∈ b.replies, received xid frame = some rbuf) (ok : Bool) :
    (b.process mac xid rbuf ok).1.Phase mac xid
      (calls ++ (b.process mac xid rbuf ok).2.toList) := by
  have hstarting : b.worker ≠ .starting := by simp [hholding]
  have hout : b.worker ≠ .out := by simp [hholding]
  have hsame : List.Subset b.replies b.replies := List.Subset.refl _
  -- what has been tried, in whatever state the client is
  have hcalled : ∃ n m offer, b.Called mac xid calls n m offer ∧
      (b.state = .discover → m = 0 ∧ offer = []) ∧ (b.state = .request → m ≠ 0) := by
    cases h with
    | starting hw => exact absurd hw hstarting
    | stopped _ _ _ hw => exact absurd hw hout
    | discovering hs _ _ hcalled =>
        exact ⟨_, 0, [], hcalled, fun _ => ⟨rfl, rfl⟩, by simp [hs]⟩
    | requesting n offer hs _ _ hcalled =>
        exact ⟨n, _, offer, hcalled, by simp [hs], fun _ => Nat.succ_ne_zero _⟩
  obtain ⟨n, m, offer, hcalled, hdiscover, hrequest⟩ := hcalled
  obtain heq | ⟨htype, hs, heq⟩ | ⟨htype, hs, heq⟩ | ⟨htype, hs, heq⟩ | ⟨htype, heq⟩ :=
    Bench.process_eq mac xid b rbuf ok
  all_goals
    rw [heq]
    simp only [Option.toList_none, Option.toList_some, List.append_nil]
  · exact h.of_eq rfl rfl rfl rfl hsame (iff_of_false (by simp) hstarting)
      (iff_of_false (by simp) hout)
  · obtain ⟨rfl, rfl⟩ := hdiscover hs
    exact .requesting n rbuf rfl (by simp) rfl
      ((hcalled.request ⟨hsource, htype⟩ true).mono hsame)
  · obtain ⟨rfl, rfl⟩ := hdiscover hs
    exact .stopped n 1 rbuf rfl ((hcalled.request ⟨hsource, htype⟩ false).mono hsame)
      (.notSent (by rw [List.getLast?_concat]; rfl) (Or.inr ⟨hs, rfl⟩))
  · exact .stopped n m offer rfl (hcalled.mono hsame)
      (.acked rbuf rfl (hrequest hs) ⟨hsource, htype⟩ rfl)
  · exact .stopped n m offer rfl (hcalled.mono hsame) (.refused rbuf rfl ⟨hsource, htype⟩)

/-- **One step** of the worker, of the thread that receives, or of the server. -/
theorem Bench.Phase.step (h : b.Phase mac xid calls) (hsourced : b.Sourced xid)
    (step : BenchStep) :
    (benchStep mac xid b step).1.Phase mac xid
      (calls ++ (benchStep mac xid b step).2.toList) := by
  have hidle : b.Phase mac xid (calls ++ (none : Option SendCall).toList) := by
    rwa [Option.toList_none, List.append_nil]
  have hsame : List.Subset b.replies b.replies := List.Subset.refl _
  cases step with
  | reply frame =>
      exact hidle.of_eq rfl rfl rfl rfl (List.subset_append_left _ _) Iff.rfl Iff.rfl
  | deliver k =>
      unfold benchStep
      dsimp only
      split
      · exact hidle.of_eq rfl rfl rfl rfl hsame Iff.rfl Iff.rfl
      · exact hidle
  | start ok =>
      unfold benchStep
      dsimp only
      split_ifs with hstarting hok
      · obtain ⟨-, hb, hr, rfl⟩ := h.of_starting hstarting
        refine .discovering rfl (by simp) hb ?_
        rw [hr, hb]
        exact Bench.called_first mac xid _ true
      · obtain ⟨hs, hb, -, rfl⟩ := h.of_starting hstarting
        rw [hb]
        exact .stopped 1 0 [] rfl (Bench.called_first mac xid _ false)
          (.notSent rfl (Or.inl ⟨hs, rfl, rfl⟩))
      · exact hidle
  | lock =>
      unfold benchStep
      dsimp only
      split_ifs with hlocking
      · exact hidle.test (by simp [hlocking]) (by simp [hlocking])
      · exact hidle
  | wake =>
      unfold benchStep
      dsimp only
      split_ifs with hblocked
      · exact hidle.test (by simp [hblocked]) (by simp [hblocked])
      · exact hidle
  | timeout ok =>
      unfold benchStep
      dsimp only
      split_ifs with hblocked
      · exact h.timedOut hblocked ok
      · exact hidle
  | process ok =>
      unfold benchStep
      dsimp only
      split
      · next rbuf hholding => exact h.process hholding (hsourced.held rbuf hholding) ok
      · exact hidle

/-- In every phase something has been tried, and a client that finished or failed has ended. -/
theorem Bench.Phase.exists_called (h : b.Phase mac xid calls) :
    ∃ n m offer, b.Called mac xid calls n m offer ∧
      (b.state = .done ∨ b.state = .failed → b.Ended xid calls n m) := by
  cases h with
  | starting _ hs _ _ hnone =>
      exact ⟨0, 0, [], ⟨by rw [hnone]; rfl, Nat.zero_le _, Nat.zero_le _, fun hm => absurd rfl hm⟩,
        by simp [hs]⟩
  | discovering hs _ _ hcalled => exact ⟨_, 0, [], hcalled, by simp [hs]⟩
  | requesting n offer hs _ _ hcalled => exact ⟨n, _, offer, hcalled, by simp [hs]⟩
  | stopped n m offer _ hcalled hended => exact ⟨n, m, offer, hcalled, fun _ => hended⟩

/-- A client tries its DISCOVER and REQUESTs for OFFERs that it got. -/
theorem Bench.Phase.mem_calls (h : b.Phase mac xid calls) {call : SendCall} (hcall : call ∈ calls) :
    call.1 = discoverMeta mac xid ∨
      ∃ offer, call.1 = requestMeta mac xid offer ∧ b.Got xid dhcpOffer offer := by
  obtain ⟨n, k, offer, hcalled, -⟩ := h.exists_called
  obtain hd | ⟨hk, hr⟩ := hcalled.mem hcall
  · exact Or.inl hd
  · exact Or.inr ⟨offer, hr, hcalled.offered hk⟩

end Phases

/-! ## A whole run -/

/-- **Every run** is in one of the phases. -/
theorem Bench.phase_exec (mac : Bytes 6) (xid : UInt32) (run : List BenchStep) :
    (exec (benchStep mac xid) (Bench.fresh mac xid) run).Phase mac xid
      (emitted (benchStep mac xid) Option.toList (Bench.fresh mac xid) run) := by
  have hinit : (Bench.fresh mac xid).Phase mac xid [] := .starting rfl rfl rfl rfl rfl
  exact (exec_emitted_along (fun b calls => b.Sourced xid ∧ b.Phase mac xid calls)
    (fun b calls step h _ => ⟨h.1.step step, h.2.step h.1 step⟩) run (Bench.fresh mac xid) []
    ⟨Bench.sourced_fresh, hinit⟩ (along_of_forall (fun _ _ => trivial) run _)).2

/-- **What a client does.**  Whatever the server sends and in whatever order the steps of the
two threads come, and whichever calls of `sendto` fail, a client tries at most `MAX_RETRIES`
equal DISCOVERs and then at most `MAX_RETRIES` equal REQUESTs, for the address and the server of
an OFFER that was sent to it.  It finishes only after a REQUEST, with the address of an ACK that
was sent to it, and it fails only on a NAK that was sent to it or after it has tried
`MAX_RETRIES` DISCOVERs and no REQUEST, or `MAX_RETRIES` REQUESTs. -/
theorem client_run (mac : Bytes 6) (xid : UInt32) (run : List BenchStep) :
    let b := exec (benchStep mac xid) (Bench.fresh mac xid) run
    ∃ n m offer,
      (emitted (benchStep mac xid) Option.toList (Bench.fresh mac xid) run).map Prod.fst =
          List.replicate n (discoverMeta mac xid) ++
            List.replicate m (requestMeta mac xid offer) ∧
        n ≤ maxRetries ∧ m ≤ maxRetries ∧
        (m ≠ 0 → b.Got xid dhcpOffer offer) ∧
        (b.state = .done →
          m ≠ 0 ∧ ∃ ack, b.Got xid dhcpAck ack ∧ b.assignedIp = (parsedReply xid ack).offeredIp) ∧
        (b.state = .failed →
          (∃ nak, b.Got xid dhcpNak nak) ∨ m = maxRetries ∨ m = 0 ∧ n = maxRetries) := by
  intro b
  obtain ⟨n, m, offer, hcalled, hended⟩ := (Bench.phase_exec mac xid run).exists_called
  refine ⟨n, m, offer, hcalled.calls_eq, hcalled.discovers_le, hcalled.requests_le,
    hcalled.offered, fun hdone => ?_, fun hfailed => ?_⟩
  · cases hended (Or.inl hdone) with
    | acked ack _ hm hgot hip => exact ⟨hm, ack, hgot, hip⟩
    | refused _ hs => simp [b, hs] at hdone
    | gaveUp hs => simp [b, hs] at hdone
    | notSent _ hs => obtain ⟨hs, -⟩ | ⟨hs, -⟩ := hs <;> simp [b, hs] at hdone
  · cases hended (Or.inr hfailed) with
    | acked _ hs => simp [b, hs] at hfailed
    | refused nak _ hgot => exact Or.inl ⟨nak, hgot⟩
    | gaveUp _ htries => exact Or.inr htries
    | notSent _ hs => obtain ⟨hs, -⟩ | ⟨hs, -⟩ := hs <;> simp [b, hs] at hfailed

end BaremetalDhcp
