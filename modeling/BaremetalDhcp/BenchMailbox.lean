import BaremetalDhcp.FrameExchange

/-!
# The mailbox of a benchmark client

`bench-live/workers-async.c` runs a client between two threads.  `recv_manager_thread`
looks up the client of a reply by its `xid` and copies the frame into the client's
mailbox; `worker_thread` waits for the mailbox to fill, takes the frame out and moves the
client through its states.  The mailbox has a single slot, and a delivery does not look
whether the slot is still full.

`benchStep` is one atomic step of either thread, or of the server.  A run is any list of
steps: a step whose thread is elsewhere changes nothing, so every interleaving is one.
The server may send any frame at any time, and `recv_manager_thread` may receive any
reply that was sent, in any order, late, more than once or never.

## Reading conventions

* The mailbox is the list of its first `buf_len` bytes: `[]` stands for `buf_len = 0`.
  Both copies are of exactly `buf_len` bytes, and what an earlier frame left behind them in
  the worker's buffer is not read (`parsedReply_of_holds`).
* A worker holds the mailbox's lock from the test of `buf_len` to the wait or the end of
  the copy, so the test and what follows it are one step (`Bench.test`).
* `pthread_cond_timedwait` may report a time-out although the mailbox was filled while
  the worker was blocked: the lock is taken again before it returns.
* The thread that delivers may have looked the client up before the worker removed it
  from the table, so a delivery is possible at any time.
* Every `sendto` may fail.  After the first one and that of the first REQUEST the client then
  ends where it is; the one behind a time-out is not looked at.

`ack_not_lost` says which steps an unread ACK has to be spared for the client not to fail.
-/

namespace BaremetalDhcp

open Machine

/-! ## The client -/

/-- `enum Client_State`; a client that has sent nothing has none of its values. -/
inductive ClientState where
  | unset
  | discover
  | request
  | done
  | failed
  deriving DecidableEq

/-- Where `worker_thread` is: before the first `sendto`, on its way to the lock, blocked in
`pthread_cond_timedwait`, with a copied frame before `parse_frame`, or at `out`. -/
inductive Worker where
  | starting
  | locking
  | blocked
  | holding (rbuf : List UInt8)
  | out
  deriving DecidableEq

/-- A `struct client_async` with its worker, and the replies the server has sent. -/
structure Bench where
  state : ClientState
  retries : ℕ
  assignedIp : Bytes 4
  mailbox : List UInt8
  worker : Worker
  bmeta : BuildMeta
  replies : List (List UInt8)

/-- `MAX_RETRIES`. -/
def maxRetries : ℕ := 3

/-- `sizeof(rbuf)` of `recv_manager_thread`. -/
def recvLen : ℕ := 1024

/-- What a step can be.  The booleans are whether `sendto` succeeds. -/
inductive BenchStep where
  /-- The server sends a reply. -/
  | reply (frame : List UInt8)
  /-- `recv_manager_thread` receives the `k`-th reply. -/
  | deliver (k : ℕ)
  /-- The worker sends the first DISCOVER. -/
  | start (sent : Bool)
  /-- The worker takes the lock and tests the mailbox. -/
  | lock
  /-- The wait ends with a signal, or spuriously. -/
  | wake
  /-- The wait ends with a time-out. -/
  | timeout (sent : Bool)
  /-- The worker parses the frame it has copied. -/
  | process (sent : Bool)

/-- A call of `sendto`: the message, and whether it is sent. -/
abbrev SendCall := BuildMeta × Bool

/-- The messages that some calls put on the wire. -/
def sentBy (calls : List SendCall) : List BuildMeta :=
  calls.filterMap fun call => if call.2 then some call.1 else none

section Steps

variable (mac : Bytes 6) (xid : UInt32)

/-- What `parse_frame` reports about a frame. -/
def parsedReply (frame : List UInt8) : ParseMeta :=
  (parseFrame (bytesAt frame) frame.length
    { serverMac := fun _ => 0, offeredIp := fun _ => 0, serverIp := fun _ => 0,
      subnetMask := fun _ => 0, dhcpType := 0, leaseTime := 0, xid := xid }).2

/-- The message type of a frame, as the client reads it. -/
def replyType (frame : List UInt8) : UInt8 := (parsedReply xid frame).dhcpType

/-- `recv`, `parse_xid` and the lookup: the bytes that reach the client's mailbox, if the
frame is for this client. -/
def received (frame : List UInt8) : Option (List UInt8) :=
  let rbuf := frame.take recvLen
  if (parseXid (bytesAt rbuf) rbuf.length).2 = some xid then some rbuf else none

/-- A client that has just been popped and inserted into the table. -/
def Bench.fresh : Bench where
  state := .unset
  retries := 0
  assignedIp := fun _ => 0
  mailbox := []
  worker := .starting
  bmeta :=
    { clientMac := mac, requestedIp := fun _ => 0, serverIp := fun _ => 0,
      dhcpType := dhcpDiscover, xid := xid }
  replies := []

/-- The head of the inner loop, under the lock: wait, or take the frame and clear the
mailbox. -/
def Bench.test (b : Bench) : Bench :=
  if b.mailbox = [] then { b with worker := .blocked }
  else { b with worker := .holding b.mailbox, mailbox := [] }

/-- The time-out branch: give up, or send again what was sent last.  The result of the call is
ignored. -/
def Bench.timedOut (b : Bench) (sent : Bool) : Bench × Option SendCall :=
  let b := { b with retries := b.retries + 1 }
  if b.retries ≥ maxRetries then ({ b with state := .failed, worker := .out }, none)
  else ({ b with worker := .locking }, some (b.bmeta, sent))

/-- The switch on the message type. -/
def Bench.process (b : Bench) (rbuf : List UInt8) (sent : Bool) : Bench × Option SendCall :=
  let pmeta := parsedReply xid rbuf
  let again := ({ b with worker := .locking }, none)
  if pmeta.dhcpType = dhcpOffer then
    if b.state ≠ .discover then again
    else
      let b := { b with
        bmeta :=
          { clientMac := mac, requestedIp := pmeta.offeredIp, serverIp := pmeta.serverIp,
            dhcpType := dhcpRequest, xid := xid } }
      if sent then
        ({ b with state := .request, retries := 0, worker := .locking }, some (b.bmeta, true))
      else ({ b with worker := .out }, some (b.bmeta, false))
  else if pmeta.dhcpType = dhcpAck then
    if b.state ≠ .request then again
    else ({ b with assignedIp := pmeta.offeredIp, state := .done, worker := .out }, none)
  else if pmeta.dhcpType = dhcpNak then ({ b with state := .failed, worker := .out }, none)
  else again

/-- One step, and the call of `sendto` that the worker makes in it. -/
def benchStep (b : Bench) : BenchStep → Bench × Option SendCall
  | .reply frame => ({ b with replies := b.replies ++ [frame] }, none)
  | .deliver k =>
      match b.replies[k]? >>= received xid with
      | some rbuf => ({ b with mailbox := rbuf }, none)
      | none => (b, none)
  | .start sent =>
      if b.worker = .starting then
        if sent then ({ b with state := .discover, worker := .locking }, some (b.bmeta, true))
        else ({ b with worker := .out }, some (b.bmeta, false))
      else (b, none)
  | .lock => if b.worker = .locking then (b.test, none) else (b, none)
  | .wake => if b.worker = .blocked then (b.test, none) else (b, none)
  | .timeout sent => if b.worker = .blocked then b.timedOut sent else (b, none)
  | .process sent =>
      match b.worker with
      | .holding rbuf => b.process mac xid rbuf sent
      | _ => (b, none)

end Steps

section Runs

variable {mac : Bytes 6} {xid : UInt32} {b : Bench}

/-- The worker's buffer may hold anything behind the frame, and its meta data too. -/
theorem parsedReply_of_holds {buf : ℕ → UInt8} {frame : List UInt8} (h : Holds buf 0 frame)
    {m : ParseMeta} (hxid : m.xid = xid) :
    (parseFrame buf frame.length m).2 = parsedReply xid frame := by
  refine parseFrame_congr (fun i hi => ?_) hxid
  have hbyte := h i hi
  rwa [Nat.zero_add] at hbyte

/-- **What the switch can do**: ignore the frame, answer an OFFER, finish on an ACK, or
fail on a NAK. -/
theorem Bench.process_cases (mac : Bytes 6) (xid : UInt32) (b : Bench) (rbuf : List UInt8)
    (sent : Bool) :
    let b' := (b.process mac xid rbuf sent).1
    b'.mailbox = b.mailbox ∧ b'.replies = b.replies ∧
      (replyType xid rbuf ≠ dhcpNak ∧ (replyType xid rbuf = dhcpAck → b.state ≠ .request) ∧
          b'.state = b.state ∧ b'.worker = .locking ∨
        b.state = .discover ∧
          (b'.state = .request ∧ b'.worker = .locking ∨
            b'.state = .discover ∧ b'.worker = .out) ∨
        replyType xid rbuf = dhcpAck ∧ b'.state = .done ∧ b'.worker = .out ∨
        replyType xid rbuf = dhcpNak ∧ b'.state = .failed ∧ b'.worker = .out) := by
  intro b'
  have htype : (parsedReply xid rbuf).dhcpType = replyType xid rbuf := rfl
  by_cases hoffer : replyType xid rbuf = dhcpOffer
  · have hnak : replyType xid rbuf ≠ dhcpNak := by rw [hoffer]; decide
    have hack : replyType xid rbuf ≠ dhcpAck := by rw [hoffer]; decide
    simp only [b', Bench.process, htype, if_pos hoffer]
    split_ifs with hstate hsent
    · exact ⟨rfl, rfl, Or.inl ⟨hnak, fun h => absurd h hack, rfl, rfl⟩⟩
    · exact ⟨rfl, rfl, Or.inr (Or.inl ⟨not_not.mp hstate, Or.inl ⟨rfl, rfl⟩⟩)⟩
    · have hdiscover := not_not.mp hstate
      exact ⟨rfl, rfl, Or.inr (Or.inl ⟨hdiscover, Or.inr ⟨hdiscover, rfl⟩⟩)⟩
  · simp only [b', Bench.process, htype, if_neg hoffer]
    split_ifs with hack hstate hnak
    · have hnak : replyType xid rbuf ≠ dhcpNak := by rw [hack]; decide
      exact ⟨rfl, rfl, Or.inl ⟨hnak, fun _ => hstate, rfl, rfl⟩⟩
    · exact ⟨rfl, rfl, Or.inr (Or.inr (Or.inl ⟨hack, rfl, rfl⟩))⟩
    · exact ⟨rfl, rfl, Or.inr (Or.inr (Or.inr ⟨hnak, rfl, rfl⟩))⟩
    · exact ⟨rfl, rfl, Or.inl ⟨hnak, fun h => absurd h hack, rfl, rfl⟩⟩

theorem mem_sentBy {calls : List SendCall} {m : BuildMeta} :
    m ∈ sentBy calls ↔ (m, true) ∈ calls := by
  unfold sentBy
  rw [List.mem_filterMap]
  constructor
  · rintro ⟨⟨m', ok⟩, hmem, hsome⟩
    split_ifs at hsome with hok
    obtain rfl : m' = m := Option.some.inj hsome
    obtain rfl : ok = true := hok
    exact hmem
  · exact fun hmem => ⟨(m, true), hmem, rfl⟩

theorem sentBy_append (calls more : List SendCall) :
    sentBy (calls ++ more) = sentBy calls ++ sentBy more :=
  List.filterMap_append

/-! ## Where frames come from -/

/-- The worker is in the loop while the client is in `STATE_REQUEST`, and every frame it or
the mailbox has was sent by the server. -/
structure Bench.Sourced (xid : UInt32) (b : Bench) : Prop where
  working : b.state = .request →
    b.worker = .locking ∨ b.worker = .blocked ∨ ∃ rbuf, b.worker = .holding rbuf
  held : ∀ rbuf, b.worker = .holding rbuf → ∃ frame ∈ b.replies, received xid frame = some rbuf
  slot : b.mailbox ≠ [] → ∃ frame ∈ b.replies, received xid frame = some b.mailbox

theorem Bench.sourced_fresh : (Bench.fresh mac xid).Sourced xid where
  working := fun h => by cases h
  held := fun rbuf h => by cases h
  slot := fun h => absurd rfl h

/-- Testing the mailbox moves its frame. -/
theorem Bench.Sourced.test (h : b.Sourced xid) : b.test.Sourced xid := by
  unfold Bench.test
  split_ifs with hempty
  · exact ⟨fun _ => Or.inr (Or.inl rfl), fun rbuf hw => (by cases hw), h.slot⟩
  · refine ⟨fun _ => Or.inr (Or.inr ⟨_, rfl⟩), fun rbuf hw => ?_, fun hne => absurd rfl hne⟩
    obtain rfl : b.mailbox = rbuf := Worker.holding.inj hw
    exact h.slot hempty

/-- A step that changes neither the frames nor the replies keeps them sourced. -/
theorem Bench.Sourced.of_eq {b' : Bench} (h : b.Sourced xid) (hreplies : b'.replies = b.replies)
    (hmailbox : b'.mailbox = b.mailbox) (hidle : ∀ rbuf, b'.worker ≠ .holding rbuf)
    (hworking : b'.state = .request → b'.worker = .locking ∨ b'.worker = .blocked) :
    b'.Sourced xid := by
  refine ⟨fun hstate => (hworking hstate).imp_right Or.inl, fun rbuf hw => absurd hw (hidle rbuf),
    fun hne => ?_⟩
  rw [hreplies]
  rw [hmailbox] at hne ⊢
  exact h.slot hne

/-- The switch keeps the frames sourced. -/
theorem Bench.Sourced.process (h : b.Sourced xid) (rbuf : List UInt8) (sent : Bool) :
    (b.process mac xid rbuf sent).1.Sourced xid := by
  obtain ⟨hmailbox, hreplies, ⟨-, -, -, hworker⟩ | ⟨-, ⟨-, hworker⟩ | ⟨hstate, hworker⟩⟩ |
    ⟨-, hstate, hworker⟩ | ⟨-, hstate, hworker⟩⟩ := Bench.process_cases mac xid b rbuf sent
  · exact h.of_eq hreplies hmailbox (by simp [hworker]) fun _ => Or.inl hworker
  · exact h.of_eq hreplies hmailbox (by simp [hworker]) fun _ => Or.inl hworker
  · exact h.of_eq hreplies hmailbox (by simp [hworker]) (by simp [hstate])
  · exact h.of_eq hreplies hmailbox (by simp [hworker]) (by simp [hstate])
  · exact h.of_eq hreplies hmailbox (by simp [hworker]) (by simp [hstate])

/-- **One step** keeps the frames sourced. -/
theorem Bench.Sourced.step (h : b.Sourced xid) (step : BenchStep) :
    (benchStep mac xid b step).1.Sourced xid := by
  cases step with
  | reply frame =>
      refine ⟨h.working, fun rbuf hw => ?_, fun hne => ?_⟩
      · obtain ⟨f, hf, hr⟩ := h.held rbuf hw
        exact ⟨f, List.mem_append_left _ hf, hr⟩
      · obtain ⟨f, hf, hr⟩ := h.slot hne
        exact ⟨f, List.mem_append_left _ hf, hr⟩
  | deliver k =>
      unfold benchStep
      dsimp only
      split
      · next rbuf harrives =>
          obtain ⟨frame, hframe, hrbuf⟩ := Option.bind_eq_some_iff.mp harrives
          exact ⟨h.working, h.held, fun _ => ⟨frame, List.mem_of_getElem? hframe, hrbuf⟩⟩
      · exact h
  | start sent =>
      unfold benchStep
      dsimp only
      split_ifs with hstart hsent
      · exact h.of_eq rfl rfl (by simp) (by simp)
      · refine h.of_eq rfl rfl (by simp) fun hstate => ?_
        have hworking := h.working hstate
        simp [hstart] at hworking
      · exact h
  | lock =>
      unfold benchStep
      dsimp only
      split_ifs
      · exact h.test
      · exact h
  | wake =>
      unfold benchStep
      dsimp only
      split_ifs
      · exact h.test
      · exact h
  | timeout sent =>
      unfold benchStep Bench.timedOut
      dsimp only
      split_ifs
      · exact h.of_eq rfl rfl (by simp) (by simp)
      · exact h.of_eq rfl rfl (by simp) (by simp)
      · exact h
  | process sent =>
      unfold benchStep
      dsimp only
      split
      · exact h.process _ sent
      · exact h

/-- **Every run** keeps the frames sourced. -/
theorem Bench.sourced_exec (run : List BenchStep) :
    (exec (benchStep mac xid) (Bench.fresh mac xid) run).Sourced xid :=
  exec_inv (fun b : Bench => b.Sourced xid) (fun _ => True) (fun _ step h _ => h.step step) run _
    Bench.sourced_fresh fun _ _ => trivial

/-! ## An ACK in the mailbox -/

/-- An ACK for a client in `STATE_REQUEST` lies unread in the mailbox, and its worker has
not copied another one. -/
structure Bench.AwaitsAck (xid : UInt32) (b : Bench) : Prop where
  state_eq : b.state = .request
  unread : replyType xid b.mailbox = dhcpAck
  other : ∀ rbuf, b.worker = .holding rbuf → replyType xid rbuf ≠ dhcpAck

/-- The step does not lose an unread ACK: it is not overwritten by a frame of another type,
and the client does not give up while it is there. -/
def SparesAck (xid : UInt32) (b : Bench) : BenchStep → Prop
  | .deliver k => b.AwaitsAck xid → ∀ rbuf, b.replies[k]? >>= received xid = some rbuf →
      replyType xid rbuf = dhcpAck
  | .timeout _ => b.AwaitsAck xid → b.worker = .blocked → b.retries + 1 < maxRetries
  | _ => True

/-- Where an ACK is that has been delivered and not lost. -/
inductive Bench.HasAck (xid : UInt32) (b : Bench) : Prop
  | accepted (state_eq : b.state = .done) (worker_eq : b.worker = .out)
  | copied (state_eq : b.state = .request) (rbuf : List UInt8)
      (worker_eq : b.worker = .holding rbuf) (type_eq : replyType xid rbuf = dhcpAck)
  | waiting (awaits : b.AwaitsAck xid)
      (worker_cases : b.worker = .locking ∨ b.worker = .blocked ∨
        ∃ rbuf, b.worker = .holding rbuf ∧ replyType xid rbuf ≠ dhcpNak)

theorem Bench.HasAck.state_ne (h : b.HasAck xid) : b.state ≠ .failed := by
  cases h with
  | accepted hstate _ => rw [hstate]; decide
  | copied hstate _ _ _ => rw [hstate]; decide
  | waiting hawaits _ => rw [hawaits.state_eq]; decide

/-- A frame with a type is not empty. -/
theorem ne_nil_of_replyType {frame : List UInt8} {type : UInt8}
    (h : replyType xid frame = type) (htype : type ≠ 0) : frame ≠ [] := by
  rintro rfl
  exact htype h.symm

/-- The worker finds the ACK. -/
theorem Bench.AwaitsAck.test (h : b.AwaitsAck xid) : b.test.HasAck xid := by
  rw [Bench.test, if_neg (ne_nil_of_replyType h.unread (by decide))]
  exact .copied h.state_eq _ rfl h.unread

/-- **A delivery** keeps an ACK, unless it overwrites it. -/
theorem Bench.HasAck.deliver (h : b.HasAck xid) {k : ℕ} (hspares : SparesAck xid b (.deliver k)) :
    (benchStep mac xid b (.deliver k)).1.HasAck xid := by
  unfold benchStep
  dsimp only
  split
  · next rbuf harrives =>
      cases h with
      | accepted hstate hworker => exact .accepted hstate hworker
      | copied hstate held hworker htype => exact .copied hstate held hworker htype
      | waiting hawaits hworker =>
          exact .waiting ⟨hawaits.state_eq, hspares hawaits rbuf harrives, hawaits.other⟩ hworker
  · exact h

/-- **A time-out** keeps an ACK, unless it is the last one. -/
theorem Bench.HasAck.timeout (h : b.HasAck xid) {sent : Bool}
    (hspares : SparesAck xid b (.timeout sent)) :
    (benchStep mac xid b (.timeout sent)).1.HasAck xid := by
  unfold benchStep
  dsimp only
  split_ifs with hblocked
  · cases h with
    | accepted _ hworker => rw [hworker] at hblocked; cases hblocked
    | copied _ _ hworker _ => rw [hworker] at hblocked; cases hblocked
    | waiting hawaits _ =>
        have hretry : ¬ b.retries + 1 ≥ maxRetries := Nat.not_le_of_lt (hspares hawaits hblocked)
        rw [Bench.timedOut, if_neg hretry]
        exact .waiting ⟨hawaits.state_eq, hawaits.unread, fun rbuf hw => by cases hw⟩ (Or.inl rfl)
  · exact h

/-- **The switch** accepts an ACK that was copied, and ignores what was copied before an
ACK that is still unread. -/
theorem Bench.HasAck.process (h : b.HasAck xid) (sent : Bool) :
    (benchStep mac xid b (.process sent)).1.HasAck xid := by
  unfold benchStep
  dsimp only
  split
  · next rbuf hholding =>
      have hcases := Bench.process_cases mac xid b rbuf sent
      cases h with
      | accepted _ hworker => rw [hworker] at hholding; cases hholding
      | copied hstate held hworker htype =>
          obtain rfl : held = rbuf := Worker.holding.inj (hworker.symm.trans hholding)
          obtain ⟨-, -, ⟨-, hother, -, -⟩ | ⟨hdiscover, -⟩ | ⟨-, hdone, hout⟩ | ⟨hnak, -, -⟩⟩ :=
            hcases
          · exact absurd hstate (hother htype)
          · rw [hstate] at hdiscover
            cases hdiscover
          · exact .accepted hdone hout
          · rw [htype] at hnak
            exact absurd hnak (by decide)
      | waiting hawaits hworker =>
          have hack := hawaits.other rbuf hholding
          have hnak : replyType xid rbuf ≠ dhcpNak := by
            obtain hw | hw | ⟨held, hw, hnak⟩ := hworker
            · rw [hw] at hholding; cases hholding
            · rw [hw] at hholding; cases hholding
            · obtain rfl : held = rbuf := Worker.holding.inj (hw.symm.trans hholding)
              exact hnak
          obtain ⟨hmailbox, -, ⟨-, -, hsame, hlocking⟩ | ⟨hdiscover, -⟩ | ⟨htype, -, -⟩ |
            ⟨htype, -, -⟩⟩ := hcases
          · refine .waiting ⟨hsame.trans hawaits.state_eq, ?_, fun rbuf hw => ?_⟩ (Or.inl hlocking)
            · rw [hmailbox]
              exact hawaits.unread
            · rw [hlocking] at hw
              cases hw
          · rw [hawaits.state_eq] at hdiscover
            cases hdiscover
          · exact absurd htype hack
          · exact absurd htype hnak
  · exact h

/-- **One step** that spares an unread ACK keeps it. -/
theorem Bench.HasAck.step (h : b.HasAck xid) {step : BenchStep} (hspares : SparesAck xid b step) :
    (benchStep mac xid b step).1.HasAck xid := by
  have htest : b.worker = .locking ∨ b.worker = .blocked → b.test.HasAck xid := by
    intro hidle
    cases h with
    | accepted _ hworker => simp [hworker] at hidle
    | copied _ _ hworker _ => simp [hworker] at hidle
    | waiting hawaits _ => exact hawaits.test
  cases step with
  | reply frame =>
      cases h with
      | accepted hstate hworker => exact .accepted hstate hworker
      | copied hstate rbuf hworker htype => exact .copied hstate rbuf hworker htype
      | waiting hawaits hworker =>
          exact .waiting ⟨hawaits.state_eq, hawaits.unread, hawaits.other⟩ hworker
  | deliver k => exact h.deliver hspares
  | start sent =>
      have hstarted : b.worker ≠ .starting := by
        intro hstarting
        cases h with
        | accepted _ hworker => simp [hworker] at hstarting
        | copied _ _ hworker _ => simp [hworker] at hstarting
        | waiting _ hworker => simp [hstarting] at hworker
      rw [benchStep, if_neg hstarted]
      exact h
  | lock =>
      unfold benchStep
      dsimp only
      split_ifs with hlocking
      · exact htest (Or.inl hlocking)
      · exact h
  | wake =>
      unfold benchStep
      dsimp only
      split_ifs with hblocked
      · exact htest (Or.inr hblocked)
      · exact h
  | timeout sent => exact h.timeout hspares
  | process sent => exact h.process sent

/-- An ACK that is delivered to a client in `STATE_REQUEST` is in its mailbox, and the
worker has no NAK if none was sent. -/
theorem Bench.Sourced.hasAck_deliver (h : b.Sourced xid) (hstate : b.state = .request) {k : ℕ}
    {rbuf : List UInt8} (harrives : b.replies[k]? >>= received xid = some rbuf)
    (hack : replyType xid rbuf = dhcpAck)
    (hnak : ∀ frame ∈ b.replies, ∀ r, received xid frame = some r → replyType xid r ≠ dhcpNak) :
    (benchStep mac xid b (.deliver k)).1.HasAck xid := by
  rw [benchStep, harrives]
  by_cases hcopied : ∃ held, b.worker = .holding held ∧ replyType xid held = dhcpAck
  · obtain ⟨held, hworker, htype⟩ := hcopied
    exact .copied hstate held hworker htype
  · refine .waiting ⟨hstate, hack, fun held hw htype => hcopied ⟨held, hw, htype⟩⟩ ?_
    obtain hw | hw | ⟨held, hw⟩ := h.working hstate
    · exact Or.inl hw
    · exact Or.inr (Or.inl hw)
    · obtain ⟨frame, hframe, hreceived⟩ := h.held held hw
      exact Or.inr (Or.inr ⟨held, hw, hnak frame hframe held hreceived⟩)

end Runs

/-! ## An exchange -/

section Exchange

variable {mac : Bytes 6} {xid : UInt32}

/-- A response of the server reaches the client whole, with its type. -/
theorem Answers.received_responseFrame {request response : DhcpMessage}
    (h : Answers request response) (mac : Bytes 6) :
    let frame := responseFrame mac (be16 0x800) (msgToHdr response).1
    received (htonl request.xid) frame = some frame ∧
      replyType (htonl request.xid) frame = dhcpGetMessageType response (fun _ => 0) := by
  intro frame
  have hlen : frame.length = minSendLen := length_responseFrame _
  have htake : frame.take recvLen = frame :=
    List.take_of_length_le (hlen.trans_le (by decide))
  have haccepted := fun m => h.responseFrame_accepted (holds_bytesAt frame) m
  refine ⟨?_, ?_⟩
  · have hxid : (parseXid (bytesAt frame) frame.length).2 = some (htonl request.xid) := by
      rw [hlen, (haccepted ⟨fun _ => 0, fun _ => 0, fun _ => 0, fun _ => 0, 0, 0, 0⟩).1]
    rw [received, htake, if_pos hxid]
  · rw [replyType, parsedReply, hlen]
    exact ((haccepted _).2 rfl).2.1

/-- The steps of a client up to the ACK for its REQUEST, which is sent while the worker is
blocked. -/
def stepsToAck (offer ack : List UInt8) : List BenchStep :=
  [.start true, .reply offer, .deliver 0, .lock, .process true, .reply ack, .lock]

/-- A second copy of the OFFER arrives before the worker wakes up, and then nothing more. -/
def stepsAfterAck : List BenchStep :=
  [.deliver 0, .wake, .process true, .lock, .timeout true, .lock, .timeout true, .lock,
    .timeout true]

variable {offer ack : List UInt8} (hoffer : received xid offer = some offer)
  (htype : replyType xid offer = dhcpOffer)

include hoffer htype

/-- The client after these steps. -/
theorem exec_stepsToAck (mac : Bytes 6) (ack : List UInt8) :
    exec (benchStep mac xid) (Bench.fresh mac xid) (stepsToAck offer ack) =
      { Bench.fresh mac xid with
        state := .request
        worker := .blocked
        bmeta :=
          { clientMac := mac, requestedIp := (parsedReply xid offer).offeredIp,
            serverIp := (parsedReply xid offer).serverIp, dhcpType := dhcpRequest, xid := xid }
        replies := [offer, ack] } := by
  have hne : offer ≠ [] := ne_nil_of_replyType htype (by decide)
  have hparsed : (parsedReply xid offer).dhcpType = dhcpOffer := htype
  simp [stepsToAck, Bench.fresh, benchStep, Bench.test, Bench.process, hoffer, hne, hparsed]

/-- **A late OFFER loses the ACK**, whatever the two replies are. -/
theorem late_offer_fails (hack : received xid ack = some ack) :
    (exec (benchStep mac xid) (exec (benchStep mac xid) (Bench.fresh mac xid)
      (stepsToAck offer ack)) (.deliver 1 :: stepsAfterAck)).state = .failed := by
  have hne : offer ≠ [] := ne_nil_of_replyType htype (by decide)
  have hparsed : (parsedReply xid offer).dhcpType = dhcpOffer := htype
  rw [exec_stepsToAck hoffer htype mac ack]
  simp [stepsAfterAck, Bench.fresh, benchStep, Bench.test, Bench.process, Bench.timedOut,
    maxRetries, hoffer, hack, hne, hparsed]

/-- **A time-out that comes with the ACK loses it.**  The third wait runs out, the ACK is
delivered before the worker has the lock again, and the worker does not look. -/
theorem late_timeout_fails (hack : received xid ack = some ack) :
    (exec (benchStep mac xid) (exec (benchStep mac xid) (Bench.fresh mac xid)
      (stepsToAck offer ack))
      [.timeout true, .lock, .timeout true, .lock, .deliver 1, .timeout true]).state = .failed := by
  rw [exec_stepsToAck hoffer htype mac ack]
  simp [Bench.fresh, benchStep, Bench.test, Bench.timedOut, maxRetries, hack]

end Exchange

/-- A request of client 7, as the server sees it. -/
def benchRequest : DhcpMessage := { DhcpMessage.zero with xid := htonl 7 }

/-- The two replies of a server to client 7. -/
def benchReplies : List UInt8 × List UInt8 :=
  let server := dhcpInitServerNprc 64 (poolConfig 100 103 10)
  (responseFrame (fun _ => 2) (be16 0x800) (msgToHdr (dhcpBuildOffer server benchRequest 100)).1,
    responseFrame (fun _ => 2) (be16 0x800) (msgToHdr (dhcpBuildAck server benchRequest 100)).1)

theorem benchReplies_spec :
    (received 7 benchReplies.1 = some benchReplies.1 ∧
        replyType 7 benchReplies.1 = dhcpOffer) ∧
      (received 7 benchReplies.2 = some benchReplies.2 ∧
        replyType 7 benchReplies.2 = dhcpAck) := by
  set server := dhcpInitServerNprc 64 (poolConfig 100 103 10) with hserver
  have hxid : htonl benchRequest.xid = 7 := be32_be32 7
  have hofferAnswers : Answers benchRequest (dhcpBuildOffer server benchRequest 100) :=
    answers_dhcpBuildOffer _ _
  have hackAnswers : Answers benchRequest (dhcpBuildAck server benchRequest 100) :=
    answers_dhcpBuildAck _ _
  have hoffer := hofferAnswers.received_responseFrame fun _ => 2
  have hack := hackAnswers.received_responseFrame fun _ => 2
  rw [hxid, dhcpGetMessageType_optionArea (dhcpBuildOffer_spec server benchRequest 100).1] at hoffer
  rw [hxid, dhcpGetMessageType_optionArea (dhcpBuildAck_spec server benchRequest 100).1] at hack
  exact ⟨hoffer, hack⟩

/-- Neither reply is a NAK. -/
theorem benchReplies_no_nak :
    ∀ frame ∈ [benchReplies.1, benchReplies.2], ∀ r, received 7 frame = some r →
      replyType 7 r ≠ dhcpNak := by
  obtain ⟨⟨hoffer, htype⟩, hack, htype'⟩ := benchReplies_spec
  intro frame hframe r hr
  obtain rfl | rfl := List.mem_pair.mp hframe
  · rw [← Option.some.inj (hoffer.symm.trans hr), htype]
    decide
  · rw [← Option.some.inj (hack.symm.trans hr), htype']
    decide

/-- **An ACK that is spared is not lost.**  Whatever the threads and the server did before
and do after: when a valid ACK is delivered to a client in `STATE_REQUEST` for which no NAK
was sent, the client never ends in `STATE_FAILED`, as long as no later step overwrites the
unread ACK by a frame of another type or gives up on the last time-out while it lies in the
mailbox. -/
theorem ack_not_lost (mac : Bytes 6) (xid : UInt32) (before after : List BenchStep) (k : ℕ)
    (rbuf : List UInt8) :
    let b := exec (benchStep mac xid) (Bench.fresh mac xid) before
    let delivered := (benchStep mac xid b (.deliver k)).1
    b.state = .request → b.replies[k]? >>= received xid = some rbuf →
      replyType xid rbuf = dhcpAck →
      (∀ frame ∈ b.replies, ∀ r, received xid frame = some r → replyType xid r ≠ dhcpNak) →
      Along (benchStep mac xid) (SparesAck xid) delivered after →
      (exec (benchStep mac xid) delivered after).state ≠ .failed := by
  intro b delivered hstate harrives hack hnak hspares
  have hdelivered : delivered.HasAck xid :=
    (Bench.sourced_exec before).hasAck_deliver hstate harrives hack hnak
  have hafter : (exec (benchStep mac xid) delivered after).HasAck xid :=
    exec_along (fun b : Bench => b.HasAck xid) (fun _ _ h hok => h.step hok) after delivered
      hdelivered hspares
  exact hafter.state_ne

/-- The worker wakes up and takes the ACK. -/
theorem ack_not_lost_undisturbed :
    let b := exec (benchStep (fun _ => 2) 7) (Bench.fresh (fun _ => 2) 7)
      (stepsToAck benchReplies.1 benchReplies.2)
    (exec (benchStep (fun _ => 2) 7) (benchStep (fun _ => 2) 7 b (.deliver 1)).1
      [.wake, .process true]).state ≠ .failed := by
  obtain ⟨⟨hoffer, htype⟩, hack, htype'⟩ := benchReplies_spec
  have hnak := benchReplies_no_nak
  generalize benchReplies.1 = offer at hoffer htype hnak ⊢
  generalize benchReplies.2 = ack at hack htype' hnak ⊢
  have hb := exec_stepsToAck hoffer htype (fun _ => 2) ack
  refine ack_not_lost (fun _ => 2) 7 (stepsToAck offer ack) [.wake, .process true] 1 ack ?_ ?_
    htype' ?_ ⟨trivial, trivial, trivial⟩
  · rw [hb]
  · rw [hb]
    simpa using hack
  · rw [hb]
    exact hnak

/-- The same exchange with a second copy of the OFFER behind the ACK, and with the ACK at the
end of the third wait: the ACK is delivered in `STATE_REQUEST`, no NAK was sent, and the
client fails. -/
theorem ack_lost :
    let b := exec (benchStep (fun _ => 2) 7) (Bench.fresh (fun _ => 2) 7)
      (stepsToAck benchReplies.1 benchReplies.2)
    b.state = .request ∧ b.replies[1]? >>= received 7 = some benchReplies.2 ∧
      replyType 7 benchReplies.2 = dhcpAck ∧
      (∀ frame ∈ b.replies, ∀ r, received 7 frame = some r → replyType 7 r ≠ dhcpNak) ∧
      (exec (benchStep (fun _ => 2) 7) b (.deliver 1 :: stepsAfterAck)).state = .failed ∧
      (exec (benchStep (fun _ => 2) 7) b
        [.timeout true, .lock, .timeout true, .lock, .deliver 1, .timeout true]).state =
          .failed := by
  intro b
  obtain ⟨⟨hoffer, htype⟩, hack, htype'⟩ := benchReplies_spec
  have hb : b = _ := exec_stepsToAck hoffer htype _ _
  refine ⟨?_, ?_, htype', ?_, late_offer_fails hoffer htype hack,
    late_timeout_fails hoffer htype hack⟩
  · rw [hb]
  · rw [hb]
    simpa using hack
  · rw [hb]
    exact benchReplies_no_nak

end BaremetalDhcp
