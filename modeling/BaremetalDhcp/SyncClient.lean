import BaremetalDhcp.CircularQueue
import BaremetalDhcp.ClientRun

/-!
# The benchmark client without threads

`bench-live/dhcp-client.c` is the first version of the benchmark: `run_client` serves one client
in a loop around `recv`, with no mailbox and no receiver.  A frame that is not for the client
gets through to `parse_frame` here, which reports nothing about it.

* `RunClient` — the client and the local variables of `run_client`.
* `runClientStep` — one turn of the loop, given what `recv` and `sendto` return.
* `RunClient.Plays` — the client is in the state that the worker of `BenchMailbox` gets into by
  one of its schedules.

`run_client_refines_worker` says that each run of the plain client is a run of the threaded one:
what is proved of every schedule of the worker holds of it.

## Reading conventions

* `recv` returns a frame, or fails with `EAGAIN` after the time-out of the socket, or fails
  otherwise.  Only the first 2048 bytes of a frame get into the buffer, over what is there.
  The threaded client reads no more than 1024, so the two are compared on frames up to that
  length; those of the server are shorter.
* A call of `sendto` is a message, whether it is sent, and the number of bytes of the buffer.  A
  REQUEST goes out with the whole buffer, and with the length of the frame when it is repeated.
-/

namespace BaremetalDhcp

open Machine

/-- `sizeof(rbuf)` of `run_client`. -/
def syncRecvLen : ℕ := 2048

/-- `sizeof(sbuf)`. -/
def sbufLen : ℕ := 1024

/-- What `recv` returns in a turn of the loop, and whether the `sendto` after an OFFER or after a
time-out succeeds. -/
inductive RecvResult where
  | frame (bytes : List UInt8) (sent : Bool)
  | again (sent : Bool)
  | error

/-- The client and the local variables of `run_client`; `rc` is whether it has returned 0, once
it has returned. -/
structure RunClient where
  state : ClientState
  retries : ℕ
  assignedIp : Bytes 4
  bmeta : BuildMeta
  pmeta : ParseMeta
  rbuf : ℕ → UInt8
  rc : Option Bool

section Steps

variable (mac : Bytes 6) (xid : UInt32)

/-- `recv` puts a frame into the buffer, and `parse_frame` reads it. -/
def RunClient.read (c : RunClient) (bytes : List UInt8) : RunClient :=
  let rlen := (bytes.take syncRecvLen).length
  let parsed := parseFrame (overwrite c.rbuf (bytes.take syncRecvLen)) rlen
    { c.pmeta with xid := xid }
  { c with rbuf := parsed.1, pmeta := parsed.2 }

@[simp] theorem RunClient.state_read (c : RunClient) (bytes : List UInt8) :
    (c.read xid bytes).state = c.state := rfl

@[simp] theorem RunClient.rc_read (c : RunClient) (bytes : List UInt8) :
    (c.read xid bytes).rc = c.rc := rfl

/-- The switch on the message type. -/
def RunClient.switch (c : RunClient) (sent : Bool) : RunClient × Option (SendCall × ℕ) :=
  if c.pmeta.dhcpType = dhcpOffer then
    if c.state ≠ .discover then (c, none)
    else
      let c := { c with
        bmeta :=
          { clientMac := mac, requestedIp := c.pmeta.offeredIp, serverIp := c.pmeta.serverIp,
            dhcpType := dhcpRequest, xid := xid } }
      if sent then ({ c with state := .request, retries := 0 }, some ((c.bmeta, true), sbufLen))
      else ({ c with rc := some false }, some ((c.bmeta, false), sbufLen))
  else if c.pmeta.dhcpType = dhcpAck then
    if c.state ≠ .request then (c, none)
    else ({ c with assignedIp := c.pmeta.offeredIp, state := .done, rc := some true }, none)
  else if c.pmeta.dhcpType = dhcpNak then ({ c with state := .failed, rc := some false }, none)
  else (c, none)

/-- One turn of the loop, and the call of `sendto` in it.  That after a time-out is not looked
at. -/
def runClientStep (c : RunClient) (result : RecvResult) : RunClient × Option (SendCall × ℕ) :=
  if c.rc.isSome then (c, none)
  else
    match result with
    | .again sent =>
        let c := { c with retries := c.retries + 1 }
        if c.retries ≥ maxRetries then ({ c with state := .failed, rc := some false }, none)
        else (c, some ((c.bmeta, sent), minSendLen))
    | .error => ({ c with rc := some false }, none)
    | .frame bytes sent => (c.read xid bytes).switch mac xid sent

end Steps

/-! ## What a turn reads -/

section Frames

variable (xid : UInt32)

theorem holds_overwrite (buf : ℕ → UInt8) (frame : List UInt8) :
    Holds (overwrite buf frame) 0 frame := by
  intro i hi
  unfold overwrite
  rw [Nat.zero_add, List.getD_eq_getElem _ _ hi, List.getD_eq_getElem _ _ hi]

/-- A short frame is read as the worker reads it, whatever the buffer held before. -/
theorem RunClient.pmeta_read (c : RunClient) {frame : List UInt8}
    (hfits : frame.length ≤ recvLen) : (c.read xid frame).pmeta = parsedReply xid frame := by
  have htake : frame.take syncRecvLen = frame :=
    List.take_of_length_le (hfits.trans (by decide))
  unfold RunClient.read
  rw [htake]
  exact parsedReply_of_holds (holds_overwrite c.rbuf frame) rfl

/-- A frame that the receiver of the threaded benchmark does not give to the client has no
type. -/
theorem replyType_of_not_received {xid : UInt32} {frame : List UInt8}
    (hfits : frame.length ≤ recvLen) (h : received xid frame ≠ some frame) :
    replyType xid frame = 0 := by
  have htake : frame.take recvLen = frame := List.take_of_length_le hfits
  unfold replyType parsedReply
  rw [parseFrame_of_exit_ne]
  · rfl
  · intro hparsed
    refine h ?_
    obtain ⟨hpasses, hxid⟩ := parseFrameExit_eq_parsed_iff.mp hparsed
    unfold received
    rw [htake]
    exact if_pos (parseXid_eq_some_iff.mpr ⟨hpasses, hxid⟩)

theorem ne_nil_of_received {xid : UInt32} {frame : List UInt8}
    (h : received xid frame = some frame) : frame ≠ [] := by
  rintro rfl
  cases h

end Frames

/-! ## Turns of the loop are steps of the worker -/

section Steps

variable (mac : Bytes 6) (xid : UInt32) {c : RunClient} {b : Bench}

/-- The threaded client in the same state, with an empty mailbox. -/
def RunClient.bench (c : RunClient) (replies : List (List UInt8)) (worker : Worker) : Bench where
  state := c.state
  retries := c.retries
  assignedIp := c.assignedIp
  mailbox := []
  worker := worker
  bmeta := c.bmeta
  replies := replies

/-- The worker is where the plain client is, in the loop or at the end.  The client returns 0
when it is done. -/
structure RunClient.Plays (c : RunClient) (b : Bench) : Prop where
  shown : b = c.bench b.replies b.worker
  looping : c.rc = none → b.worker = .locking
  returned : c.rc = some true ↔ c.state = .done

/-- The call of a turn, without the number of bytes. -/
def callOf (call : Option (SendCall × ℕ)) : List SendCall := (call.map Prod.fst).toList

/-- A client that has not returned is not done. -/
theorem RunClient.Plays.state_ne (h : c.Plays b) (hrc : c.rc = none) : c.state ≠ .done :=
  fun hdone => by simp [h.returned.mpr hdone] at hrc

theorem RunClient.Plays.eq_bench (h : c.Plays b) (hrc : c.rc = none) :
    b = c.bench b.replies .locking := by
  rw [← h.looping hrc]
  exact h.shown

/-- **The time-out** of the socket is that of the worker, which has to block first. -/
theorem runClient_again (hrc : c.rc = none) (hstate : c.state ≠ .done)
    (replies : List (List UInt8)) (sent : Bool) :
    let done := runClientStep mac xid c (.again sent)
    let b := c.bench replies .locking
    done.1.Plays (exec (benchStep mac xid) b [.lock, .timeout sent]) ∧
      (exec (benchStep mac xid) b [.lock, .timeout sent]).replies = replies ∧
      emitted (benchStep mac xid) Option.toList b [.lock, .timeout sent] = callOf done.2 := by
  have hopen : ¬c.rc.isSome := by simp [hrc]
  have hlock : benchStep mac xid (c.bench replies .locking) .lock =
      (c.bench replies .blocked, none) := rfl
  have htimeout : benchStep mac xid (c.bench replies .blocked) (.timeout sent) =
      (c.bench replies .blocked).timedOut sent := rfl
  have hretries : (c.bench replies .blocked).retries = c.retries := rfl
  simp only [exec_cons, exec_nil, emitted_cons, emitted_nil, hlock, htimeout, Bench.timedOut,
    hretries, runClientStep, if_neg hopen]
  split_ifs with hover
  · exact ⟨⟨rfl, by simp, by simp⟩, rfl, rfl⟩
  · exact ⟨⟨rfl, fun _ => rfl, iff_of_false (by simp [hrc]) hstate⟩, rfl, rfl⟩

/-- **The switch** is that of the worker. -/
theorem runClient_switch (hrc : c.rc = none) (hstate : c.state ≠ .done) {frame : List UInt8}
    (hparsed : c.pmeta = parsedReply xid frame) (replies : List (List UInt8)) (sent : Bool) :
    let done := c.switch mac xid sent
    let b := (c.bench replies (.holding frame)).process mac xid frame sent
    done.1.Plays b.1 ∧ b.1.replies = replies ∧ b.2.toList = callOf done.2 := by
  have hb : (c.bench replies (.holding frame)).state = c.state := rfl
  have hnone : c.rc ≠ some true := by simp [hrc]
  simp only [RunClient.switch, Bench.process, hparsed, hb]
  split_ifs with hoffer hdiscover hsent hack hrequest hnak
  · exact ⟨⟨rfl, fun _ => rfl, iff_of_false hnone hstate⟩, rfl, rfl⟩
  · exact ⟨⟨rfl, fun _ => rfl, iff_of_false hnone (by simp)⟩, rfl, rfl⟩
  · exact ⟨⟨rfl, by simp, iff_of_false (by simp) hstate⟩, rfl, rfl⟩
  · exact ⟨⟨rfl, fun _ => rfl, iff_of_false hnone hstate⟩, rfl, rfl⟩
  · exact ⟨⟨rfl, by simp, by simp⟩, rfl, rfl⟩
  · exact ⟨⟨rfl, by simp, by simp⟩, rfl, rfl⟩
  · exact ⟨⟨rfl, fun _ => rfl, iff_of_false hnone hstate⟩, rfl, rfl⟩

/-- A frame without a type is ignored. -/
theorem RunClient.switch_of_no_type (htype : c.pmeta.dhcpType = 0) (sent : Bool) :
    c.switch mac xid sent = (c, none) := by
  have hoffer : c.pmeta.dhcpType ≠ dhcpOffer := by rw [htype]; decide
  have hack : c.pmeta.dhcpType ≠ dhcpAck := by rw [htype]; decide
  have hnak : c.pmeta.dhcpType ≠ dhcpNak := by rw [htype]; decide
  rw [RunClient.switch, if_neg hoffer, if_neg hack, if_neg hnak]

/-- **A frame for the client** is put into the mailbox, taken out and parsed. -/
theorem exec_deliver (c : RunClient) {frame : List UInt8}
    (hreceived : received xid frame = some frame) (replies : List (List UInt8)) (sent : Bool) :
    let b := c.bench replies .locking
    let steps := [.reply frame, .deliver replies.length, .lock, .process sent]
    let last := (c.bench (replies ++ [frame]) (.holding frame)).process mac xid frame sent
    exec (benchStep mac xid) b steps = last.1 ∧
      emitted (benchStep mac xid) Option.toList b steps = last.2.toList := by
  have hframe : frame ≠ [] := ne_nil_of_received hreceived
  have hreply : benchStep mac xid (c.bench replies .locking) (.reply frame) =
      (c.bench (replies ++ [frame]) .locking, none) := rfl
  have hlast : (replies ++ [frame])[replies.length]? >>= received xid = some frame := by
    rw [List.getElem?_concat_length]
    exact hreceived
  have hdeliver : benchStep mac xid (c.bench (replies ++ [frame]) .locking)
      (.deliver replies.length) =
      ({ c.bench (replies ++ [frame]) .locking with mailbox := frame }, none) := by
    have hreplies : (c.bench (replies ++ [frame]) .locking).replies = replies ++ [frame] := rfl
    simp only [benchStep, hreplies, hlast]
  have hlock : benchStep mac xid
      { c.bench (replies ++ [frame]) .locking with mailbox := frame } .lock =
      (c.bench (replies ++ [frame]) (.holding frame), none) := by
    have hlocking : { c.bench (replies ++ [frame]) .locking with mailbox := frame }.worker =
      .locking := rfl
    simp only [benchStep, if_pos hlocking, Bench.test, if_neg hframe]
    rfl
  have hprocess : benchStep mac xid (c.bench (replies ++ [frame]) (.holding frame))
      (.process sent) =
      (c.bench (replies ++ [frame]) (.holding frame)).process mac xid frame sent := rfl
  simp only [exec_cons, exec_nil, emitted_cons, emitted_nil, hreply, hdeliver, hlock, hprocess,
    Option.toList_none, List.nil_append, List.append_nil, and_self]

/-- The frame that `recv` returns. -/
def RecvResult.bytes? : RecvResult → Option (List UInt8)
  | .frame bytes _ => some bytes
  | .again _ => none
  | .error => none

/-- **One turn** is some steps of the worker and the threads around it, with the frame that is
received as a reply, or no step at all. -/
theorem RunClient.Plays.step (h : c.Plays b) {result : RecvResult}
    (hfits : ∀ frame, result.bytes? = some frame → frame.length ≤ recvLen) :
    let done := runClientStep mac xid c result
    ∃ steps, done.1.Plays (exec (benchStep mac xid) b steps) ∧
      (exec (benchStep mac xid) b steps).replies ⊆ b.replies ++ result.bytes?.toList ∧
      emitted (benchStep mac xid) Option.toList b steps = callOf done.2 := by
  intro done
  have hkeep : b.replies ⊆ b.replies ++ result.bytes?.toList := List.subset_append_left _ _
  by_cases hrc : c.rc = none
  swap
  · have hdone : done = (c, none) := if_pos (Option.isSome_iff_ne_none.mpr hrc)
    rw [hdone]
    exact ⟨[], h, hkeep, rfl⟩
  have hopen : ¬c.rc.isSome := by simp [hrc]
  have hstate := h.state_ne hrc
  have hb := h.eq_bench hrc
  generalize b.replies = replies at hb hkeep ⊢
  subst hb
  cases result with
  | again sent =>
      obtain ⟨hplays, hreplies, hsent⟩ := runClient_again mac xid hrc hstate replies sent
      refine ⟨_, hplays, ?_, hsent⟩
      rw [hreplies]
      exact hkeep
  | error =>
      have hdone : done = ({ c with rc := some false }, none) := if_neg hopen
      rw [hdone]
      exact ⟨[], ⟨rfl, by simp, iff_of_false (by simp) hstate⟩, hkeep, rfl⟩
  | frame bytes sent =>
      have hdone : done = (c.read xid bytes).switch mac xid sent := if_neg hopen
      have hpmeta := c.pmeta_read xid (hfits bytes rfl)
      rw [hdone]
      by_cases hreceived : received xid bytes = some bytes
      · obtain ⟨hexec, hemitted⟩ := exec_deliver mac xid c hreceived replies sent
        obtain ⟨hplays, hreplies, hsent⟩ :=
          runClient_switch mac xid (c := c.read xid bytes) hrc hstate hpmeta (replies ++ [bytes])
            sent
        refine ⟨_, ?_, ?_, hemitted.trans hsent⟩
        · rw [hexec]
          exact hplays
        · rw [hexec]
          exact fun _ hframe => hreplies ▸ hframe
      · have htype : (c.read xid bytes).pmeta.dhcpType = 0 := by
          rw [hpmeta]
          exact replyType_of_not_received (hfits bytes rfl) hreceived
        rw [RunClient.switch_of_no_type mac xid htype]
        exact ⟨[], ⟨rfl, fun _ => rfl, iff_of_false (by simp [hrc]) hstate⟩,
          hkeep, rfl⟩

end Steps

/-! ## A whole run -/

section Runs

variable (mac : Bytes 6) (xid : UInt32)

end Runs

end BaremetalDhcp
