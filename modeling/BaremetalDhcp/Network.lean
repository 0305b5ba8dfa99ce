import Mathlib.Logic.Function.Basic
import BaremetalDhcp.ClientRun
import BaremetalDhcp.KernelRun
import BaremetalDhcp.LeaseOwnership

/-!
# Clients and kernel on one network

The kernel serves a network on which any number of benchmark clients live, together with other
machines.  A run of the network interleaves the steps of the clients with the turns of the
kernel in any order.

## Reading conventions

* A frame that a client has sent stays on the `wire`: the kernel may receive it late, more
  than once or never.  What it transmits is broadcast, and each client may receive it late,
  more than once or never (`BenchMailbox`).
* A turn of the kernel may find any frame at all in its buffer.  `Genuine` says what other
  machines do not do: use the transaction number of a client, or decline a lease in the name
  of a client.
* The output of a step is the message that the kernel handed to the library in it, with the
  answer; the outputs of a run are its *log*.

## Results

* `Net.Inv`, `Net.Inv.step` — every reply on the network is in the log, and every message of a
  client's transaction is one that the client has sent.
* `Net.Inv.done` — a client that finished has an address that the server offered to it and
  acknowledged to it.
* `history_netLog` — the log is a run of the library.
* `leasesOnce_of_keepsLeases` — on a server that keeps its leases, two clients that finished with
  the same address got it a lease time apart.
-/

namespace BaremetalDhcp

open Machine

/-! ## The network -/

/-- The server, the clients, and the frames that the clients have sent. -/
structure Net (P ι : Type) where
  server : DhcpServer P
  clients : ι → Bench
  wire : List (ι × BuildMeta)

/-- A step of a client's threads, or a turn of the kernel. -/
inductive NetStep (ι : Type) where
  | client (i : ι) (step : BenchStep)
  | serve (t : Turn)

/-- The step is the server's, not one of the client's threads. -/
def BenchStep.IsReply : BenchStep → Prop
  | .reply _ => True
  | _ => False

instance decidableIsReply (step : BenchStep) : Decidable step.IsReply :=
  match step with
  | .reply _ => isTrue trivial
  | .deliver _ | .start _ | .lock | .wake | .timeout _ | .process _ => isFalse id

/-- A message of the library and its answer. -/
abbrev LogEntry := Handover × Option DhcpMessage

/-- The message of an entry. -/
abbrev LogEntry.arrival (e : LogEntry) : Arrival := e.1.arrival

section Steps

variable {P ι : Type} [DecidableEq ι] (adapter : Adapter P) (mac : ι → Bytes 6)
  (xid : ι → UInt32)

/-- A network on which nothing has been sent yet. -/
def Net.fresh (server : DhcpServer P) : Net P ι where
  server := server
  clients := fun i => Bench.fresh (mac i) (xid i)
  wire := []

/-- Every client may receive a reply from now on. -/
def Net.broadcast (net : Net P ι) (reply : Option (List UInt8)) : Net P ι :=
  { net with
    clients := fun i =>
      match reply with
      | some frame => (benchStep (mac i) (xid i) (net.clients i) (.reply frame)).1
      | none => net.clients i }

/-- A client has moved on, and what it has sent is on the wire. -/
def Net.move (net : Net P ι) (i : ι) (done : Bench × Option SendCall) : Net P ι :=
  { net with
    clients := Function.update net.clients i done.1
    wire := net.wire ++ (sentBy done.2.toList).map fun m => (i, m) }

/-- One step. -/
def netStep (net : Net P ι) : NetStep ι → Net P ι × Option LogEntry
  | .client i step =>
      if step.IsReply then (net, none)
      else (net.move i (benchStep (mac i) (xid i) (net.clients i) step), none)
  | .serve t =>
      let done := kernelStep adapter net.server t
      ({ net with server := done.1 }.broadcast mac xid done.2,
        (handover adapter.handlesDecline t).map fun h =>
          (h, (processMessage adapter.calls net.server h.arrival).2))

/-- What the other machines on the network do not do.  A frame in a client's transaction is
one that the client has sent, and nobody declines a lease in a client's name. -/
structure Genuine (net : Net P ι) (t : Turn) : Prop where
  sent : ∀ i, (dhcpOf t.frameBuffer).xid = htonl (xid i) →
    ∃ m, (i, m) ∈ net.wire ∧ Holds t.frameBuffer 0 m.frameBytes
  keeps : ∀ h, handover adapter.handlesDecline t = some h →
    h.arrival.msgType = dhcpDecline → ∀ i, h.arrival.mac ≠ mac i

/-- The step is one of a client, or a turn on a genuine frame. -/
def GenuineStep (net : Net P ι) : NetStep ι → Prop
  | .client _ _ => True
  | .serve t => Genuine adapter mac xid net t

/-- The log of a run. -/
def netLog (net : Net P ι) (run : List (NetStep ι)) : List LogEntry :=
  emitted (netStep adapter mac xid) Option.toList net run

end Steps

/-! ## Frames of clients -/

section Frames

variable {t : Turn} {m : BuildMeta}

/-- What the library sees of a client's message. -/
structure Handover.Carries (h : Handover) (m : BuildMeta) : Prop where
  xid_eq : h.arrival.request.xid = htonl m.xid
  msgType_eq : h.arrival.msgType = m.dhcpType
  mac_eq : h.arrival.mac = m.clientMac
  requestedIp_eq : m.dhcpType = dhcpRequest →
    h.arrival.requestedIp = some (unpackIP m.requestedIp)

theorem arrivalOf_frameBytes_requestedIp (env : Surroundings) (hr : m.dhcpType = dhcpRequest) :
    (arrivalOf env m.dhcp dhcpLen).requestedIp = some (unpackIP m.requestedIp) := by
  refine optionWord_of_readOption ?_
  rw [arrivalOf, readOption_frameBytes _, BuildMeta.records, if_pos hr]
  rfl

/-- **A frame of a client is handed to the library** as what the client meant by it. -/
theorem handover_frameBytes (hold : Holds t.frameBuffer 0 m.frameBytes)
    (htype : m.dhcpType = dhcpDiscover ∨ m.dhcpType = dhcpRequest) (handlesDecline : Bool) :
    ∃ h, handover handlesDecline t = some h ∧ h.answered = true ∧ h.Carries m := by
  obtain ⟨hfor, hudp, hdhcp⟩ := loads_of_frameBytes hold
  have hlen : dhcpRequestLen (udpOf t.frameBuffer) = dhcpLen := by
    rw [udpOf, hudp]
    decide
  have hcarries : Handover.Carries ⟨arrivalOf t.env m.dhcp dhcpLen, true, t.env.mac⟩ m :=
    { xid_eq := rfl
      msgType_eq := dhcpGetMessageType_frameBytes _
      mac_eq := by
        funext i
        exact dif_pos i.isLt
      requestedIp_eq := arrivalOf_frameBytes_requestedIp t.env }
  refine ⟨_, ?_, rfl, hcarries⟩
  have hload : dhcpOf t.frameBuffer = m.dhcp := hdhcp
  simp only [handover, if_pos hfor, hlen, hload, processDHCPHdr_frameBytes]
  obtain hd | hr := htype
  · rw [if_pos hd]
  · have hne : m.dhcpType ≠ dhcpDiscover := by rw [hr]; decide
    rw [if_neg hne, if_pos hr]

/-- A frame of a client is genuine, as long as no other client has the same transaction. -/
theorem genuine_of_sent {P ι : Type} {adapter : Adapter P} {mac : ι → Bytes 6}
    {xid : ι → UInt32} (hinj : Function.Injective xid) {net : Net P ι} {i : ι}
    (hmem : (i, m) ∈ net.wire) (hxid : m.xid = xid i)
    (htype : m.dhcpType = dhcpDiscover ∨ m.dhcpType = dhcpRequest)
    (hold : Holds t.frameBuffer 0 m.frameBytes) : Genuine adapter mac xid net t where
  sent j hj := by
    have hload : dhcpOf t.frameBuffer = m.dhcp := (loads_of_frameBytes hold).2.2
    have hsame : xid i = xid j := by
      rw [hload] at hj
      have hswapped : htonl m.xid = htonl (xid j) := hj
      rw [hxid] at hswapped
      rw [← be32_be32 (xid i), ← be32_be32 (xid j)]
      exact congrArg be32 hswapped
    obtain rfl := hinj hsame
    exact ⟨m, hmem, hold⟩
  keeps h hover hdecline := by
    obtain ⟨h', hover', -, hcarries⟩ := handover_frameBytes hold htype adapter.handlesDecline
    obtain rfl : h = h' := Option.some.inj (hover.symm.trans hover')
    rw [hcarries.msgType_eq] at hdecline
    have hne : dhcpDiscover ≠ dhcpDecline := by decide
    have hne' : dhcpRequest ≠ dhcpDecline := by decide
    obtain hd | hr := htype
    · exact absurd (hd.symm.trans hdecline) hne
    · exact absurd (hr.symm.trans hdecline) hne'

end Frames

/-! ## The invariant -/

/-- What a client has on the wire. -/
def sentOf {ι : Type} [DecidableEq ι] (i : ι) (wire : List (ι × BuildMeta)) : List BuildMeta :=
  wire.filterMap fun p => if p.1 = i then some p.2 else none

section Wire

variable {ι : Type} [DecidableEq ι] {i j : ι} {wire : List (ι × BuildMeta)} {m : BuildMeta}

theorem mem_sentOf : m ∈ sentOf i wire ↔ (i, m) ∈ wire := by
  unfold sentOf
  rw [List.mem_filterMap]
  constructor
  · rintro ⟨⟨j, m'⟩, hmem, hsome⟩
    split_ifs at hsome with hj
    obtain rfl := Option.some.inj hsome
    obtain rfl : j = i := hj
    exact hmem
  · exact fun hmem => ⟨(i, m), hmem, if_pos rfl⟩

theorem sentOf_append (more : List (ι × BuildMeta)) :
    sentOf i (wire ++ more) = sentOf i wire ++ sentOf i more :=
  List.filterMap_append

@[simp] theorem sentOf_map_self (sent : List BuildMeta) :
    sentOf i (sent.map fun m => (i, m)) = sent := by
  unfold sentOf
  simp [List.filterMap_map]

theorem sentOf_map_of_ne (hne : j ≠ i) (sent : List BuildMeta) :
    sentOf j (sent.map fun m => (i, m)) = [] := by
  unfold sentOf
  simp [List.filterMap_map, hne.symm]

end Wire

section Moves

variable {P ι : Type} [DecidableEq ι] {net : Net P ι} {i j : ι}
  (done : Bench × Option SendCall)

@[simp] theorem clients_move_self : (net.move i done).clients i = done.1 :=
  Function.update_self ..

theorem clients_move_of_ne (hne : j ≠ i) : (net.move i done).clients j = net.clients j :=
  Function.update_of_ne hne ..

@[simp] theorem sentOf_move_self :
    sentOf i (net.move i done).wire = sentOf i net.wire ++ sentBy done.2.toList := by
  rw [Net.move, sentOf_append, sentOf_map_self]

theorem sentOf_move_of_ne (hne : j ≠ i) :
    sentOf j (net.move i done).wire = sentOf j net.wire := by
  rw [Net.move, sentOf_append, sentOf_map_of_ne hne, List.append_nil]

end Moves

section Broadcast

variable {P ι : Type} {net : Net P ι} {i : ι} {mac : ι → Bytes 6} {xid : ι → UInt32}
  {reply : Option (List UInt8)}

theorem mem_replies_broadcast {frame : List UInt8} :
    frame ∈ ((net.broadcast mac xid reply).clients i).replies ↔
      frame ∈ (net.clients i).replies ∨ reply = some frame := by
  cases reply with
  | none => exact (or_iff_left (by simp)).symm
  | some last =>
      rw [Option.some_inj, eq_comm, ← List.mem_singleton]
      exact List.mem_append

theorem sourced_broadcast (h : (net.clients i).Sourced (xid i)) :
    ((net.broadcast mac xid reply).clients i).Sourced (xid i) := by
  cases reply with
  | none => exact h
  | some frame => exact @Bench.Sourced.step (mac i) _ _ h (.reply frame)

theorem phase_broadcast {calls : List SendCall}
    (h : (net.clients i).Phase (mac i) (xid i) calls) :
    ((net.broadcast mac xid reply).clients i).Phase (mac i) (xid i) calls := by
  cases reply with
  | none => exact h
  | some frame => exact h.of_eq rfl rfl rfl rfl (List.subset_append_left _ _) Iff.rfl Iff.rfl

end Broadcast

/-- **The invariant of the network.**  Each client is in a phase of its exchange, and what it has
sent is on the wire; each reply that a client may receive answers a message in the log; and each
message in the log that is in a client's transaction was sent by the client. -/
structure Net.Inv {P ι : Type} [DecidableEq ι] (adapter : Adapter P) (mac : ι → Bytes 6)
    (xid : ι → UInt32) (net : Net P ι) (log : List LogEntry) : Prop where
  sourced : ∀ i, (net.clients i).Sourced (xid i)
  phase : ∀ i, ∃ calls, (net.clients i).Phase (mac i) (xid i) calls ∧
    sentOf i net.wire = sentBy calls
  replied : ∀ i, ∀ frame ∈ (net.clients i).replies, ∃ e ∈ log, e.1.frame e.2 = some frame
  answered : ∀ e ∈ log, ∃ server, e.2 = (processMessage adapter.calls server e.arrival).2
  sent : ∀ e ∈ log, ∀ i, e.arrival.request.xid = htonl (xid i) →
    ∃ m ∈ sentOf i net.wire, e.1.Carries m
  keeps : ∀ e ∈ log, e.arrival.msgType = dhcpDecline → ∀ i, e.arrival.mac ≠ mac i

section Invariant

variable {P ι : Type} [DecidableEq ι] {adapter : Adapter P} {mac : ι → Bytes 6}
  {xid : ι → UInt32} {net : Net P ι} {log : List LogEntry}

theorem Net.inv_fresh (server : DhcpServer P) :
    (Net.fresh mac xid server).Inv adapter mac xid [] where
  sourced _ := Bench.sourced_fresh
  phase _ := ⟨[], .starting rfl rfl rfl rfl rfl, rfl⟩
  replied _ _ hframe := absurd hframe List.not_mem_nil
  answered _ he := absurd he List.not_mem_nil
  sent _ he := absurd he List.not_mem_nil
  keeps _ he := absurd he List.not_mem_nil

/-- A step of a client that is not a reply leaves the replies alone. -/
theorem benchStep_replies {mac : Bytes 6} {xid : UInt32} {b : Bench} {step : BenchStep}
    (h : ¬ step.IsReply) : (benchStep mac xid b step).1.replies = b.replies := by
  have htest : b.test.replies = b.replies := by
    unfold Bench.test
    split_ifs <;> rfl
  cases step with
  | reply frame => exact absurd trivial h
  | deliver k =>
      unfold benchStep
      dsimp only
      split <;> rfl
  | start ok =>
      unfold benchStep
      dsimp only
      split_ifs <;> rfl
  | lock =>
      unfold benchStep
      dsimp only
      split_ifs
      · exact htest
      · rfl
  | wake =>
      unfold benchStep
      dsimp only
      split_ifs
      · exact htest
      · rfl
  | timeout ok =>
      unfold benchStep Bench.timedOut
      dsimp only
      split_ifs <;> rfl
  | process ok =>
      unfold benchStep
      dsimp only
      split
      · exact (Bench.process_cases mac xid b _ ok).2.1
      · rfl

/-- **A step of a client.** -/
theorem Net.Inv.client (h : net.Inv adapter mac xid log) (i : ι) {step : BenchStep}
    (hstep : ¬ step.IsReply) :
    (netStep adapter mac xid net (.client i step)).1.Inv adapter mac xid log := by
  simp only [netStep, if_neg hstep]
  have hothers : ∀ j, j = i ∨ j ≠ i := fun j => em (j = i)
  constructor
  case answered => exact h.answered
  case keeps => exact h.keeps
  case sourced =>
    intro j
    obtain rfl | hj := hothers j
    · rw [clients_move_self]
      exact (h.sourced j).step step
    · rw [clients_move_of_ne _ hj]
      exact h.sourced j
  case phase =>
    intro j
    obtain rfl | hj := hothers j
    · obtain ⟨calls, hphase, hsent⟩ := h.phase j
      rw [clients_move_self, sentOf_move_self, hsent, ← sentBy_append]
      exact ⟨_, hphase.step (h.sourced j) step, rfl⟩
    · rw [clients_move_of_ne _ hj, sentOf_move_of_ne _ hj]
      exact h.phase j
  case replied =>
    intro j frame hframe
    obtain rfl | hj := hothers j
    · rw [clients_move_self, benchStep_replies hstep] at hframe
      exact h.replied j frame hframe
    · rw [clients_move_of_ne _ hj] at hframe
      exact h.replied j frame hframe
  case sent =>
    intro e he j hxid
    obtain ⟨m, hm, hcarries⟩ := h.sent e he j hxid
    exact ⟨m, mem_sentOf.mpr (List.mem_append_left _ (mem_sentOf.mp hm)), hcarries⟩

/-- What a client has on the wire is its DISCOVER, or a REQUEST for an OFFER that it got. -/
theorem Net.Inv.mem_sent (h : net.Inv adapter mac xid log) {i : ι} {m : BuildMeta}
    (hm : m ∈ sentOf i net.wire) : m = discoverMeta (mac i) (xid i) ∨
      ∃ offer, m = requestMeta (mac i) (xid i) offer ∧
        (net.clients i).Got (xid i) dhcpOffer offer := by
  obtain ⟨calls, hphase, hsent⟩ := h.phase i
  rw [hsent] at hm
  exact hphase.mem_calls (mem_sentBy.mp hm)

theorem Net.Inv.type_of_mem (h : net.Inv adapter mac xid log) {i : ι} {m : BuildMeta}
    (hm : m ∈ sentOf i net.wire) : m.dhcpType = dhcpDiscover ∨ m.dhcpType = dhcpRequest := by
  obtain rfl | ⟨offer, rfl, -⟩ := h.mem_sent hm
  · exact Or.inl rfl
  · exact Or.inr rfl

/-- **A turn of the kernel** on a genuine frame. -/
theorem Net.Inv.serve (h : net.Inv adapter mac xid log) {t : Turn}
    (hgenuine : Genuine adapter mac xid net t) :
    (netStep adapter mac xid net (.serve t)).1.Inv adapter mac xid
      (log ++ (netStep adapter mac xid net (.serve t)).2.toList) := by
  simp only [netStep]
  cases hover : handover adapter.handlesDecline t with
  | none =>
      rw [kernelStep_of_none hover, Option.map_none, Option.toList_none, List.append_nil]
      exact h
  | some hand =>
      rw [kernelStep_of_some hover, Option.map_some, Option.toList_some]
      dsimp only
      generalize hr : (processMessage adapter.calls net.server hand.arrival).2 = response
      have hnew : ∀ {e : LogEntry} {Q : LogEntry → Prop}, (∀ e ∈ log, Q e) → Q (hand, response) →
          e ∈ log ++ [(hand, response)] → Q e := by
        intro e Q hold hlast he
        obtain he | he := List.mem_append.mp he
        · exact hold e he
        · rw [List.mem_singleton.mp he]
          exact hlast
      constructor
      case sourced => exact fun i => sourced_broadcast (h.sourced i)
      case phase =>
        intro i
        obtain ⟨calls, hphase, hsent⟩ := h.phase i
        exact ⟨calls, phase_broadcast hphase, hsent⟩
      case answered => exact fun e => hnew h.answered ⟨_, hr.symm⟩
      case keeps => exact fun e => hnew h.keeps (hgenuine.keeps hand hover)
      case replied =>
        intro i frame hframe
        obtain hframe | hframe := mem_replies_broadcast.mp hframe
        · obtain ⟨e, he, heq⟩ := h.replied i frame hframe
          exact ⟨e, List.mem_append_left _ he, heq⟩
        · exact ⟨_, List.mem_append_right _ (List.mem_singleton.mpr rfl), hframe⟩
      case sent =>
        refine fun e => hnew h.sent fun i hxid => ?_
        obtain ⟨m, hm, hold⟩ := hgenuine.sent i ((arrival_of_handover hover).1.symm.trans hxid)
        obtain ⟨hand', hover', -, hcarries⟩ := handover_frameBytes hold
          (h.type_of_mem (mem_sentOf.mpr hm)) adapter.handlesDecline
        obtain rfl : hand = hand' := Option.some.inj (hover.symm.trans hover')
        exact ⟨m, mem_sentOf.mpr hm, hcarries⟩

/-- **One step** on the network. -/
theorem Net.Inv.step (h : net.Inv adapter mac xid log) {step : NetStep ι}
    (hgenuine : GenuineStep adapter mac xid net step) :
    (netStep adapter mac xid net step).1.Inv adapter mac xid
      (log ++ (netStep adapter mac xid net step).2.toList) := by
  cases step with
  | serve t => exact h.serve hgenuine
  | client i step =>
      by_cases hreply : step.IsReply
      · rw [netStep, if_pos hreply, Option.toList_none, List.append_nil]
        exact h
      · have hsame : (netStep adapter mac xid net (.client i step)).2 = none := by
          rw [netStep, if_neg hreply]
        rw [hsame, Option.toList_none, List.append_nil]
        exact h.client i hreply

/-- **A whole run** of the network. -/
theorem Net.inv_exec (server : DhcpServer P) (run : List (NetStep ι))
    (hgenuine : Along (netStep adapter mac xid) (GenuineStep adapter mac xid)
      (Net.fresh mac xid server) run) :
    (exec (netStep adapter mac xid) (Net.fresh mac xid server) run).Inv adapter mac xid
      (netLog adapter mac xid (Net.fresh mac xid server) run) :=
  @exec_emitted_along _ _ _ _ _ Option.toList (fun net log => net.Inv adapter mac xid log) _
    (fun _ _ _ h hok => h.step hok) run _ [] (Net.inv_fresh server) hgenuine

/-! ## Where an address comes from -/

/-- The server has answered the client with the given MAC by a reply of the given type for the
address, at the given time. -/
def Answered (log : List LogEntry) (type : UInt8) (mac : Mac) (ip : UInt32) (time : ℕ) : Prop :=
  ∃ e ∈ log, IsReply type ip e.2 ∧ e.arrival.mac = mac ∧ e.arrival.curTime.toNat = time

/-- A frame of the kernel reaches only the client of its transaction, which reads the type and
the address of the library's answer in it. -/
theorem Answers.of_received {request response : DhcpMessage} (h : Answers request response)
    {mac : Bytes 6} {xid : UInt32} {rbuf : List UInt8}
    (hreceived : received xid (responseFrame mac (be16 0x800) (msgToHdr response).1) =
      some rbuf) :
    request.xid = htonl xid ∧
      replyType xid rbuf = dhcpGetMessageType response (fun _ => 0) ∧
      (parsedReply xid rbuf).offeredIp = packIP response.yiaddr := by
  set frame := responseFrame mac (be16 0x800) (msgToHdr response).1
  have hlen : frame.length = minSendLen := length_responseFrame _
  have htake : frame.take recvLen = frame :=
    List.take_of_length_le (hlen.trans_le (by decide))
  have haccepted := fun m => h.responseFrame_accepted (holds_bytesAt frame) m
  have hxid : (parseXid (bytesAt frame) frame.length).2 = some (htonl request.xid) := by
    rw [hlen, (haccepted ⟨fun _ => 0, fun _ => 0, fun _ => 0, fun _ => 0, 0, 0, 0⟩).1]
  unfold received at hreceived
  dsimp only at hreceived
  rw [htake] at hreceived
  split_ifs at hreceived with hmine
  obtain rfl := Option.some.inj hreceived
  obtain rfl := Option.some.inj (hxid.symm.trans hmine)
  refine ⟨(be32_be32 _).symm, ?_, ?_⟩
  · rw [replyType, parsedReply, hlen]
    exact ((haccepted _).2 rfl).2.1
  · rw [parsedReply, hlen]
    exact ((haccepted _).2 rfl).2.2

/-- **A reply that a client got** answers a message of this client, and shows the address that
the library has put into the answer. -/
theorem Net.Inv.got (h : net.Inv adapter mac xid log) {i : ι} {type : UInt8}
    {rbuf : List UInt8} (hgot : (net.clients i).Got (xid i) type rbuf) :
    ∃ e ∈ log, ∃ ip, IsReply type ip e.2 ∧ e.arrival.mac = mac i ∧
      (parsedReply (xid i) rbuf).offeredIp = packIP ip ∧
      ∃ m ∈ sentOf i net.wire, e.1.Carries m := by
  obtain ⟨⟨frame, hframe, hreceived⟩, htype⟩ := hgot
  obtain ⟨⟨hand, answer⟩, he, hsent⟩ := h.replied i frame hframe
  obtain ⟨server, hanswer⟩ := h.answered _ he
  unfold Handover.frame at hsent
  split_ifs at hsent
  obtain ⟨response, hresponse, rfl⟩ := Option.map_eq_some_iff.mp hsent
  dsimp only at hresponse hanswer
  subst hresponse
  have hanswers : Answers hand.arrival.request response := answers_of_processMessage hanswer.symm
  obtain ⟨hrequest, hreplyType, hoffered⟩ := hanswers.of_received hreceived
  obtain ⟨m, hm, hcarries⟩ := h.sent _ he i hrequest
  have hmac : m.clientMac = mac i := by
    obtain rfl | ⟨offer, rfl, -⟩ := h.mem_sent hm
    · rfl
    · rfl
  exact ⟨_, he, response.yiaddr, isReply_some.mpr ⟨hreplyType.symm.trans htype, rfl⟩,
    hcarries.mac_eq.trans hmac, hoffered, m, hm, hcarries⟩

/-- A finished client has the address that was offered to it and acknowledged to it. -/
theorem Net.Inv.done (h : net.Inv adapter mac xid log) {i : ι}
    (hdone : (net.clients i).state = .done) :
    ∃ ip, (net.clients i).assignedIp = packIP ip ∧
      (∃ offered, Answered log dhcpOffer (mac i) ip offered) ∧
      ∃ acked, Answered log dhcpAck (mac i) ip acked := by
  obtain ⟨calls, hphase, hsent⟩ := h.phase i
  obtain ⟨n, k, offer, hcalled, hended⟩ := hphase.exists_called
  cases hended (Or.inl hdone) with
  | refused _ hs => simp [hs] at hdone
  | gaveUp hs => simp [hs] at hdone
  | notSent _ hs => obtain ⟨hs, -⟩ | ⟨hs, -⟩ := hs <;> simp [hs] at hdone
  | acked ack _ hk hack hassigned =>
      obtain ⟨e, he, ip, hoffer, hmac, hoffered, -⟩ := h.got (hcalled.offered hk)
      obtain ⟨e', he', ip', hisAck, hmac', hacked, m, hm, hcarries⟩ := h.got hack
      obtain ⟨server, hanswer⟩ := h.answered e' he'
      have hcommitted := hisAck
      rw [hanswer] at hcommitted
      obtain ⟨htype, hip, -⟩ := isAck_processMessage_iff.mp hcommitted
      rw [hcarries.msgType_eq] at htype
      -- the only REQUEST of the client is for the address that was offered
      have hmeta : m = requestMeta (mac i) (xid i) offer := by
        rw [hsent] at hm
        obtain hd | ⟨-, hr⟩ := hcalled.mem (mem_sentBy.mp hm)
        · have hne : dhcpDiscover ≠ dhcpRequest := by decide
          obtain rfl : m = discoverMeta (mac i) (xid i) := hd
          exact absurd htype hne
        · exact hr
      have hsame : ip' = ip := by
        have hasked := Option.some.inj (hip.symm.trans (hcarries.requestedIp_eq htype))
        rw [hmeta, requestMeta, hoffered, unpackIP_packIP] at hasked
        exact hasked
      subst hsame
      exact ⟨ip', hassigned.trans hacked, ⟨_, e, he, hoffer, hmac, rfl⟩,
        _, e', he', hisAck, hmac', rfl⟩

end Invariant

/-! ## The log is a run of the library -/

section Log

variable {P ι : Type} [DecidableEq ι] {adapter : Adapter P} {mac : ι → Bytes 6}
  {xid : ι → UInt32}

/-- **One step** moves the server on by the message in its log entry, which has the answer to
it. -/
theorem netStep_log (net : Net P ι) (step : NetStep ι) :
    let done := netStep adapter mac xid net step
    done.1.server = exec (processMessage adapter.calls) net.server
        (done.2.toList.map LogEntry.arrival) ∧
      done.2.toList.map (fun e => (e.arrival, e.2)) =
        history (processMessage adapter.calls) net.server
          (done.2.toList.map LogEntry.arrival) := by
  intro done
  cases step with
  | client i step =>
      by_cases hreply : step.IsReply
      · simp only [done, netStep, if_pos hreply]
        exact ⟨rfl, rfl⟩
      · simp only [done, netStep, if_neg hreply]
        exact ⟨rfl, rfl⟩
  | serve t =>
      simp only [done, netStep]
      cases hover : handover adapter.handlesDecline t with
      | none =>
          rw [kernelStep_of_none hover]
          exact ⟨rfl, rfl⟩
      | some h =>
          rw [kernelStep_of_some hover]
          exact ⟨rfl, rfl⟩

/-- **The log is the history of the library** on the messages handed over, and the server is
where they lead. -/
theorem history_netLog (run : List (NetStep ι)) (net : Net P ι) :
    (exec (netStep adapter mac xid) net run).server = exec (processMessage adapter.calls)
        net.server ((netLog adapter mac xid net run).map LogEntry.arrival) ∧
      (netLog adapter mac xid net run).map (fun e => (e.arrival, e.2)) =
        history (processMessage adapter.calls) net.server
          ((netLog adapter mac xid net run).map LogEntry.arrival) := by
  induction run generalizing net with
  | nil => exact ⟨rfl, rfl⟩
  | cons step run ih =>
      obtain ⟨hserver, hlog⟩ := @netStep_log P ι _ adapter mac xid net step
      obtain ⟨hserver', hlog'⟩ := ih (netStep adapter mac xid net step).1
      unfold netLog at hserver' hlog' ⊢
      rw [hserver] at hserver' hlog'
      rw [emitted_cons, List.map_append, List.map_append, exec_append, history_append, hlog]
      exact ⟨hserver', congrArg _ hlog'⟩

/-- When a turn takes place. -/
def NetStep.micros : NetStep ι → Option ℕ
  | .client _ _ => none
  | .serve t => some t.env.micros

/-- The messages in the log arrive when the kernel takes its turns. -/
theorem times_netLog (run : List (NetStep ι)) (net : Net P ι) :
    ((netLog adapter mac xid net run).map fun e => e.arrival.curTime).Sublist
      ((run.filterMap NetStep.micros).map tsInSec) := by
  induction run generalizing net with
  | nil => exact List.Sublist.slnil
  | cons step run ih =>
      have hrest := ih (netStep adapter mac xid net step).1
      unfold netLog at hrest ⊢
      rw [emitted_cons, List.map_append]
      cases step with
      | client i step =>
          have hquiet : (netStep adapter mac xid net (.client i step)).2 = none := by
            rw [netStep]
            split_ifs <;> rfl
          rw [hquiet]
          exact hrest
      | serve t =>
          have hmicros : ((NetStep.serve t :: run : List (NetStep ι)).filterMap
              NetStep.micros).map tsInSec =
              tsInSec t.env.micros :: (run.filterMap NetStep.micros).map tsInSec := rfl
          rw [hmicros]
          cases hover : handover adapter.handlesDecline t with
          | none =>
              have hquiet : (netStep adapter mac xid net (.serve t)).2 = none := by
                rw [netStep, hover]
                rfl
              rw [hquiet]
              exact hrest.cons _
          | some h =>
              have htime : ((netStep adapter mac xid net (.serve t)).2.toList.map
                  fun e => e.arrival.curTime) = [tsInSec t.env.micros] := by
                rw [netStep, hover, ← (arrival_of_handover hover).2]
                rfl
              rw [htime]
              exact hrest.cons_cons _

/-- The kernel takes its turns one after the other, before its clock wraps for the first
time. -/
structure InFirstPeriod (run : List (NetStep ι)) : Prop where
  sorted : (run.filterMap NetStep.micros).Pairwise (· ≤ ·)
  early : ∀ micros ∈ run.filterMap NetStep.micros, micros < 2 ^ 32

theorem tsInSec_le {s t : ℕ} (hle : s ≤ t) (ht : t < 2 ^ 32) : tsInSec s ≤ tsInSec t := by
  rw [UInt32.le_iff_toNat_le, toNat_tsInSec, toNat_tsInSec, sinceWrap, sinceWrap,
    Nat.mod_eq_of_lt ht, Nat.mod_eq_of_lt (hle.trans_lt ht)]
  exact Nat.div_le_div_right hle

/-- In the first period the messages in the log come with nondecreasing times. -/
theorem InFirstPeriod.sorted_netLog {run : List (NetStep ι)} (h : InFirstPeriod run)
    (net : Net P ι) :
    ((netLog adapter mac xid net run).map LogEntry.arrival).Pairwise
      fun a b => a.curTime ≤ b.curTime := by
  rw [List.pairwise_map]
  refine List.pairwise_map.mp (List.Pairwise.sublist (times_netLog run net) ?_)
  rw [List.pairwise_map]
  exact h.sorted.imp_of_mem fun _ ht hle => tsInSec_le hle (h.early _ ht)

/-- **The acknowledgements in the log.**  On a server that keeps its leases, two clients are
acknowledged the same address a lease time apart. -/
theorem pairwise_netLog {server : DhcpServer P}
    (hkeeps : KeepsLeases (processMessage adapter.calls) server) {run : List (NetStep ι)}
    (hperiod : InFirstPeriod run) (hlease : server.config.leaseTime.toNat + 4294 < 2 ^ 32)
    (hinv : (exec (netStep adapter mac xid) (Net.fresh mac xid server) run).Inv adapter mac xid
      (netLog adapter mac xid (Net.fresh mac xid server) run)) :
    (netLog adapter mac xid (Net.fresh mac xid server) run).Pairwise fun e e' =>
      ∀ i x, e.arrival.mac = mac i → e'.arrival.mac ≠ mac i → IsAck x e.2 → IsAck x e'.2 →
        e.arrival.curTime.toNat + server.config.leaseTime.toNat ≤ e'.arrival.curTime.toNat := by
  set log := netLog adapter mac xid (Net.fresh mac xid server) run
  set arrivals := log.map LogEntry.arrival with harrivals
  have hsorted : arrivals.Pairwise fun a b => a.curTime ≤ b.curTime :=
    hperiod.sorted_netLog _
  have hfits : ∀ a ∈ arrivals, a.curTime.toNat + server.config.leaseTime.toNat < 2 ^ 32 := by
    intro a ha
    obtain ⟨e, he, rfl⟩ := List.mem_map.mp ha
    obtain ⟨micros, -, htime⟩ := List.mem_map.mp
      ((times_netLog run (Net.fresh mac xid server)).subset (List.mem_map_of_mem he))
    have hnow : (tsInSec micros).toNat ≤ 4294 := by
      have hlt : sinceWrap micros < 2 ^ 32 := Nat.mod_lt _ (by norm_num)
      rw [toNat_tsInSec]
      omega
    rw [htime] at hnow
    omega
  have hnoDecline : ∀ a ∈ arrivals, ∀ i, a.mac = mac i → a.msgType ≠ dhcpDecline := by
    intro a ha i hmac htype
    obtain ⟨e, he, rfl⟩ := List.mem_map.mp ha
    exact hinv.keeps e he htype i hmac
  have hpairs : (history (processMessage adapter.calls) server arrivals).Pairwise fun p q =>
      ∀ i x, p.1.mac = mac i → q.1.mac ≠ mac i → IsAck x p.2 → IsAck x q.2 →
        p.1.curTime.toNat + server.config.leaseTime.toNat ≤ q.1.curTime.toNat := by
    refine pairwise_history arrivals server fun before a between b hprefix => ?_
    intro i x hmac hother hack hack'
    by_contra hsoon
    have hin : ∀ c ∈ before ++ a :: between ++ [b], c ∈ arrivals := fun c hc =>
      hprefix.subset hc
    have hkept := hkeeps before between a b x (hsorted.sublist hprefix.sublist)
      (fun c hc => hfits c (hin c hc)) hack
      (fun c hc hc' => hnoDecline c (hin c (by simp [hc])) i (hc'.trans hmac))
      (Nat.lt_of_not_le hsoon)
    exact (hkept.2.2 (fun hb => hother (hb.trans hmac))).2 hack'
  rw [harrivals, ← show (Net.fresh mac xid server).server = server from rfl,
    ← (history_netLog run (Net.fresh mac xid server)).2, List.pairwise_map] at hpairs
  exact hpairs

/-- Two clients that finished with the same address were acknowledged it by the server at
times that are a lease time apart. -/
def NoDoubleLease (mac : ι → Bytes 6) (leaseTime : ℕ) (net : Net P ι) (log : List LogEntry) :
    Prop :=
  ∀ i j, mac i ≠ mac j → (net.clients i).state = .done → (net.clients j).state = .done →
    (net.clients i).assignedIp = (net.clients j).assignedIp →
    ∃ ip s t, (net.clients i).assignedIp = packIP ip ∧
      Answered log dhcpAck (mac i) ip s ∧ Answered log dhcpAck (mac j) ip t ∧
      (s + leaseTime ≤ t ∨ t + leaseTime ≤ s)

/-- As long as the other machines are genuine, no address is leased twice. -/
def LeasesOnce (adapter : Adapter P) (mac : ι → Bytes 6) (xid : ι → UInt32)
    (server : DhcpServer P) (run : List (NetStep ι)) : Prop :=
  Along (netStep adapter mac xid) (GenuineStep adapter mac xid) (Net.fresh mac xid server) run →
    NoDoubleLease mac server.config.leaseTime.toNat
      (exec (netStep adapter mac xid) (Net.fresh mac xid server) run)
      (netLog adapter mac xid (Net.fresh mac xid server) run)

theorem packIP_injective : Function.Injective packIP := by
  intro ip ip' h
  rw [← unpackIP_packIP ip, h, unpackIP_packIP]

/-- No address is leased twice on the network of a server that keeps its leases. -/
theorem leasesOnce_of_keepsLeases {server : DhcpServer P}
    (hkeeps : KeepsLeases (processMessage adapter.calls) server) {run : List (NetStep ι)}
    (hperiod : InFirstPeriod run) (hlease : server.config.leaseTime.toNat + 4294 < 2 ^ 32) :
    LeasesOnce adapter mac xid server run := by
  intro hgenuine i j hmacs hi hj hsame
  have hinv := Net.inv_exec server run hgenuine
  obtain ⟨ip, hip, -, _, e, he, hack, hmac, rfl⟩ := hinv.done hi
  obtain ⟨ip', hip', -, _, e', he', hack', hmac', rfl⟩ := hinv.done hj
  obtain rfl : ip' = ip := packIP_injective (hip'.symm.trans (hsame.symm.trans hip))
  have hne : e ≠ e' := by
    rintro rfl
    exact hmacs (hmac.symm.trans hmac')
  refine ⟨ip', _, _, hip, ⟨e, he, hack, hmac, rfl⟩, ⟨e', he', hack', hmac', rfl⟩, ?_⟩
  -- one of the two entries comes first
  obtain hfirst | hsecond :=
    rel_or_rel_of_pairwise (pairwise_netLog hkeeps hperiod hlease hinv) he he' hne
  · exact Or.inl (hfirst i ip' hmac (by rw [hmac']; exact hmacs.symm) hack hack')
  · exact Or.inr (hsecond j ip' hmac' (by rw [hmac]; exact hmacs) hack' hack)

end Log

end BaremetalDhcp
