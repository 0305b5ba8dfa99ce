import BaremetalDhcp.Network
import BaremetalDhcp.Workers

/-!
# The benchmark against the kernel

The threads of the benchmark share clients, a queue and a table; `Network` knows only clients
and a kernel.  This module says that the first is an implementation of the second.

* `Bench.hearing` — a client with some frames that it may receive.
* `Fleet.Moved.client` — what one step of the threads does to one client.
* `Benchmark` — the threads, the kernel, and the frames on the network between them.
* `benchmarkMapping` — the refinement mapping to the network of independent clients.
* `PassesApart` — the clients that pass have different addresses of the pool.

`fleet_client` is about one client, whatever the frames that arrive; `benchmark_refines_network`
is about all of them, with the kernel at the other end.
-/

namespace BaremetalDhcp

open Machine

/-! ## What a client hears -/

/-- The client, with other replies to receive. -/
def Bench.hearing (b : Bench) (replies : List (List UInt8)) : Bench :=
  { b with replies := replies }

@[simp] theorem worker_hearing (b : Bench) (replies : List (List UInt8)) :
    (b.hearing replies).worker = b.worker := rfl

/-- The switch does not look at the replies that have not been received. -/
theorem process_hearing (mac : Bytes 6) (xid : UInt32) (b : Bench)
    (replies : List (List UInt8)) (rbuf : List UInt8) (ok : Bool) :
    (b.hearing replies).process mac xid rbuf ok =
      ((b.process mac xid rbuf ok).1.hearing replies, (b.process mac xid rbuf ok).2) := by
  have hstate : (b.hearing replies).state = b.state := rfl
  simp only [Bench.process, hstate]
  split_ifs <;> rfl

/-- A worker does not look at the replies that have not been received. -/
theorem benchStep_hearing {mac : Bytes 6} {xid : UInt32} {b : Bench} {step : BenchStep}
    (h : step.IsWorkers) (replies : List (List UInt8)) :
    benchStep mac xid (b.hearing replies) step =
      ((benchStep mac xid b step).1.hearing replies, (benchStep mac xid b step).2) := by
  have htest : (b.hearing replies).test = b.test.hearing replies := by
    have hmailbox : (b.hearing replies).mailbox = b.mailbox := rfl
    simp only [Bench.test, hmailbox]
    split_ifs <;> rfl
  have htimedOut : ∀ ok, (b.hearing replies).timedOut ok =
      ((b.timedOut ok).1.hearing replies, (b.timedOut ok).2) := by
    intro ok
    have hretries : (b.hearing replies).retries = b.retries := rfl
    simp only [Bench.timedOut, hretries]
    split_ifs <;> rfl
  cases step with
  | reply | deliver => exact h.elim
  | start ok =>
      by_cases hw : b.worker = .starting
      · have hw' : (b.hearing replies).worker = .starting := hw
        simp only [benchStep, if_pos hw, if_pos hw']
        cases ok <;> rfl
      · have hw' : (b.hearing replies).worker ≠ .starting := hw
        simp only [benchStep, if_neg hw, if_neg hw']
  | lock =>
      simp only [benchStep, worker_hearing, htest]
      split_ifs <;> rfl
  | wake =>
      simp only [benchStep, worker_hearing, htest]
      split_ifs <;> rfl
  | timeout ok =>
      simp only [benchStep, worker_hearing, htimedOut]
      split_ifs <;> rfl
  | process ok =>
      simp only [benchStep, worker_hearing]
      split
      · exact process_hearing mac xid b replies _ ok
      · rfl

/-- A delivery puts a frame that the client has heard into its mailbox. -/
theorem benchStep_deliver {mac : Bytes 6} {xid : UInt32} {replies : List (List UInt8)}
    {k : ℕ} {rbuf : List UInt8} (h : replies[k]? >>= received xid = some rbuf) (b : Bench) :
    benchStep mac xid (b.hearing replies) (.deliver k) =
      ({ b with mailbox := rbuf }.hearing replies, none) := by
  have hreplies : (b.hearing replies).replies = replies := rfl
  simp only [benchStep, hreplies, h]
  rfl

/-- A frame that is there can be delivered. -/
theorem exists_deliver {xid : UInt32} {replies : List (List UInt8)} {rbuf : List UInt8}
    (h : ∃ frame ∈ replies, received xid frame = some rbuf) :
    ∃ k : ℕ, replies[k]? >>= received xid = some rbuf := by
  obtain ⟨frame, hframe, hreceived⟩ := h
  obtain ⟨k, hk⟩ := List.mem_iff_getElem?.mp hframe
  exact ⟨k, by rw [hk]; exact hreceived⟩

/-! ## One client -/

section Client

variable {n W : ℕ} {r : Roster n W} {f : Fleet n W} {taken : List (Fin n)}
  {step : FleetStep W} {done : Fleet n W × Option (FleetEvent n)}

/-- A call for another client. -/
theorem callsFor_called (i j : Fin n) (call : Option SendCall) :
    callsFor i (call.map (.called j)) = if j = i then call.toList else [] := by
  cases call with
  | none =>
      split_ifs <;> rfl
  | some call => rfl

/-- **What a step of the threads is for one client**: a step of its worker, a delivery of a
frame that it has heard, or nothing. -/
theorem Fleet.Moved.client (hmoved : f.Moved r taken step done)
    (hstages : f.Stages r taken) (i : Fin n) {replies : List (List UInt8)}
    (hheard : ∀ rbuf, f.receiver = some (.client i, rbuf) →
      ∃ frame ∈ replies, received (r.xid i) frame = some rbuf) :
    ∃ steps, exec (benchStep (r.mac i) (r.xid i)) ((f.clients i).hearing replies) steps =
        (done.1.clients i).hearing replies ∧
      emitted (benchStep (r.mac i) (r.xid i)) Option.toList ((f.clients i).hearing replies)
        steps = callsFor i done.2 := by
  cases hmoved with
  | stays | returns | takes | inserts | removes | receives => exact ⟨[], rfl, rfl⟩
  | clears w j has =>
      refine ⟨[], ?_, rfl⟩
      obtain rfl | hne := eq_or_ne i j
      · -- the mailbox was empty
        have hfresh := hstages.untouched i (Or.inr ⟨w, Or.inl has⟩)
        show _ = ((f.put i { f.clients i with mailbox := [] }).clients i).hearing replies
        rw [clients_put_self, hfresh]
        rfl
      · exact congrArg (Bench.hearing · replies) (clients_put_of_ne hne _).symm
  | works w j step has own =>
      rw [callsFor_called]
      obtain rfl | hne := eq_or_ne j i
      · refine ⟨[step], ?_, ?_⟩
        · rw [exec_cons, exec_nil, benchStep_hearing own]
          exact congrArg (Bench.hearing · replies) (clients_put_self _).symm
        · rw [emitted_cons, emitted_nil, List.append_nil, benchStep_hearing own, if_pos rfl]
      · refine ⟨[], ?_, (if_neg hne).symm⟩
        exact congrArg (Bench.hearing · replies) (clients_put_of_ne hne.symm _).symm
  | delivers j rbuf has =>
      obtain rfl | hne := eq_or_ne j i
      · obtain ⟨k, hk⟩ := exists_deliver (hheard rbuf has)
        refine ⟨[.deliver k], ?_, ?_⟩
        · rw [exec_cons, exec_nil, benchStep_deliver hk]
          exact congrArg (Bench.hearing · replies) (clients_put_self _).symm
        · rw [emitted_cons, emitted_nil, benchStep_deliver hk]
          rfl
      · refine ⟨[], ?_, rfl⟩
        exact congrArg (Bench.hearing · replies) (clients_put_of_ne hne.symm _).symm

end Client

section Runs

variable {n W : ℕ}

/-- The frames that are received in a run. -/
def framesIn (run : List (FleetStep W)) : List (List UInt8) := run.filterMap FleetStep.frame

/-- The calls of `sendto` that have been made for a client. -/
def callsIn (r : Roster n W) (prior : Cq) (priorTab : XidTab (Fin n)) (i : Fin n)
    (run : List (FleetStep W)) : List SendCall :=
  emitted (fleetStep r) (callsFor i) (fleetInit r prior priorTab) run

variable {r : Roster n W} {f : Fleet n W} {taken : List (Fin n)} {step : FleetStep W}
  {done : Fleet n W × Option (FleetEvent n)}

/-- The receiver has one of the frames that it has received, when it has a frame for a client. -/
theorem Fleet.Moved.heard (hmoved : f.Moved r taken step done) (hstages : f.Stages r taken)
    {i : Fin n} {frames : List (List UInt8)}
    (hheard : ∀ rbuf, f.receiver = some (.client i, rbuf) →
      ∃ frame ∈ frames, received (r.xid i) frame = some rbuf) {rbuf : List UInt8}
    (hreceiver : done.1.receiver = some (.client i, rbuf)) :
    ∃ frame ∈ frames ++ step.frame.toList, received (r.xid i) frame = some rbuf := by
  have hkeep : f.receiver = some (.client i, rbuf) →
      ∃ frame ∈ frames ++ step.frame.toList, received (r.xid i) frame = some rbuf := by
    intro hold
    obtain ⟨frame, hframe, hreceived⟩ := hheard rbuf hold
    exact ⟨frame, List.mem_append_left _ hframe, hreceived⟩
  cases hmoved with
  | stays | returns | takes | clears | inserts | works | removes => exact hkeep hreceiver
  | delivers => cases hreceiver
  | receives frame x free hasXid found =>
      obtain ⟨hp, rfl⟩ := Prod.mk.inj (Option.some.inj hreceiver)
      obtain hnull | ⟨j, v, hj, rfl, -⟩ := hstages.lookup_cases x
      · exact absurd hnull found
      · obtain rfl := ClientPtr.client.inj (hj.symm.trans hp)
        exact ⟨frame, List.mem_append_right _ (List.mem_singleton.mpr rfl), hasXid⟩

/-- Frames that arrive are heard. -/
theorem exec_reply (mac : Bytes 6) (xid : UInt32) (b : Bench) (replies : List (List UInt8))
    (frame : Option (List UInt8)) :
    let steps := frame.toList.map BenchStep.reply
    exec (benchStep mac xid) (b.hearing replies) steps = b.hearing (replies ++ frame.toList) ∧
      emitted (benchStep mac xid) Option.toList (b.hearing replies) steps = [] := by
  cases frame with
  | none => exact ⟨by rw [Option.toList_none, List.append_nil]; rfl, rfl⟩
  | some frame => exact ⟨rfl, rfl⟩

/-- What the threads have done to one client is what one worker and one receiver can do to a
client that hears the same frames. -/
structure Fleet.Follows (r : Roster n W) (prior : Cq) (priorTab : XidTab (Fin n))
    (run : List (FleetStep W)) (i : Fin n) : Prop where
  client : ∃ steps, exec (benchStep (r.mac i) (r.xid i)) (Bench.fresh (r.mac i) (r.xid i))
        steps = ((fleetAfter r prior priorTab run).clients i).hearing (framesIn run) ∧
      emitted (benchStep (r.mac i) (r.xid i)) Option.toList
        (Bench.fresh (r.mac i) (r.xid i)) steps = callsIn r prior priorTab i run
  heard : ∀ rbuf, (fleetAfter r prior priorTab run).receiver = some (.client i, rbuf) →
    ∃ frame ∈ framesIn run, received (r.xid i) frame = some rbuf

theorem fleet_follows (r : Roster n W) (prior : Cq) (priorTab : XidTab (Fin n))
    (run : List (FleetStep W)) (i : Fin n) : Fleet.Follows r prior priorTab run i := by
  -- by the last step, because the invariants are about the state before it
  induction run using List.reverseRecOn with
  | nil => exact ⟨⟨[], rfl, rfl⟩, fun _ h => by cases h⟩
  | append_singleton run step ih =>
      obtain ⟨⟨steps, hexec, hemitted⟩, hheard⟩ := ih
      obtain ⟨hdispatch, hstages⟩ := fleet_inv r prior priorTab run
      have hmoved := hdispatch.moved step
      have hafter : fleetAfter r prior priorTab (run ++ [step]) =
          (fleetStep r (fleetAfter r prior priorTab run) step).1 := by
        unfold fleetAfter
        rw [exec_append]
        rfl
      have hframes : framesIn (run ++ [step]) = framesIn run ++ step.frame.toList := by
        unfold framesIn
        rw [List.filterMap_append]
        cases h : step.frame <;> simp [h]
      have hsent : callsIn r prior priorTab i (run ++ [step]) =
          callsIn r prior priorTab i run ++
            callsFor i (fleetStep r (fleetAfter r prior priorTab run) step).2 := by
        unfold callsIn
        rw [emitted_append, emitted_cons, emitted_nil, List.append_nil]
        rfl
      obtain ⟨more, hmore, hemore⟩ := hmoved.client hstages i hheard
      obtain ⟨hreply, hnone⟩ := exec_reply (r.mac i) (r.xid i)
        ((fleetStep r (fleetAfter r prior priorTab run) step).1.clients i) (framesIn run) step.frame
      constructor
      case client =>
        rw [hafter, hframes, hsent]
        refine ⟨steps ++ (more ++ step.frame.toList.map BenchStep.reply), ?_, ?_⟩
        · rw [exec_append, exec_append, hexec, hmore, hreply]
        · rw [emitted_append, emitted_append, hemitted, hexec, hmore, hemore, hnone,
            List.append_nil]
      case heard =>
        intro rbuf hreceiver
        rw [hafter] at hreceiver
        rw [hframes]
        exact hmoved.heard hstages hheard hreceiver

/-- **A client of the benchmark is a client of the mailbox.**  Whatever the order of the steps
of all the threads, and whatever frames arrive: what the threads do to one client, and what they
try to send for it, is what one worker and one receiver can do to a client that hears the same
frames. -/
theorem fleet_client (r : Roster n W) (prior : Cq) (priorTab : XidTab (Fin n))
    (run : List (FleetStep W)) (i : Fin n) :
    ∃ steps, exec (benchStep (r.mac i) (r.xid i)) (Bench.fresh (r.mac i) (r.xid i)) steps =
        ((fleetAfter r prior priorTab run).clients i).hearing (framesIn run) ∧
      emitted (benchStep (r.mac i) (r.xid i)) Option.toList
        (Bench.fresh (r.mac i) (r.xid i)) steps = callsIn r prior priorTab i run :=
  (fleet_follows r prior priorTab run i).client

end Runs

/-! ## All clients, and the kernel -/

/-- The threads of the benchmark and the kernel, what the clients have sent, and what the
kernel has transmitted. -/
structure Benchmark (P : Type) (n W : ℕ) where
  server : DhcpServer P
  fleet : Fleet n W
  wire : List (Fin n × BuildMeta)
  air : List (List UInt8)

/-- A step of a thread, the `k`-th transmission arriving in `recv`, or a turn of the kernel. -/
inductive BenchmarkStep (W : ℕ) where
  | thread (step : FleetStep W)
  | hear (k : ℕ)
  | serve (t : Turn)

section System

variable {P : Type} {n W : ℕ} (adapter : Adapter P) (r : Roster n W)

/-- The threads have moved on, and what they have sent is on the wire. -/
def Benchmark.move (b : Benchmark P n W) (done : Fleet n W × Option (FleetEvent n)) :
    Benchmark P n W :=
  { b with
    fleet := done.1
    wire := b.wire ++
      match done.2 with
      | some (.called i call) => (sentBy [call]).map fun m => (i, m)
      | _ => [] }

/-- One step.  A frame arrives only by `hear`. -/
def benchmarkStep (b : Benchmark P n W) :
    BenchmarkStep W → Benchmark P n W × Option LogEntry
  | .thread (.receive _) => (b, none)
  | .thread step => (b.move (fleetStep r b.fleet step), none)
  | .hear k =>
      match b.air[k]? with
      | some frame => (b.move (fleetStep r b.fleet (.receive frame)), none)
      | none => (b, none)
  | .serve t =>
      let done := kernelStep adapter b.server t
      ({ b with server := done.1, air := b.air ++ done.2.toList },
        (handover adapter.handlesDecline t).map fun h =>
          (h, (processMessage adapter.calls b.server h.arrival).2))

/-- The benchmark before its first thread starts. -/
def Benchmark.init (server : DhcpServer P) (prior : Cq) (priorTab : XidTab (Fin n)) :
    Benchmark P n W where
  server := server
  fleet := fleetInit r prior priorTab
  wire := []
  air := []

/-- What the network is like, if the clients are taken for independent machines. -/
def Benchmark.toNet (b : Benchmark P n W) : Net P (Fin n) where
  server := b.server
  clients i := (b.fleet.clients i).hearing b.air
  wire := b.wire

/-- What a step is on that network. -/
def Benchmark.feed (b : Benchmark P n W) : BenchmarkStep W → List (NetStep (Fin n))
  | .serve t => [.serve t]
  | .thread (.work w step) =>
      match b.fleet.posts w with
      | .serving i => if step.IsWorkers then [.client i step] else []
      | _ => []
  | .thread .deliver =>
      match b.fleet.receiver with
      | some (.client i, rbuf) =>
          [.client i (.deliver (b.air.findIdx fun frame => received (r.xid i) frame = some rbuf))]
      | _ => []
  | _ => []

/-- The invariants of the threads; and the receiver has a transmission of the kernel when it
has a frame for a client. -/
def Benchmark.Inv (b : Benchmark P n W) : Prop :=
  ∃ taken, b.fleet.Dispatch r taken ∧ b.fleet.Stages r taken ∧
    ∀ i rbuf, b.fleet.receiver = some (.client i, rbuf) →
      ∃ frame ∈ b.air, received (r.xid i) frame = some rbuf

end System

section Refinement

variable {P : Type} {n W : ℕ} {adapter : Adapter P} {r : Roster n W} {b : Benchmark P n W}

theorem benchmark_inv_init (server : DhcpServer P) (prior : Cq) (priorTab : XidTab (Fin n)) :
    (Benchmark.init r server prior priorTab).Inv r :=
  ⟨[], fleetInit_dispatch prior priorTab, fleetInit_stages prior priorTab,
    fun _ _ h => by cases h⟩

/-- A step of the threads on frames of the kernel. -/
theorem Benchmark.Inv.move (h : b.Inv r) {step : FleetStep W}
    (hframe : ∀ frame ∈ step.frame.toList, frame ∈ b.air) :
    (b.move (fleetStep r b.fleet step)).Inv r := by
  obtain ⟨taken, hdispatch, hstages, hheard⟩ := h
  have hmoved := hdispatch.moved step
  refine ⟨_, hdispatch.step hmoved, hstages.step hdispatch hmoved, fun i rbuf hreceiver => ?_⟩
  obtain ⟨frame, hmem, hreceived⟩ := hmoved.heard hstages (hheard i) hreceiver
  obtain hmem | hmem := List.mem_append.mp hmem
  · exact ⟨frame, hmem, hreceived⟩
  · exact ⟨frame, hframe frame hmem, hreceived⟩

theorem Benchmark.Inv.step (h : b.Inv r) (step : BenchmarkStep W) :
    (benchmarkStep adapter r b step).1.Inv r := by
  cases step with
  | thread step =>
      cases step with
      | receive frame => exact h
      | pop | clear | insert | work | remove | deliver =>
          exact h.move fun _ hframe => absurd hframe List.not_mem_nil
  | hear k =>
      simp only [benchmarkStep]
      split
      · next frame hk =>
          refine h.move fun frame' hframe => ?_
          obtain rfl := List.mem_singleton.mp hframe
          exact List.mem_of_getElem? hk
      · exact h
  | serve t =>
      obtain ⟨taken, hdispatch, hstages, hheard⟩ := h
      refine ⟨taken, hdispatch, hstages, fun i rbuf hreceiver => ?_⟩
      obtain ⟨frame, hframe, hreceived⟩ := hheard i rbuf hreceiver
      exact ⟨frame, List.mem_append_left _ hframe, hreceived⟩

/-- The network does not see a step that leaves the clients as they were. -/
theorem toNet_move_of_quiet {done : Fleet n W × Option (FleetEvent n)}
    (hclients : done.1.clients = b.fleet.clients) (hquiet : ∀ i m, done.2 ≠ some (.called i m)) :
    (b.move done).toNet = b.toNet := by
  have hwire : (b.move done).wire = b.wire := by
    obtain ⟨f, _ | _ | ⟨i, m⟩⟩ := done
    · exact List.append_nil _
    · exact List.append_nil _
    · exact absurd rfl (hquiet i m)
  unfold Benchmark.toNet
  rw [hwire]
  simp only [Benchmark.move, hclients]

/-- The clients of the network, when the data of one of them change. -/
theorem hearing_put (f : Fleet n W) (i : Fin n) (c : Bench) (air : List (List UInt8)) :
    (fun j => ((f.put i c).clients j).hearing air) =
      Function.update (fun j => (f.clients j).hearing air) i (c.hearing air) := by
  funext j
  obtain rfl | hne := eq_or_ne j i
  · rw [clients_put_self, Function.update_self]
  · rw [clients_put_of_ne hne, Function.update_of_ne hne]

/-- A client moves on, as a step of the network. -/
theorem toNet_move_put (i : Fin n) {step : BenchStep} (hown : ¬ step.IsReply)
    {done : Bench × Option SendCall} (receiver : Option (ClientPtr (Fin n) × List UInt8))
    (hstep : benchStep (r.mac i) (r.xid i) ((b.fleet.clients i).hearing b.air) step =
      (done.1.hearing b.air, done.2)) :
    netStep adapter r.mac r.xid b.toNet (.client i step) =
      ((b.move ({ b.fleet.put i done.1 with receiver := receiver },
        done.2.map (.called i))).toNet, none) := by
  have hclient : b.toNet.clients i = (b.fleet.clients i).hearing b.air := rfl
  rw [netStep, if_neg hown, hclient, hstep]
  obtain ⟨c, call⟩ := done
  have hclients := hearing_put b.fleet i c b.air
  have hnet : b.toNet.move i (c.hearing b.air, call) =
      (b.move ({ b.fleet.put i c with receiver := receiver }, call.map (.called i))).toNet := by
    unfold Net.move Benchmark.toNet Benchmark.move
    simp only [hclients]
    cases call <;> rfl
  rw [hnet]

theorem BenchStep.IsWorkers.not_isReply {step : BenchStep} (h : step.IsWorkers) :
    ¬ step.IsReply := by
  cases step with
  | reply => exact h.elim
  | deliver | start | lock | wake | timeout | process => exact id

/-- The frame that the receiver has can be found among those that were transmitted. -/
theorem deliver_findIdx {xid : UInt32} {air : List (List UInt8)} {rbuf : List UInt8}
    (h : ∃ frame ∈ air, received xid frame = some rbuf) :
    air[air.findIdx fun frame => received xid frame = some rbuf]? >>= received xid =
      some rbuf := by
  obtain ⟨frame, hframe, hreceived⟩ := h
  have hlt : (air.findIdx fun frame => received xid frame = some rbuf) < air.length :=
    List.findIdx_lt_length_of_exists ⟨frame, hframe, decide_eq_true hreceived⟩
  have hfound := @List.findIdx_getElem _ (fun frame => decide (received xid frame = some rbuf))
    air hlt
  rw [List.getElem?_eq_getElem hlt]
  exact of_decide_eq_true hfound

/-- What the threads do is what some steps of the network do. -/
theorem Benchmark.Inv.proj_thread (h : b.Inv r) {step : FleetStep W}
    (hstep : step.frame = none) :
    (b.move (fleetStep r b.fleet step)).toNet =
        exec (netStep adapter r.mac r.xid) b.toNet (b.feed r (.thread step)) ∧
      emitted (netStep adapter r.mac r.xid) Option.toList b.toNet (b.feed r (.thread step)) =
        [] := by
  obtain ⟨taken, hdispatch, hstages, hheard⟩ := h
  have hmoved := hdispatch.moved step
  cases step with
  | receive frame => cases hstep
  | pop w garbage =>
      refine ⟨?_, rfl⟩
      generalize fleetStep r b.fleet (.pop w garbage) = done at hmoved ⊢
      cases hmoved with
      | stays | returns | takes => exact toNet_move_of_quiet rfl (by simp)
  | clear w =>
      refine ⟨?_, rfl⟩
      generalize fleetStep r b.fleet (.clear w) = done at hmoved ⊢
      cases hmoved with
      | stays => exact toNet_move_of_quiet rfl (by simp)
      | clears w i has =>
          refine toNet_move_of_quiet ?_ (by simp)
          funext j
          obtain rfl | hne := eq_or_ne j i
          · -- the mailbox was empty
            have hfresh := hstages.untouched j (Or.inr ⟨w, Or.inl has⟩)
            refine (clients_put_self _).trans ?_
            rw [hfresh]
            rfl
          · exact clients_put_of_ne hne _
  | insert w =>
      refine ⟨?_, rfl⟩
      generalize fleetStep r b.fleet (.insert w) = done at hmoved ⊢
      cases hmoved with
      | stays | inserts => exact toNet_move_of_quiet rfl (by simp)
  | remove w =>
      refine ⟨?_, rfl⟩
      generalize fleetStep r b.fleet (.remove w) = done at hmoved ⊢
      cases hmoved with
      | stays | removes => exact toNet_move_of_quiet rfl (by simp)
  | work w step =>
      have hquiet : (b.move (b.fleet, none)).toNet = b.toNet :=
        toNet_move_of_quiet rfl (by simp)
      simp only [fleetStep, Benchmark.feed]
      cases hpost : b.fleet.posts w with
      | idle | popped | cleared | returned | wild => exact ⟨hquiet, rfl⟩
      | serving i =>
          dsimp only
          split_ifs with hown
          · have hnet := @toNet_move_put _ _ _ adapter r b i step hown.not_isReply _
              b.fleet.receiver (benchStep_hearing hown b.air)
            rw [exec_cons, exec_nil, emitted_cons, emitted_nil, hnet]
            exact ⟨rfl, rfl⟩
          · exact ⟨hquiet, rfl⟩
  | deliver =>
      have hquiet : (b.move (b.fleet, none)).toNet = b.toNet :=
        toNet_move_of_quiet rfl (by simp)
      simp only [fleetStep, Benchmark.feed]
      rcases hreceiver : b.fleet.receiver with _ | ⟨_ | i | x, rbuf⟩
      · exact ⟨hquiet, rfl⟩
      · exact ⟨hquiet, rfl⟩
      · have hstep := @benchStep_deliver (r.mac i) _ _ _ _
          (deliver_findIdx (hheard i rbuf hreceiver)) (b.fleet.clients i)
        have hnet := @toNet_move_put _ _ _ adapter r b i _ id
          ({ b.fleet.clients i with mailbox := rbuf }, none) none hstep
        rw [exec_cons, exec_nil, emitted_cons, emitted_nil, hnet]
        exact ⟨rfl, rfl⟩
      · exact ⟨hquiet, rfl⟩

/-- A turn of the kernel is one. -/
theorem toNet_serve (b : Benchmark P n W) (t : Turn) :
    netStep adapter r.mac r.xid b.toNet (.serve t) =
      ((benchmarkStep adapter r b (.serve t)).1.toNet,
        (benchmarkStep adapter r b (.serve t)).2) := by
  have hserver : b.toNet.server = b.server := rfl
  simp only [netStep, benchmarkStep, hserver]
  unfold Net.broadcast Benchmark.toNet
  cases (kernelStep adapter b.server t).2 with
  | none => simp only [Option.toList_none, List.append_nil]
  | some frame => rfl

/-- **One step** of the benchmark is what some steps of the network do, with the same messages
for the kernel. -/
theorem Benchmark.Inv.proj (h : b.Inv r) (step : BenchmarkStep W) :
    (benchmarkStep adapter r b step).1.toNet =
        exec (netStep adapter r.mac r.xid) b.toNet (b.feed r step) ∧
      (benchmarkStep adapter r b step).2.toList =
        emitted (netStep adapter r.mac r.xid) Option.toList b.toNet (b.feed r step) := by
  cases step with
  | thread step =>
      cases step with
      | receive frame => exact ⟨rfl, rfl⟩
      | pop | clear | insert | work | remove | deliver =>
          exact ⟨(h.proj_thread rfl).1, (h.proj_thread rfl).2.symm⟩
  | hear k =>
      obtain ⟨taken, hdispatch, -, -⟩ := h
      simp only [benchmarkStep, Benchmark.feed]
      split
      · next frame hk =>
          refine ⟨?_, rfl⟩
          have hmoved := hdispatch.moved (.receive frame)
          generalize fleetStep r b.fleet (.receive frame) = done at hmoved ⊢
          cases hmoved with
          | stays | receives => exact toNet_move_of_quiet rfl (by simp)
      · exact ⟨rfl, rfl⟩
  | serve t =>
      simp only [Benchmark.feed]
      rw [exec_cons, exec_nil, emitted_cons, emitted_nil, List.append_nil, toNet_serve]
      exact ⟨rfl, rfl⟩

/-- **The refinement mapping.** -/
def benchmarkMapping (adapter : Adapter P) (r : Roster n W) :
    Mapping (benchmarkStep adapter r) (netStep adapter r.mac r.xid) (Benchmark.Inv r) where
  proj := Benchmark.toNet
  feed := Benchmark.feed r
  inv_step _ step h := h.step step
  proj_step _ step h := (h.proj step).1

/-- The frame of a turn is genuine on the network of the clients. -/
def GenuineTurn (adapter : Adapter P) (r : Roster n W) (b : Benchmark P n W) :
    BenchmarkStep W → Prop
  | .serve t => Genuine adapter r.mac r.xid b.toNet t
  | .thread _ | .hear _ => True

theorem along_feed {b : Benchmark P n W} {step : BenchmarkStep W}
    (h : GenuineTurn adapter r b step) :
    Along (netStep adapter r.mac r.xid) (GenuineStep adapter r.mac r.xid) b.toNet
      (b.feed r step) := by
  cases step with
  | serve t => exact ⟨h, trivial⟩
  | hear k => trivial
  | thread step =>
      cases step with
      | pop | clear | insert | remove | receive => trivial
      | work w step =>
          simp only [Benchmark.feed]
          split
          · split_ifs
            · exact ⟨trivial, trivial⟩
            · trivial
          · trivial
      | deliver =>
          simp only [Benchmark.feed]
          split
          · exact ⟨trivial, trivial⟩
          · trivial

/-- When a turn takes place. -/
def BenchmarkStep.micros : BenchmarkStep W → Option ℕ
  | .serve t => some t.env.micros
  | .thread _ | .hear _ => none

/-- The turns of the kernel are the same in both runs. -/
theorem filterMap_micros_feed (b : Benchmark P n W) (step : BenchmarkStep W) :
    (b.feed r step).filterMap NetStep.micros = step.micros.toList := by
  cases step with
  | serve t => rfl
  | hear k => rfl
  | thread step =>
      cases step with
      | pop | clear | insert | remove | receive => rfl
      | work w step =>
          simp only [Benchmark.feed]
          split
          · split_ifs <;> rfl
          · rfl
      | deliver =>
          simp only [Benchmark.feed]
          split <;> rfl

theorem filterMap_micros_inputsOf (run : List (BenchmarkStep W)) (b : Benchmark P n W) :
    (inputsOf (benchmarkStep adapter r) (Benchmark.feed r) b run).filterMap NetStep.micros =
      run.filterMap BenchmarkStep.micros := by
  induction run generalizing b with
  | nil => rfl
  | cons step run ih =>
      rw [inputsOf_cons, List.filterMap_append, ih, filterMap_micros_feed]
      cases h : step.micros <;> simp [h]

/-- The messages that the kernel hands to the library in a run, with the answers. -/
def benchmarkLog (adapter : Adapter P) (r : Roster n W) (b : Benchmark P n W)
    (run : List (BenchmarkStep W)) : List LogEntry :=
  emitted (benchmarkStep adapter r) Option.toList b run

end Refinement

section Runs

variable {P : Type} {n W : ℕ} (adapter : Adapter P) (r : Roster n W) (server : DhcpServer P)
  (prior : Cq) (priorTab : XidTab (Fin n)) (run : List (BenchmarkStep W))

/-- The benchmark after a run from its start. -/
def benchmarkAfter : Benchmark P n W :=
  exec (benchmarkStep adapter r) (Benchmark.init r server prior priorTab) run

/-- The run of the network that a run of the benchmark shows. -/
def netRunOf : List (NetStep (Fin n)) :=
  inputsOf (benchmarkStep adapter r) (Benchmark.feed r) (Benchmark.init r server prior priorTab)
    run

theorem toNet_benchmarkAfter :
    (benchmarkAfter adapter r server prior priorTab run).toNet =
      exec (netStep adapter r.mac r.xid) (Net.fresh r.mac r.xid server)
        (netRunOf adapter r server prior priorTab run) :=
  (benchmarkMapping adapter r).proj_exec run _ (benchmark_inv_init server prior priorTab)

theorem micros_netRunOf :
    (netRunOf adapter r server prior priorTab run).filterMap NetStep.micros =
      run.filterMap BenchmarkStep.micros :=
  filterMap_micros_inputsOf run _

variable {adapter r server prior priorTab run}

theorem along_netRunOf
    (h : Along (benchmarkStep adapter r) (GenuineTurn adapter r)
      (Benchmark.init r server prior priorTab) run) :
    Along (netStep adapter r.mac r.xid) (GenuineStep adapter r.mac r.xid)
      (Net.fresh r.mac r.xid server) (netRunOf adapter r server prior priorTab run) :=
  (benchmarkMapping adapter r).along (fun _ _ _ => along_feed) run _
    (benchmark_inv_init server prior priorTab) h

variable (adapter r server prior priorTab run)

/-- **The threads implement independent clients.**  Every run of the benchmark against the
kernel looks to the network like a run of as many independent clients: with the same states of
the clients and of the server, the same messages handed to the library and the same answers,
and turns of the kernel at the same times.  The frames are genuine there if they are here. -/
theorem benchmark_refines_network :
    ∃ netRun : List (NetStep (Fin n)),
      (benchmarkAfter adapter r server prior priorTab run).toNet =
          exec (netStep adapter r.mac r.xid) (Net.fresh r.mac r.xid server) netRun ∧
        benchmarkLog adapter r (Benchmark.init r server prior priorTab) run =
          netLog adapter r.mac r.xid (Net.fresh r.mac r.xid server) netRun ∧
        netRun.filterMap NetStep.micros = run.filterMap BenchmarkStep.micros ∧
        (Along (benchmarkStep adapter r) (GenuineTurn adapter r)
            (Benchmark.init r server prior priorTab) run →
          Along (netStep adapter r.mac r.xid) (GenuineStep adapter r.mac r.xid)
            (Net.fresh r.mac r.xid server) netRun) :=
  ⟨netRunOf adapter r server prior priorTab run,
    toNet_benchmarkAfter adapter r server prior priorTab run,
    (benchmarkMapping adapter r).emitted_eq (fun _ step h => (h.proj step).2) run _
      (benchmark_inv_init server prior priorTab),
    micros_netRunOf adapter r server prior priorTab run, along_netRunOf⟩

end Runs

/-! ## The clients that passed -/

/-- In every run of the library, a REQUEST is acknowledged only for an address of the pool. -/
def AcksInPool {P : Type} (adapter : Adapter P) (server : DhcpServer P) : Prop :=
  ∀ before a x, IsAck x
    (processMessage adapter.calls (exec (processMessage adapter.calls) server before) a).2 →
      InPool server.config.poolStart server.config.poolEnd x

/-- An implementation of the abstract pool keeps to its addresses. -/
theorem LeaseOps.Refines.inPool_of_isAck {P : Type} {ops : LeaseOps P} {batch : ℕ∞}
    {Rep : P → LeasePool → Prop} (href : ops.Refines batch Rep) {server : DhcpServer P}
    {q : LeasePool} (hrep : Rep server.pool q) (run : List Arrival) {a : Arrival} {x : UInt32}
    (hack : IsAck x (processMessage ops.calls (exec (processMessage ops.calls) server run) a).2) :
    InPool server.config.poolStart server.config.poolEnd x := by
  obtain ⟨hconfig, -⟩ := href.implements hrep run
  obtain ⟨-, -, hgranted⟩ := isAck_processMessage_iff.mp hack
  rw [← hconfig]
  by_contra hout
  rw [ops.calls_request_of_not_inPool hout] at hgranted
  cases hgranted

/-- Every address that the log says was acknowledged is one of the pool. -/
theorem inPool_of_answered {P ι : Type} [DecidableEq ι] {adapter : Adapter P}
    {mac : ι → Bytes 6} {xid : ι → UInt32} {server : DhcpServer P}
    (hpool : AcksInPool adapter server) (run : List (NetStep ι)) {mac' : Mac} {ip : UInt32}
    {time : ℕ}
    (h : Answered (netLog adapter mac xid (Net.fresh mac xid server) run) dhcpAck mac' ip
      time) : InPool server.config.poolStart server.config.poolEnd ip := by
  obtain ⟨e, he, hack, -⟩ := h
  have hmem := List.mem_map_of_mem (f := fun e : LogEntry => (e.arrival, e.2)) he
  rw [(history_netLog run (Net.fresh mac xid server)).2] at hmem
  obtain ⟨before, after, -, hanswer⟩ := (mem_history_iff _ _).mp hmem
  rw [← hanswer] at hack
  exact hpool before e.arrival ip hack

/-- The number of clients that `main` counts as `passed`. -/
def passed {n W : ℕ} (f : Fleet n W) : ℕ :=
  ((List.finRange n).filter fun i => (f.clients i).state = .done).length

/-- The kernel takes its turns one after the other, and at each of them it has been up for less
than a lease time and its clock has not wrapped. -/
structure Brief {W : ℕ} (leaseTime : ℕ) (run : List (BenchmarkStep W)) : Prop where
  sorted : (run.filterMap BenchmarkStep.micros).Pairwise (· ≤ ·)
  early : ∀ micros ∈ run.filterMap BenchmarkStep.micros, micros < 2 ^ 32
  brief : ∀ micros ∈ run.filterMap BenchmarkStep.micros, micros < 1000000 * leaseTime

/-- The clients that passed have different addresses, all of the pool. -/
structure Fleet.Leased {n W : ℕ} (f : Fleet n W) (poolStart poolEnd : UInt32) : Prop where
  inPool : ∀ i, (f.clients i).state = .done →
    InPool poolStart poolEnd (unpackIP (f.clients i).assignedIp)
  distinct : ∀ i j, (f.clients i).state = .done → (f.clients j).state = .done →
    (f.clients i).assignedIp = (f.clients j).assignedIp → i = j

theorem unpackIP_injective : Function.Injective unpackIP := by
  intro p q h
  refine List.ofFn_injective ?_
  rw [← uint32ToIp_unpackIP, ← uint32ToIp_unpackIP, h]

/-- No more clients pass than there are addresses. -/
theorem Fleet.Leased.passed_le {n W : ℕ} {f : Fleet n W} {poolStart poolEnd : UInt32}
    (h : f.Leased poolStart poolEnd) : passed f ≤ poolEnd.toNat + 1 - poolStart.toNat := by
  have hdone : ∀ {i}, i ∈ (List.finRange n).filter (fun i => (f.clients i).state = .done) →
      (f.clients i).state = .done := fun hi => of_decide_eq_true (List.mem_filter.mp hi).2
  -- the addresses of the clients, as numbers, one after the other
  set ips := ((List.finRange n).filter fun i => (f.clients i).state = .done).map fun i =>
    (unpackIP (f.clients i).assignedIp).toNat with hips
  have hnodup : ips.Nodup := by
    refine List.Nodup.map_on (fun i hi j hj hsame => ?_) ((List.nodup_finRange n).filter _)
    exact h.distinct i j (hdone hi) (hdone hj)
      (unpackIP_injective (UInt32.toNat_inj.mp hsame))
  have hsubset : ips ⊆ List.range' poolStart.toNat (poolEnd.toNat + 1 - poolStart.toNat) := by
    intro x hx
    obtain ⟨i, hi, rfl⟩ := List.mem_map.mp hx
    obtain ⟨hlow, hhigh⟩ := h.inPool i (hdone hi)
    rw [UInt32.le_iff_toNat_le] at hlow hhigh
    rw [List.mem_range'_1]
    omega
  have hlength := (hnodup.subperm hsubset).length_le
  rwa [List.length_range', hips, List.length_map] at hlength

section Passed

variable {P : Type} {n W : ℕ} {adapter : Adapter P} {r : Roster n W} {server : DhcpServer P}
  {prior : Cq} {priorTab : XidTab (Fin n)} {run : List (BenchmarkStep W)}

/-- In a brief run every answer is given before the first lease time is over. -/
theorem Answered.time_lt {netRun : List (NetStep (Fin n))} {start : Net P (Fin n)}
    {type : UInt8} {mac : Mac} {ip : UInt32} {time leaseTime : ℕ}
    (h : Answered (netLog adapter r.mac r.xid start netRun) type mac ip time)
    (hmicros : netRun.filterMap NetStep.micros = run.filterMap BenchmarkStep.micros)
    (hbrief : Brief leaseTime run) : time < leaseTime := by
  obtain ⟨e, he, -, -, rfl⟩ := h
  obtain ⟨micros, hmem, htime⟩ := List.mem_map.mp
    ((times_netLog netRun start).subset (List.mem_map_of_mem he))
  rw [hmicros] at hmem
  rw [← htime, toNat_tsInSec, sinceWrap, Nat.mod_eq_of_lt (hbrief.early micros hmem)]
  exact Nat.div_lt_of_lt_mul (hbrief.brief micros hmem)

/-- The clients that pass have different addresses, with a server that keeps its leases and
acknowledges addresses of its pool only. -/
theorem leased_of_keepsLeases (hmac : Function.Injective r.mac)
    (hkeeps : KeepsLeases (processMessage adapter.calls) server)
    (hpool : AcksInPool adapter server)
    (hlease : server.config.leaseTime.toNat + 4294 < 2 ^ 32)
    (hbrief : Brief server.config.leaseTime.toNat run)
    (hgenuine : Along (benchmarkStep adapter r) (GenuineTurn adapter r)
      (Benchmark.init r server prior priorTab) run) :
    (benchmarkAfter adapter r server prior priorTab run).fleet.Leased server.config.poolStart
      server.config.poolEnd := by
  set netRun := netRunOf adapter r server prior priorTab run
  have hnet := toNet_benchmarkAfter adapter r server prior priorTab run
  have hmicros := micros_netRunOf adapter r server prior priorTab run
  have halong := along_netRunOf hgenuine
  have hperiod : InFirstPeriod netRun := by
    refine ⟨?_, ?_⟩
    · rw [hmicros]
      exact hbrief.sorted
    · rw [hmicros]
      exact hbrief.early
  have honce := leasesOnce_of_keepsLeases hkeeps hperiod hlease halong
  have hinv := Net.inv_exec server netRun halong
  rw [← hnet] at honce hinv
  constructor
  case inPool =>
    intro i hi
    obtain ⟨ip, hip, -, acked, hacked⟩ := hinv.done (i := i) hi
    have hassigned : ((benchmarkAfter adapter r server prior priorTab run).fleet.clients
        i).assignedIp = packIP ip := hip
    rw [hassigned, unpackIP_packIP]
    exact inPool_of_answered hpool netRun hacked
  case distinct =>
    intro i j hi hj hsame
    by_contra hij
    obtain ⟨ip, s, t, -, hs, ht, happart⟩ := honce i j (hmac.ne hij) hi hj hsame
    have hs' := hs.time_lt hmicros hbrief
    have ht' := ht.time_lt hmicros hbrief
    omega

/-- On genuine frames, the clients that passed have different addresses of the pool, so that
there are at most as many as addresses. -/
def PassesApart (adapter : Adapter P) (r : Roster n W) (server : DhcpServer P) (prior : Cq)
    (priorTab : XidTab (Fin n)) (run : List (BenchmarkStep W)) : Prop :=
  Along (benchmarkStep adapter r) (GenuineTurn adapter r)
      (Benchmark.init r server prior priorTab) run →
    let f := (benchmarkAfter adapter r server prior priorTab run).fleet
    f.Leased server.config.poolStart server.config.poolEnd ∧
      passed f ≤ server.config.poolEnd.toNat + 1 - server.config.poolStart.toNat

theorem passesApart_of_keepsLeases (hmac : Function.Injective r.mac)
    (hkeeps : KeepsLeases (processMessage adapter.calls) server)
    (hpool : AcksInPool adapter server)
    (hlease : server.config.leaseTime.toNat + 4294 < 2 ^ 32)
    (hbrief : Brief server.config.leaseTime.toNat run) :
    PassesApart adapter r server prior priorTab run := by
  intro hgenuine
  have hleased := leased_of_keepsLeases hmac hkeeps hpool hlease hbrief hgenuine
  exact ⟨hleased, hleased.passed_le⟩

end Passed

/-- The clients of `main`, with their number in the MAC and as transaction number. -/
def numberedRoster : Roster numClients maxWorkers :=
  mainRoster 4096 (by decide) (by decide)
    (fun i => ![2, 0, 0, 255, UInt8.ofNat (i.val / 256), UInt8.ofNat (i.val % 256)])
    fun i => UInt32.ofNat i.val

theorem numberedRoster_mac_injective : Function.Injective numberedRoster.mac := by
  intro i j h
  have hhigh := congrArg UInt8.toNat (congrFun h 4)
  have hlow := congrArg UInt8.toNat (congrFun h 5)
  have hi : i.val < 2048 := i.isLt
  have hj : j.val < 2048 := j.isLt
  have hhigh' : i.val / 256 % 256 = j.val / 256 % 256 := hhigh
  have hlow' : i.val % 256 % 256 = j.val % 256 % 256 := hlow
  exact Fin.ext (by omega)

theorem numberedRoster_xid_injective : Function.Injective numberedRoster.xid := by
  intro i j h
  have hxid : i.val % 2 ^ 32 = j.val % 2 ^ 32 := congrArg UInt32.toNat h
  have hi : i.val < 2048 := i.isLt
  have hj : j.val < 2048 := j.isLt
  exact Fin.ext (by omega)

end BaremetalDhcp
