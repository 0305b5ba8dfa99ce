import BaremetalDhcp.Benchmark
import BaremetalDhcp.Handshake

/-!
# A benchmark in which nobody is late

The safety theorems about the benchmark are about the clients that finish.  Here is a run in
which clients do: one worker takes them as they come, the kernel receives each message once and
at once, and each reply reaches the mailbox before the worker looks.

* `Visit` — one client of such a run: when the kernel hears of it, and the address it is to get.
* `PoolCalls.grantsAll` — the calls of the library offer these addresses and commit them.  It
  is about the calls alone and can be computed.
* `promptRun` — the steps of the worker, of the receiver and of the kernel.
* `Benchmark.Stands` — where the threads are between two of these steps.

`promptRun_finishes` says that all clients of the run finish with their addresses if the library
grants them, and that every frame of the run is genuine.  It holds for every lease mode and any
number of clients, and the other workers may stand anywhere.
-/

namespace BaremetalDhcp

open Machine

/-! ## The run -/

/-- A client to be served, what the kernel reads in its two turns, and the address. -/
structure Visit (n : ℕ) where
  client : Fin n
  env : Surroundings
  ip : UInt32

section Visits

variable {P : Type} {n W : ℕ} (adapter : Adapter P) (r : Roster n W) (w : Fin W)

/-- The turn in which the kernel receives the DISCOVER. -/
def Visit.discover (v : Visit n) : Turn :=
  ⟨v.env, bytesAt (discoverMeta (r.mac v.client) (r.xid v.client)).frameBytes, minSendLen⟩

/-- The turn in which the kernel receives the REQUEST for an OFFER. -/
def Visit.request (v : Visit n) (offer : List UInt8) : Turn :=
  ⟨v.env, bytesAt (requestMeta (r.mac v.client) (r.xid v.client) offer).frameBytes, minSendLen⟩

/-- The worker takes the client that comes next and sends its DISCOVER. -/
def takeSteps : List (BenchmarkStep W) :=
  [.thread (.pop w 0), .thread (.clear w), .thread (.insert w), .thread (.work w (.start true))]

/-- The `k`-th transmission reaches the mailbox of its client, and the worker looks at it. -/
def lookSteps (k : ℕ) : List (BenchmarkStep W) :=
  [.hear k, .thread .deliver, .thread (.work w .lock), .thread (.work w (.process true))]

/-- A client from the queue to its REQUEST. -/
def discoverSteps (b : Benchmark P n W) (v : Visit n) : List (BenchmarkStep W) :=
  takeSteps w ++ .serve (v.discover r) :: lookSteps w b.air.length

/-- A client from its REQUEST to the end of its exchange. -/
def requestSteps (b : Benchmark P n W) (v : Visit n) (offer : List UInt8) :
    List (BenchmarkStep W) :=
  .serve (v.request r offer) :: lookSteps w b.air.length ++ [.thread (.remove w)]

/-- A whole exchange, with nothing else in between. -/
def visitSteps (b : Benchmark P n W) (v : Visit n) : List (BenchmarkStep W) :=
  let steps := discoverSteps r w b v
  steps ++ requestSteps r w (exec (benchmarkStep adapter r) b steps) v
    ((kernelStep adapter b.server (v.discover r)).2.getD [])

/-- One client after the other. -/
def promptRun (b : Benchmark P n W) : List (Visit n) → List (BenchmarkStep W)
  | [] => []
  | v :: visits =>
      let steps := visitSteps adapter r w b v
      steps ++ promptRun (exec (benchmarkStep adapter r) b steps) visits

/-- The turns of the kernel take place when the visits say. -/
theorem micros_promptRun (visits : List (Visit n)) (b : Benchmark P n W) :
    (promptRun adapter r w b visits).filterMap BenchmarkStep.micros =
      visits.flatMap fun v => [v.env.micros, v.env.micros] := by
  induction visits generalizing b with
  | nil => rfl
  | cons v visits ih =>
      rw [promptRun, List.filterMap_append, ih, List.flatMap_cons]
      rfl

end Visits

/-! ## The library -/

/-- A message from the client with the given MAC, at the given time. -/
def bareArrival (mac : Mac) (t : UInt32) : Arrival where
  request :=
    { DhcpMessage.zero with chaddr := fun i => if h : i.val < 6 then mac ⟨i.val, h⟩ else 0 }
  behind := fun _ => 0
  curTime := t

theorem mac_bareArrival (mac : Mac) (t : UInt32) : (bareArrival mac t).mac = mac := by
  funext i
  exact dif_pos i.isLt

/-- The calls of the library offer the addresses of the visits, and commit them. -/
def PoolCalls.grantsAll {P : Type} {n : ℕ} (calls : PoolCalls P) (mac : Fin n → Mac)
    (server : DhcpServer P) : List (Visit n) → Bool
  | [] => true
  | v :: visits =>
      let a := bareArrival (mac v.client) (tsInSec v.env.micros)
      let offered := calls.discover server a
      let granted := calls.request offered.1 v.ip a
      offered.2 = v.ip && v.ip ≠ 0 && granted.2 && calls.grantsAll mac granted.1 visits

section Library

variable {P : Type} {n W : ℕ} {adapter : Adapter P} {r : Roster n W} {server : DhcpServer P}

/-- What the kernel transmits is for the client, of the given type and for the address. -/
structure Reaches (xid : UInt32) (type : UInt8) (ip : UInt32) (frame : List UInt8) : Prop where
  received_eq : received xid frame = some frame
  type_eq : replyType xid frame = type
  shows : (parsedReply xid frame).offeredIp = packIP ip

/-- A frame of a client is handed to the library, and the reply of the library reaches the
client. -/
theorem reaches_of_frameBytes {t : Turn} {m : BuildMeta} (hold : Holds t.frameBuffer 0 m.frameBytes)
    (htype : m.dhcpType = dhcpDiscover ∨ m.dhcpType = dhcpRequest) :
    ∃ h : Handover, h.Carries m ∧ h.arrival.curTime = tsInSec t.env.micros ∧
      ∀ type ip, IsReply type ip (processMessage adapter.calls server h.arrival).2 →
        ∃ frame, kernelStep adapter server t =
            ((processMessage adapter.calls server h.arrival).1, some frame) ∧
          Reaches m.xid type ip frame := by
  obtain ⟨h, hc, htime, hserver, hsome, hreply⟩ :=
    @reply_of_frameBytes P adapter server t m hold htype
  refine ⟨h, hc, htime, ?_⟩
  rintro type ip ⟨response, hresponse, rfl, rfl⟩
  obtain ⟨frame, hframe⟩ := Option.isSome_iff_exists.mp (hsome response hresponse)
  obtain ⟨response', hresponse', hreceived, hreplyType, hshown⟩ := hreply frame hframe
  obtain rfl := Option.some.inj (hresponse.symm.trans hresponse')
  exact ⟨frame, Prod.ext hserver hframe, hreceived, hreplyType, hshown⟩

variable {v : Visit n} {a : Arrival}

/-- A DISCOVER for which the library has an address is answered with an OFFER. -/
theorem Visit.offered (hreads : adapter.calls.ReadsClient) (hmac : a.mac = r.mac v.client)
    (htime : a.curTime = tsInSec v.env.micros) (hfound : (adapter.calls.discover server a).2 = v.ip)
    (hne : v.ip ≠ 0) :
    ∃ offer, kernelStep adapter server (v.discover r) =
        ((adapter.calls.discover server a).1, some offer) ∧
      Reaches (r.xid v.client) dhcpOffer v.ip offer := by
  obtain ⟨h, hc, htime', hreaches⟩ :=
    @reaches_of_frameBytes P adapter server (v.discover r) _ (holds_bytesAt _) (Or.inl rfl)
  have hsame : adapter.calls.discover server h.arrival = adapter.calls.discover server a :=
    (hreads server h.arrival a (hc.mac_eq.trans hmac.symm) (htime'.trans htime.symm)).1
  have hoffer : IsOffer v.ip (processMessage adapter.calls server h.arrival).2 := by
    refine isOffer_processMessage_iff.mpr ⟨hc.msgType_eq, ?_, hne⟩
    rw [hsame]
    exact hfound
  obtain ⟨offer, hframe, hoffer⟩ := hreaches dhcpOffer v.ip hoffer
  rw [processMessage_discover hc.msgType_eq, hsame] at hframe
  exact ⟨offer, hframe, hoffer⟩

/-- A REQUEST for an address that the library commits is answered with an ACK. -/
theorem Visit.acked (hreads : adapter.calls.ReadsClient) (hmac : a.mac = r.mac v.client)
    (htime : a.curTime = tsInSec v.env.micros) {offer : List UInt8}
    (hshows : (parsedReply (r.xid v.client) offer).offeredIp = packIP v.ip)
    (hcommitted : (adapter.calls.request server v.ip a).2 = true) :
    ∃ ack, kernelStep adapter server (v.request r offer) =
        ((adapter.calls.request server v.ip a).1, some ack) ∧
      Reaches (r.xid v.client) dhcpAck v.ip ack := by
  obtain ⟨h, hc, htime', hreaches⟩ :=
    @reaches_of_frameBytes P adapter server (v.request r offer) _ (holds_bytesAt _) (Or.inr rfl)
  have hsame : adapter.calls.request server v.ip h.arrival =
      adapter.calls.request server v.ip a :=
    (hreads server h.arrival a (hc.mac_eq.trans hmac.symm) (htime'.trans htime.symm)).2.2 v.ip
  have hasked : h.arrival.requestedIp = some v.ip := by
    rw [← unpackIP_packIP v.ip, ← hshows]
    exact hc.requestedIp_eq rfl
  have hack : IsAck v.ip (processMessage adapter.calls server h.arrival).2 := by
    refine isAck_processMessage_iff.mpr ⟨hc.msgType_eq, hasked, ?_⟩
    rw [hsame]
    exact hcommitted
  obtain ⟨ack, hframe, hack⟩ := hreaches dhcpAck v.ip hack
  rw [processMessage_request hc.msgType_eq hasked, hsame] at hframe
  exact ⟨ack, hframe, hack⟩

/-- **The two turns of a visit**, where the library grants the address. -/
theorem Visit.answered (hreads : adapter.calls.ReadsClient) {visits : List (Visit n)}
    (hgrants : adapter.calls.grantsAll r.mac server (v :: visits)) :
    ∃ server' server'' offer ack,
      kernelStep adapter server (v.discover r) = (server', some offer) ∧
        kernelStep adapter server' (v.request r offer) = (server'', some ack) ∧
        Reaches (r.xid v.client) dhcpOffer v.ip offer ∧
        Reaches (r.xid v.client) dhcpAck v.ip ack ∧
        adapter.calls.grantsAll r.mac server'' visits := by
  simp only [PoolCalls.grantsAll, Bool.and_eq_true, decide_eq_true_eq] at hgrants
  obtain ⟨⟨⟨hfound, hne⟩, hcommitted⟩, hrest⟩ := hgrants
  have hmac := mac_bareArrival (r.mac v.client) (tsInSec v.env.micros)
  obtain ⟨offer, hoffered, hoffer⟩ := Visit.offered hreads hmac rfl hfound hne
  obtain ⟨ack, hacked, hack⟩ := Visit.acked hreads hmac rfl hoffer.shows hcommitted
  exact ⟨_, _, offer, ack, hoffered, hacked, hoffer, hack, hrest⟩

end Library

/-! ## The threads -/

/-- A worker is at a post, the receiver has what it has, and the clients are as given. -/
structure Benchmark.Stands {P : Type} {n W : ℕ} (r : Roster n W) (b : Benchmark P n W)
    (taken : List (Fin n)) (w : Fin W) (post : Post (Fin n))
    (receiver : Option (ClientPtr (Fin n) × List UInt8)) (clients : Fin n → Bench) : Prop where
  dispatch : b.fleet.Dispatch r taken
  stages : b.fleet.Stages r taken
  post_eq : b.fleet.posts w = post
  receiver_eq : b.fleet.receiver = receiver
  clients_eq : b.fleet.clients = clients

/-- The client whose DISCOVER is on its way. -/
def Bench.asking (mac : Bytes 6) (xid : UInt32) : Bench :=
  { Bench.fresh mac xid with state := .discover, worker := .locking }

/-- The client that a worker has copied the frame of, about to be parsed. -/
def Bench.looking (b : Bench) (frame : List UInt8) : Bench :=
  { b with worker := .holding frame, mailbox := [] }

section Threads

variable {P : Type} {n W : ℕ} (adapter : Adapter P) {r : Roster n W} {b : Benchmark P n W}
  {taken : List (Fin n)} {w : Fin W} {post post' : Post (Fin n)}
  {receiver receiver' : Option (ClientPtr (Fin n) × List UInt8)} {clients clients' : Fin n → Bench}
  {i : Fin n}

/-- Where the threads stand after a step. -/
theorem Benchmark.Stands.next (h : b.Stands r taken w post receiver clients)
    {step : FleetStep W} {f' : Fleet n W} {event : Option (FleetEvent n)}
    (hstep : fleetStep r b.fleet step = (f', event)) (hpost : f'.posts w = post')
    (hreceiver : f'.receiver = receiver') (hclients : f'.clients = clients')
    (wire : List (Fin n × BuildMeta)) :
    { b with fleet := f', wire := wire }.Stands r (taken ++ handedOut event) w post' receiver'
      clients' := by
  have hmoved := h.dispatch.moved step
  rw [hstep] at hmoved
  exact ⟨h.dispatch.step hmoved, h.stages.step h.dispatch hmoved, hpost, hreceiver, hclients⟩

/-- A step of a thread that does not call `sendto` changes the threads only. -/
theorem benchmarkStep_thread {step : FleetStep W} (hframe : step.frame = none) {f' : Fleet n W}
    {event : Option (FleetEvent n)} (hstep : fleetStep r b.fleet step = (f', event))
    (hquiet : ∀ j m, event ≠ some (.called j m)) :
    (benchmarkStep adapter r b (.thread step)).1 = { b with fleet := f' } := by
  have hthread : (benchmarkStep adapter r b (.thread step)).1 =
      b.move (fleetStep r b.fleet step) := by
    cases step with
    | receive => cases hframe
    | pop | clear | insert | work | remove | deliver => rfl
  rw [hthread, hstep]
  obtain _ | _ | ⟨j, m⟩ := event
  · simp [Benchmark.move]
  · simp [Benchmark.move]
  · exact absurd rfl (hquiet j m)

/-- The worker pops the client that comes next. -/
theorem Benchmark.Stands.pop (h : b.Stands r taken w .idle receiver clients)
    {rest : List (Fin n)} (hnext : taken ++ i :: rest = List.finRange n) :
    ∃ f', (benchmarkStep adapter r b (.thread (.pop w 0))).1 = { b with fleet := f' } ∧
      { b with fleet := f' }.Stands r (taken ++ [i]) w (.popped i) receiver clients := by
  obtain ⟨hall, -⟩ | ⟨j, queue, rest', hrest, -, hpop⟩ := h.dispatch.pop_cases w 0
  · rw [hall] at hnext
    exact absurd (List.append_right_eq_self.mp hnext) (List.cons_ne_nil _ _)
  · obtain ⟨rfl, -⟩ := List.cons.inj (List.append_cancel_left (hrest.trans hnext.symm))
    have hstep : fleetStep r b.fleet (.pop w 0) = _ := (if_pos h.post_eq).trans hpop
    exact ⟨_, benchmarkStep_thread adapter rfl hstep (by simp),
      h.next hstep (posts_post_self _) h.receiver_eq h.clients_eq b.wire⟩

/-- It clears the mailbox, which was empty. -/
theorem Benchmark.Stands.clear (h : b.Stands r taken w (.popped i) receiver clients) :
    ∃ f', (benchmarkStep adapter r b (.thread (.clear w))).1 = { b with fleet := f' } ∧
      { b with fleet := f' }.Stands r taken w (.cleared i) receiver clients ∧
      clients i = Bench.fresh (r.mac i) (r.xid i) := by
  have hfresh : b.fleet.clients i = Bench.fresh (r.mac i) (r.xid i) :=
    h.stages.untouched i (Or.inr ⟨w, Or.inl h.post_eq⟩)
  have hstep : fleetStep r b.fleet (.clear w) =
      ((b.fleet.put i { b.fleet.clients i with mailbox := [] }).post w (.cleared i), none) := by
    simp only [fleetStep, h.post_eq]
  have hsame : Function.update b.fleet.clients i { b.fleet.clients i with mailbox := [] } =
      clients := by
    rw [← h.clients_eq, Function.update_eq_self_iff, hfresh]
    rfl
  have hstands := h.next hstep (posts_post_self _) h.receiver_eq hsame b.wire
  rw [handedOut_none, List.append_nil] at hstands
  exact ⟨_, benchmarkStep_thread adapter rfl hstep (by simp), hstands, h.clients_eq ▸ hfresh⟩

/-- It inserts the client into the table. -/
theorem Benchmark.Stands.insert (h : b.Stands r taken w (.cleared i) receiver clients) :
    ∃ f', (benchmarkStep adapter r b (.thread (.insert w))).1 = { b with fleet := f' } ∧
      { b with fleet := f' }.Stands r taken w (.serving i) receiver clients := by
  have hstep : fleetStep r b.fleet (.insert w) =
      ({ b.fleet with table := xidTabInsert r.xid b.fleet.table i }.post w (.serving i),
        none) := by
    simp only [fleetStep, h.post_eq]
  have hstands := h.next hstep (posts_post_self _) h.receiver_eq h.clients_eq b.wire
  rw [handedOut_none, List.append_nil] at hstands
  exact ⟨_, benchmarkStep_thread adapter rfl hstep (by simp), hstands⟩

/-- It takes a step in the loop. -/
theorem Benchmark.Stands.work (h : b.Stands r taken w (.serving i) receiver clients)
    (step : BenchStep) (hown : step.IsWorkers) :
    let done := benchStep (r.mac i) (r.xid i) (clients i) step
    let wire := b.wire ++ (sentBy done.2.toList).map fun m => (i, m)
    ∃ f', (benchmarkStep adapter r b (.thread (.work w step))).1 =
        { b with fleet := f', wire := wire } ∧
      { b with fleet := f', wire := wire }.Stands r taken w (.serving i) receiver
        (Function.update clients i done.1) := by
  intro done wire
  have hstep : fleetStep r b.fleet (.work w step) =
      (b.fleet.put i done.1, done.2.map (.called i)) := by
    simp only [fleetStep, h.post_eq, if_pos hown, h.clients_eq, done]
  have hclients : (b.fleet.put i done.1).clients = Function.update clients i done.1 := by
    rw [← h.clients_eq]
    rfl
  have hstands := h.next hstep h.post_eq h.receiver_eq hclients wire
  rw [handedOut_called, List.append_nil] at hstands
  refine ⟨_, ?_, hstands⟩
  show b.move (fleetStep r b.fleet (.work w step)) = _
  rw [hstep, Benchmark.move]
  simp only [wire]
  cases done.2 <;> rfl

/-- It removes a client that is out of its loop from the table. -/
theorem Benchmark.Stands.remove (h : b.Stands r taken w (.serving i) receiver clients)
    (hout : (clients i).worker = .out) :
    ∃ f', (benchmarkStep adapter r b (.thread (.remove w))).1 = { b with fleet := f' } ∧
      { b with fleet := f' }.Stands r taken w .idle receiver clients := by
  rw [← h.clients_eq] at hout
  have hstep : fleetStep r b.fleet (.remove w) =
      ({ b.fleet with table := xidTabRemove r.xid b.fleet.table (r.xid i) }.post w .idle,
        none) := by
    simp only [fleetStep, h.post_eq, if_pos hout]
  have hstands := h.next hstep (posts_post_self _) h.receiver_eq h.clients_eq b.wire
  rw [handedOut_none, List.append_nil] at hstands
  exact ⟨_, benchmarkStep_thread adapter rfl hstep (by simp), hstands⟩

/-- The receiver finds the client of a frame that a worker serves. -/
theorem Benchmark.Stands.hear (hinj : Function.Injective r.xid)
    (h : b.Stands r taken w (.serving i) none clients) {k : ℕ} {frame : List UInt8}
    (hk : b.air[k]? = some frame) (hreceived : received (r.xid i) frame = some frame) :
    ∃ f', (benchmarkStep adapter r b (.hear k)).1 = { b with fleet := f' } ∧
      { b with fleet := f' }.Stands r taken w (.serving i) (some (.client i, frame)) clients := by
  have hlookup : xidTabLookup r.xid b.fleet.table (r.xid i) = .client i := by
    obtain ⟨listed, hholds, -, hall⟩ := h.stages.listed
    exact hholds.lookup_of_mem (hall hinj w i h.post_eq)
  obtain ⟨hxid, htake⟩ : (parseXid (bytesAt (frame.take recvLen)) (frame.take recvLen).length).2 =
      some (r.xid i) ∧ frame.take recvLen = frame := by
    simp only [received] at hreceived
    split_ifs at hreceived with hxid
    exact ⟨hxid, Option.some.inj hreceived⟩
  rw [htake] at hxid
  have hstep : fleetStep r b.fleet (.receive frame) =
      ({ b.fleet with receiver := some (.client i, frame) }, none) := by
    simp only [fleetStep, if_pos h.receiver_eq, Fleet.receive, htake, hxid, hlookup]
  have hstands := h.next hstep h.post_eq rfl h.clients_eq b.wire
  rw [handedOut_none, List.append_nil] at hstands
  refine ⟨_, ?_, hstands⟩
  simp only [benchmarkStep, hk, hstep]
  simp [Benchmark.move]

/-- The receiver copies the frame into the mailbox. -/
theorem Benchmark.Stands.deliver {frame : List UInt8}
    (h : b.Stands r taken w post (some (.client i, frame)) clients) :
    ∃ f', (benchmarkStep adapter r b (.thread .deliver)).1 = { b with fleet := f' } ∧
      { b with fleet := f' }.Stands r taken w post none
        (Function.update clients i { clients i with mailbox := frame }) := by
  have hstep : fleetStep r b.fleet .deliver =
      ({ b.fleet.put i { clients i with mailbox := frame } with receiver := none }, none) := by
    simp only [fleetStep, h.receiver_eq, h.clients_eq]
  have hclients : (b.fleet.put i { clients i with mailbox := frame }).clients =
      Function.update clients i { clients i with mailbox := frame } := by
    rw [← h.clients_eq]
    rfl
  have hstands := h.next hstep h.post_eq rfl hclients b.wire
  rw [handedOut_none, List.append_nil] at hstands
  exact ⟨_, benchmarkStep_thread adapter rfl hstep (by simp), hstands⟩

/-- **A client is taken**: its DISCOVER is on the wire, and the worker is in the loop. -/
theorem Benchmark.Stands.take (h : b.Stands r taken w .idle receiver clients)
    {rest : List (Fin n)} (hnext : taken ++ i :: rest = List.finRange n) :
    ∃ f', exec (benchmarkStep adapter r) b (takeSteps w) =
        { b with fleet := f', wire := b.wire ++ [(i, discoverMeta (r.mac i) (r.xid i))] } ∧
      (exec (benchmarkStep adapter r) b (takeSteps w)).Stands r (taken ++ [i]) w (.serving i)
        receiver (Function.update clients i (Bench.asking (r.mac i) (r.xid i))) := by
  obtain ⟨f₁, hpop, h₁⟩ := h.pop adapter hnext
  obtain ⟨f₂, hclear, h₂, hfresh⟩ := h₁.clear adapter
  obtain ⟨f₃, hinsert, h₃⟩ := h₂.insert adapter
  obtain ⟨f₄, hwork, h₄⟩ := h₃.work adapter (.start true) trivial
  rw [hfresh] at hwork h₄
  have hexec : exec (benchmarkStep adapter r) b (takeSteps w) =
      { b with fleet := f₄, wire := b.wire ++ [(i, discoverMeta (r.mac i) (r.xid i))] } := by
    simp only [takeSteps, exec_cons, exec_nil, hpop, hclear, hinsert, hwork]
    rfl
  exact ⟨f₄, hexec, hexec ▸ h₄⟩

/-- **The worker looks at a frame** that is transmitted to its client. -/
theorem Benchmark.Stands.look (hinj : Function.Injective r.xid)
    (h : b.Stands r taken w (.serving i) none clients) (hlocking : (clients i).worker = .locking)
    {k : ℕ} {frame : List UInt8} (hk : b.air[k]? = some frame)
    (hreceived : received (r.xid i) frame = some frame) (hne : frame ≠ []) :
    let done := ((clients i).looking frame).process (r.mac i) (r.xid i) frame true
    ∃ f', exec (benchmarkStep adapter r) b (lookSteps w k) =
        { b with
          fleet := f'
          wire := b.wire ++ (sentBy done.2.toList).map fun m => (i, m) } ∧
      (exec (benchmarkStep adapter r) b (lookSteps w k)).Stands r taken w (.serving i) none
        (Function.update clients i done.1) := by
  intro done
  obtain ⟨f₁, hhear, h₁⟩ := h.hear adapter hinj hk hreceived
  obtain ⟨f₂, hdeliver, h₂⟩ := h₁.deliver adapter
  obtain ⟨f₃, hlock, h₃⟩ := h₂.work adapter .lock trivial
  have hlocked : benchStep (r.mac i) (r.xid i) { clients i with mailbox := frame } .lock =
      ((clients i).looking frame, none) := by
    simp [benchStep, Bench.test, hlocking, hne, Bench.looking]
  have hsilent : (sentBy (none : Option SendCall).toList).map (fun m => (i, m)) = [] := rfl
  simp only [Function.update_self, Function.update_idem, hlocked, hsilent, List.append_nil]
    at hlock h₃
  obtain ⟨f₄, hprocess, h₄⟩ := h₃.work adapter (.process true) trivial
  have hdone : benchStep (r.mac i) (r.xid i) ((clients i).looking frame) (.process true) = done :=
    rfl
  simp only [Function.update_self, Function.update_idem, hdone] at hprocess h₄
  have hexec : exec (benchmarkStep adapter r) b (lookSteps w k) =
      { b with
        fleet := f₄
        wire := b.wire ++ (sentBy done.2.toList).map fun m => (i, m) } := by
    simp only [lookSteps, exec_cons, exec_nil, hhear, hdeliver, hlock, hprocess]
  exact ⟨f₄, hexec, hexec ▸ h₄⟩

/-- **A turn of the kernel** that answers leaves the threads where they are. -/
theorem Benchmark.Stands.turn (h : b.Stands r taken w post receiver clients) {t : Turn}
    {server' : DhcpServer P} {frame : List UInt8}
    (hturn : kernelStep adapter b.server t = (server', some frame)) :
    (benchmarkStep adapter r b (.serve t)).1 =
        { b with server := server', air := b.air ++ [frame] } ∧
      { b with server := server', air := b.air ++ [frame] }.Stands r taken w post receiver
        clients := by
  refine ⟨?_, h.dispatch, h.stages, h.post_eq, h.receiver_eq, h.clients_eq⟩
  simp only [benchmarkStep, hturn, Option.toList_some]

end Threads

/-! ## The client -/

section Client

variable {mac : Bytes 6} {xid : UInt32} {frame offer : List UInt8} {ip : UInt32}

theorem Reaches.ne_nil {type : UInt8} (h : Reaches xid type ip frame) (htype : type ≠ 0) :
    frame ≠ [] :=
  ne_nil_of_replyType h.type_eq htype

/-- A client that looks at the OFFER for its DISCOVER requests the address. -/
theorem process_offer (h : Reaches xid dhcpOffer ip frame) :
    ((Bench.asking mac xid).looking frame).process mac xid frame true =
      (Exchange.requesting mac xid frame [], some (requestMeta mac xid frame, true)) := by
  have htype : (parsedReply xid frame).dhcpType = dhcpOffer := h.type_eq
  simp [Bench.process, htype, Bench.asking, Bench.looking, Exchange.requesting, Bench.fresh,
    requestMeta]

/-- A client that looks at the ACK for its REQUEST is done. -/
theorem process_ack (h : Reaches xid dhcpAck ip frame) :
    ((Exchange.requesting mac xid offer []).looking frame).process mac xid frame true =
      ({ (Exchange.requesting mac xid offer []).looking frame with
          state := .done
          assignedIp := packIP ip
          worker := .out }, none) := by
  have htype : (parsedReply xid frame).dhcpType = dhcpAck := h.type_eq
  have hne : dhcpAck ≠ dhcpOffer := by decide
  simp [Bench.process, htype, hne, h.shows, Bench.looking, Exchange.requesting]

end Client

/-! ## All visits -/

section Runs

variable {P : Type} {n W : ℕ} {adapter : Adapter P} {r : Roster n W} {b : Benchmark P n W}
  {taken : List (Fin n)} {w : Fin W} {clients : Fin n → Bench} {v : Visit n}
  {visits : List (Visit n)}

/-- **The first half of a visit.**  The client has its OFFER and has sent the REQUEST. -/
theorem Benchmark.Stands.discover (hinj : Function.Injective r.xid)
    (h : b.Stands r taken w .idle none clients) {rest : List (Fin n)}
    (hnext : taken ++ v.client :: rest = List.finRange n) {server' : DhcpServer P}
    {offer : List UInt8}
    (hturn : kernelStep adapter b.server (v.discover r) = (server', some offer))
    (hoffer : Reaches (r.xid v.client) dhcpOffer v.ip offer) :
    let b' := exec (benchmarkStep adapter r) b (discoverSteps r w b v)
    b'.Stands r (taken ++ [v.client]) w (.serving v.client) none (Function.update clients v.client
        (Exchange.requesting (r.mac v.client) (r.xid v.client) offer [])) ∧
      b'.server = server' ∧
      (v.client, requestMeta (r.mac v.client) (r.xid v.client) offer) ∈ b'.wire ∧
      Along (benchmarkStep adapter r) (GenuineTurn adapter r) b (discoverSteps r w b v) := by
  intro b'
  obtain ⟨f₁, htake, h₁⟩ := h.take adapter hnext
  rw [htake] at h₁
  obtain ⟨hserve, h₂⟩ := h₁.turn adapter hturn
  obtain ⟨f₃, hlook, h₃⟩ := h₂.look adapter hinj (by rw [Function.update_self]; rfl)
    List.getElem?_concat_length hoffer.received_eq (hoffer.ne_nil (by decide))
  simp only [Function.update_self, Function.update_idem, process_offer hoffer] at hlook h₃
  have hexec : b' =
      { server := server'
        fleet := f₃
        wire := b.wire ++ [(v.client, discoverMeta (r.mac v.client) (r.xid v.client))] ++
          [(v.client, requestMeta (r.mac v.client) (r.xid v.client) offer)]
        air := b.air ++ [offer] } := by
    simp only [b', discoverSteps]
    rw [exec_append, htake, exec_cons, hserve]
    exact hlook
  rw [hlook] at h₃
  refine ⟨hexec ▸ h₃, ?_, ?_, along_append ⟨trivial, trivial, trivial, trivial, trivial⟩ ?_⟩
  · rw [hexec]
  · rw [hexec]
    exact List.mem_append_right _ (List.mem_singleton.mpr rfl)
  · rw [htake]
    refine ⟨?_, trivial, trivial, trivial, trivial, trivial⟩
    exact genuine_of_sent hinj (List.mem_append_right _ (List.mem_singleton.mpr rfl)) rfl
      (Or.inl rfl) (holds_bytesAt _)

/-- **The second half of a visit.**  The client has its ACK, and the worker is done with it. -/
theorem Benchmark.Stands.request (hinj : Function.Injective r.xid)
    (h : b.Stands r taken w (.serving v.client) none clients) {offer ack : List UInt8}
    (hclient : clients v.client =
      Exchange.requesting (r.mac v.client) (r.xid v.client) offer [])
    (hwire : (v.client, requestMeta (r.mac v.client) (r.xid v.client) offer) ∈ b.wire)
    {server' : DhcpServer P}
    (hturn : kernelStep adapter b.server (v.request r offer) = (server', some ack))
    (hack : Reaches (r.xid v.client) dhcpAck v.ip ack) :
    let b' := exec (benchmarkStep adapter r) b (requestSteps r w b v offer)
    (∃ finished : Bench, finished.state = .done ∧ finished.assignedIp = packIP v.ip ∧
        b'.Stands r taken w .idle none (Function.update clients v.client finished)) ∧
      b'.server = server' ∧
      Along (benchmarkStep adapter r) (GenuineTurn adapter r) b (requestSteps r w b v offer) := by
  intro b'
  obtain ⟨hserve, h₁⟩ := h.turn adapter hturn
  obtain ⟨f₂, hlook, h₂⟩ := h₁.look adapter hinj (by rw [hclient]; rfl)
    List.getElem?_concat_length hack.received_eq (hack.ne_nil (by decide))
  simp only [hclient, process_ack hack] at hlook h₂
  rw [hlook] at h₂
  obtain ⟨f₃, hremove, h₃⟩ := h₂.remove adapter (by rw [Function.update_self])
  have hexec : b' =
      { server := server', fleet := f₃, wire := b.wire ++ [], air := b.air ++ [ack] } := by
    simp only [b', requestSteps]
    rw [List.cons_append, exec_cons, hserve, exec_append, hlook, exec_cons, exec_nil]
    exact hremove
  refine ⟨⟨_, ?_, ?_, hexec ▸ h₃⟩, ?_, ?_⟩
  · rfl
  · rfl
  · rw [hexec]
  · refine ⟨?_, trivial, trivial, trivial, trivial, trivial, trivial⟩
    exact genuine_of_sent hinj hwire rfl (Or.inr rfl) (holds_bytesAt _)

/-- **One visit.**  The client finishes with its address, and the frames are genuine. -/
theorem Benchmark.Stands.visit (hinj : Function.Injective r.xid)
    (hreads : adapter.calls.ReadsClient) (h : b.Stands r taken w .idle none clients)
    {rest : List (Fin n)} (hnext : taken ++ v.client :: rest = List.finRange n)
    (hgrants : adapter.calls.grantsAll r.mac b.server (v :: visits)) :
    let b' := exec (benchmarkStep adapter r) b (visitSteps adapter r w b v)
    (∃ finished : Bench, finished.state = .done ∧ finished.assignedIp = packIP v.ip ∧
        b'.Stands r (taken ++ [v.client]) w .idle none
          (Function.update clients v.client finished)) ∧
      adapter.calls.grantsAll r.mac b'.server visits ∧
      Along (benchmarkStep adapter r) (GenuineTurn adapter r) b (visitSteps adapter r w b v) := by
  intro b'
  obtain ⟨server', server'', offer, ack, hoffered, hacked, hoffer, hack, hrest⟩ :=
    Visit.answered hreads hgrants
  obtain ⟨h₁, hserver, hwire, halong⟩ := h.discover hinj hnext hoffered hoffer
  have hshown : (kernelStep adapter b.server (v.discover r)).2.getD [] = offer := by
    rw [hoffered]
    rfl
  rw [← hserver] at hacked
  obtain ⟨⟨finished, hdone, hip, h₂⟩, hserver', halong'⟩ :=
    h₁.request hinj (Function.update_self ..) hwire hacked hack
  have hsteps : visitSteps adapter r w b v = discoverSteps r w b v ++ requestSteps r w
      (exec (benchmarkStep adapter r) b (discoverSteps r w b v)) v offer := by
    rw [visitSteps, hshown]
  have hexec : b' = exec (benchmarkStep adapter r)
      (exec (benchmarkStep adapter r) b (discoverSteps r w b v)) (requestSteps r w
        (exec (benchmarkStep adapter r) b (discoverSteps r w b v)) v offer) := by
    simp only [b', hsteps, exec_append]
  rw [Function.update_idem] at h₂
  refine ⟨⟨finished, hdone, hip, hexec ▸ h₂⟩, ?_, ?_⟩
  · rw [hexec, hserver']
    exact hrest
  · rw [hsteps]
    exact along_append halong halong'

/-- **All visits**, one after the other. -/
theorem Benchmark.Stands.prompt (hinj : Function.Injective r.xid)
    (hreads : adapter.calls.ReadsClient) (visits : List (Visit n)) {b : Benchmark P n W}
    {taken rest : List (Fin n)} {clients : Fin n → Bench}
    (h : b.Stands r taken w .idle none clients)
    (horder : taken ++ (visits.map Visit.client ++ rest) = List.finRange n)
    (hgrants : adapter.calls.grantsAll r.mac b.server visits) :
    let run := promptRun adapter r w b visits
    let b' := exec (benchmarkStep adapter r) b run
    Along (benchmarkStep adapter r) (GenuineTurn adapter r) b run ∧
      (∀ i ∉ visits.map Visit.client, b'.fleet.clients i = clients i) ∧
      ∀ v ∈ visits, (b'.fleet.clients v.client).state = .done ∧
        (b'.fleet.clients v.client).assignedIp = packIP v.ip := by
  induction visits generalizing b taken clients with
  | nil => exact ⟨trivial, fun i _ => congrFun h.clients_eq i, fun _ hv => by cases hv⟩
  | cons v visits ih =>
      obtain ⟨⟨finished, hdone, hip, h'⟩, hgrants', halong⟩ := h.visit hinj hreads horder hgrants
      obtain ⟨halong', hothers, hvisited⟩ := ih h' (by rw [← horder]; simp) hgrants'
      -- the client is not visited again
      have hnew : v.client ∉ visits.map Visit.client := by
        have hnodup := List.nodup_finRange n
        rw [← horder] at hnodup
        have hnodup' := (List.nodup_append.mp hnodup).2.1
        rw [List.map_cons, List.cons_append, List.nodup_cons] at hnodup'
        exact fun hmem => hnodup'.1 (List.mem_append_left _ hmem)
      have hfinal := hothers v.client hnew
      rw [Function.update_self] at hfinal
      intro run b'
      have hexec : b' = exec (benchmarkStep adapter r)
          (exec (benchmarkStep adapter r) b (visitSteps adapter r w b v)) _ :=
        exec_append _ _ _ _
      refine ⟨along_append halong halong', fun i hi => ?_, fun u hu => ?_⟩
      · rw [List.map_cons, List.mem_cons, not_or] at hi
        rw [hexec, hothers i hi.2, Function.update_of_ne hi.1]
      · rw [hexec]
        obtain rfl | hu := List.mem_cons.mp hu
        · rw [hfinal]
          exact ⟨hdone, hip⟩
        · exact hvisited u hu

/-- What there is to say about the clients after a prompt run. -/
structure Fleet.Served (f : Fleet n W) (visits : List (Visit n)) : Prop where
  done : ∀ v ∈ visits, (f.clients v.client).state = .done
  assigned : ∀ v ∈ visits, (f.clients v.client).assignedIp = packIP v.ip
  passed_eq : passed f = visits.length

variable (adapter w visits) (server : DhcpServer P) (prior : Cq) (priorTab : XidTab (Fin n))

/-- **The clients of a prompt run finish**, with the addresses that the library grants to them,
and they are those that pass.  Every frame of the run is genuine. -/
theorem promptRun_finishes (hinj : Function.Injective r.xid) (hreads : adapter.calls.ReadsClient)
    {rest : List (Fin n)} (horder : visits.map Visit.client ++ rest = List.finRange n)
    (hgrants : adapter.calls.grantsAll r.mac server visits) :
    let run := promptRun adapter r w (Benchmark.init r server prior priorTab) visits
    Along (benchmarkStep adapter r) (GenuineTurn adapter r)
        (Benchmark.init r server prior priorTab) run ∧
      (benchmarkAfter adapter r server prior priorTab run).fleet.Served visits := by
  intro run
  have hstart : (Benchmark.init r server prior priorTab).Stands r [] w .idle none
      fun i => Bench.fresh (r.mac i) (r.xid i) :=
    ⟨fleetInit_dispatch prior priorTab, fleetInit_stages prior priorTab, rfl, rfl, rfl⟩
  obtain ⟨halong, hothers, hvisited⟩ := hstart.prompt hinj hreads visits horder hgrants
  refine ⟨halong, fun v hv => (hvisited v hv).1, fun v hv => (hvisited v hv).2, ?_⟩
  set f := (benchmarkAfter adapter r server prior priorTab run).fleet
  have hdone : ∀ i ∈ visits.map Visit.client, (f.clients i).state = .done := by
    intro i hi
    obtain ⟨v, hv, rfl⟩ := List.mem_map.mp hi
    exact (hvisited v hv).1
  have hnodup := List.nodup_finRange n
  rw [← horder] at hnodup
  have hrest : ∀ i ∈ rest, ¬ (f.clients i).state = .done := by
    intro i hi
    rw [show f.clients i = _ from hothers i fun hmem =>
      List.disjoint_of_nodup_append hnodup hmem hi]
    exact ClientState.noConfusion
  rw [passed, ← horder, List.filter_append, List.filter_eq_self.mpr (by simpa using hdone),
    List.filter_eq_nil_iff.mpr (by simpa using hrest), List.append_nil, List.length_map]

/-- **The same on the network** that the run shows. -/
theorem netRunOf_promptRun (hinj : Function.Injective r.xid) (hreads : adapter.calls.ReadsClient)
    {rest : List (Fin n)} (horder : visits.map Visit.client ++ rest = List.finRange n)
    (hgrants : adapter.calls.grantsAll r.mac server visits) :
    let run := promptRun adapter r w (Benchmark.init r server prior priorTab) visits
    let netRun := netRunOf adapter r server prior priorTab run
    let net := exec (netStep adapter r.mac r.xid) (Net.fresh r.mac r.xid server) netRun
    Along (netStep adapter r.mac r.xid) (GenuineStep adapter r.mac r.xid)
        (Net.fresh r.mac r.xid server) netRun ∧
      ∀ v ∈ visits, (net.clients v.client).state = .done ∧
        (net.clients v.client).assignedIp = packIP v.ip := by
  intro run netRun net
  obtain ⟨halong, hserved⟩ :=
    promptRun_finishes adapter w visits server prior priorTab hinj hreads horder hgrants
  refine ⟨along_netRunOf halong, fun v hv => ?_⟩
  have hnet : net = _ := (toNet_benchmarkAfter adapter r server prior priorTab run).symm
  rw [hnet]
  exact ⟨hserved.done v hv, hserved.assigned v hv⟩

end Runs

/-! ## Two clients -/

/-- A client that the kernel hears twice at the given time. -/
def visitAt {n : ℕ} (i : Fin n) (micros : ℕ) (ip : UInt32) : Visit n where
  client := i
  env := ⟨fun _ => 2, micros, fun _ => 0, fun _ => 0⟩
  ip := ip

section Pair

variable {P : Type} {n W : ℕ} (adapter : Adapter P) (r : Roster n W) (w : Fin W)
  (server : DhcpServer P) (prior : Cq) (priorTab : XidTab (Fin n)) (i j : Fin n) (s t : ℕ)
  (x y : UInt32)

/-- A prompt run of two clients.  No proof takes its steps one by one. -/
@[irreducible] def pairRun : List (BenchmarkStep W) :=
  promptRun adapter r w (Benchmark.init r server prior priorTab) [visitAt i s x, visitAt j t y]

/-- The run is genuine, and two clients finish in it with the given addresses. -/
structure PairFinishes (run : List (NetStep (Fin n))) : Prop where
  genuine : Along (netStep adapter r.mac r.xid) (GenuineStep adapter r.mac r.xid)
    (Net.fresh r.mac r.xid server) run
  first : ((exec (netStep adapter r.mac r.xid) (Net.fresh r.mac r.xid server) run).clients
    i).state = .done
  second : ((exec (netStep adapter r.mac r.xid) (Net.fresh r.mac r.xid server) run).clients
    j).state = .done
  assigned : ((exec (netStep adapter r.mac r.xid) (Net.fresh r.mac r.xid server) run).clients
      i).assignedIp = packIP x ∧
    ((exec (netStep adapter r.mac r.xid) (Net.fresh r.mac r.xid server) run).clients
      j).assignedIp = packIP y

variable {adapter r server i j s t x y}

theorem micros_pairRun :
    (pairRun adapter r w server prior priorTab i j s t x y).filterMap BenchmarkStep.micros =
      [s, s, t, t] := by
  rw [pairRun, micros_promptRun]
  rfl

variable (hinj : Function.Injective r.xid) (hreads : adapter.calls.ReadsClient)
  {rest : List (Fin n)} (horder : [i, j] ++ rest = List.finRange n)
  (hgrants : adapter.calls.grantsAll r.mac server [visitAt i s x, visitAt j t y])

include hinj hreads horder hgrants

/-- Both clients of the pair pass, and no others. -/
theorem pairRun_finishes :
    let run := pairRun adapter r w server prior priorTab i j s t x y
    Along (benchmarkStep adapter r) (GenuineTurn adapter r)
        (Benchmark.init r server prior priorTab) run ∧
      passed (benchmarkAfter adapter r server prior priorTab run).fleet = 2 := by
  intro run
  have hfinished := promptRun_finishes adapter w [visitAt i s x, visitAt j t y] server prior
    priorTab hinj hreads horder hgrants
  rw [← pairRun] at hfinished
  exact ⟨hfinished.1, hfinished.2.passed_eq⟩

/-- Both finish on the network. -/
theorem netRunOf_pairRun :
    PairFinishes adapter r server i j x y (netRunOf adapter r server prior priorTab
      (pairRun adapter r w server prior priorTab i j s t x y)) := by
  have hfinished := netRunOf_promptRun adapter w [visitAt i s x, visitAt j t y] server prior
    priorTab hinj hreads horder hgrants
  rw [← pairRun] at hfinished
  obtain ⟨hfirst, hx⟩ := hfinished.2 (visitAt i s x) List.mem_cons_self
  obtain ⟨hsecond, hy⟩ :=
    hfinished.2 (visitAt j t y) (List.mem_cons_of_mem _ List.mem_cons_self)
  exact ⟨hfinished.1, hfirst, hsecond, hx, hy⟩

end Pair

/-- Two clients at least are in the queue. -/
theorem finRange_eq_cons_cons {n : ℕ} [NeZero n] (hn : 2 ≤ n) :
    ∃ rest, [0, 1] ++ rest = List.finRange n := by
  obtain ⟨k, rfl⟩ := Nat.exists_eq_add_of_le' hn
  refine ⟨((List.finRange k).map Fin.succ).map Fin.succ, ?_⟩
  rw [List.finRange_succ, List.finRange_succ, List.map_cons, Fin.succ_zero_eq_one]
  rfl

section Main

variable {P : Type} (adapter : Adapter P) (server : DhcpServer P) (prior : Cq)
  (priorTab : XidTab (Fin numClients)) (s t : ℕ) (x y : UInt32)
  (hreads : adapter.calls.ReadsClient)
  (hgrants : adapter.calls.grantsAll numberedRoster.mac server [visitAt 0 s x, visitAt 1 t y])

include hreads hgrants

/-- The first worker of `main` serves the first two clients, which pass. -/
theorem first_two_pass :
    let run := pairRun adapter numberedRoster 0 server prior priorTab 0 1 s t x y
    Along (benchmarkStep adapter numberedRoster) (GenuineTurn adapter numberedRoster)
        (Benchmark.init numberedRoster server prior priorTab) run ∧
      passed (benchmarkAfter adapter numberedRoster server prior priorTab run).fleet = 2 := by
  obtain ⟨rest, horder⟩ := @finRange_eq_cons_cons numClients _ (by decide)
  exact pairRun_finishes 0 prior priorTab numberedRoster_xid_injective hreads horder hgrants

/-- They finish on the network. -/
theorem first_two_finish :
    PairFinishes adapter numberedRoster server 0 1 x y
      (netRunOf adapter numberedRoster server prior priorTab
        (pairRun adapter numberedRoster 0 server prior priorTab 0 1 s t x y)) := by
  obtain ⟨rest, horder⟩ := @finRange_eq_cons_cons numClients _ (by decide)
  exact netRunOf_pairRun 0 prior priorTab numberedRoster_xid_injective hreads horder hgrants

end Main

end BaremetalDhcp
