import BaremetalDhcp.ClientQueue
import BaremetalDhcp.XidTable
import BaremetalDhcp.ClientRun

/-!
# The threads of the benchmark

`dhcp-client-async.c` puts its clients into a queue and starts a number of workers and one
receiver.  A `worker_thread` pops a client, clears its mailbox, inserts it into the table of
transaction numbers, serves it until it is out of the loop, and removes it from the table.
`recv_manager_thread` looks up the client of a frame and copies the frame into its mailbox.
`Fleet` is the state of all of these, and `fleetStep` is one step of any thread.

* `Fleet.Dispatch` — who has which client.
* `Fleet.Stages` — what the state of a client and the table have to do with that.

`BenchMailbox` is about one client between its worker and the receiver, and takes for granted
that there is one worker for it and that the receiver finds it only while it is in the table.
This is proved here, from the queue and the table.

## Reading conventions

* A pointer to a client is an address.  `Roster.clientAt` is what a thread finds there; a
  worker that has popped anything else is `wild`.
* `main` pushes the clients before it starts the first worker, and a thread that has not been
  started has not taken a step.
* The field `replies` of a client belongs to `BenchMailbox`; here it stays empty.

`fleet_dispatch` says that the clients are handed out in order, each one once, and that all of
them have been served when `pthread_join` has returned for every worker.  `fleet_lookup` says
which client a lookup finds, and that a client which is not in the table yet is untouched.
-/

namespace BaremetalDhcp

open Machine

/-! ## Clients and threads -/

/-- `NUM_CLIENTS`. -/
def numClients : ℕ := 2048

/-- `MAX_WORKERS`. -/
def maxWorkers : ℕ := 32

instance numClients_neZero : NeZero numClients := inferInstanceAs (NeZero 2048)

instance maxWorkers_neZero : NeZero maxWorkers := inferInstanceAs (NeZero 32)

/-- The clients that `main` has prepared, and where they are, for a number of workers.  The
queue has room for all of them, and the table for one client of each worker. -/
structure Roster (n W : ℕ) where
  addr : Fin n → UInt64
  mac : Fin n → Bytes 6
  xid : Fin n → UInt32
  addr_injective : Function.Injective addr
  addr_ne_zero : ∀ i, addr i ≠ 0
  clients_fit : n ≤ clientCap
  workers_fit : W ≤ benchHashN
  workers_pos : 0 < W

/-- `sizeof(struct client_async)` on a 64-bit Linux. -/
def clientSize : ℕ := 2208

theorem toNat_clientAddr {frame : ℕ} (hend : frame + clientSize * numClients < 2 ^ 64)
    (i : Fin numClients) :
    (UInt64.ofNat (frame + clientSize * i.val)).toNat = frame + clientSize * i.val :=
  UInt64.toNat_ofNat_of_lt'
    ((Nat.add_le_add_left (Nat.mul_le_mul_left _ i.isLt.le) _).trans_lt hend)

/-- The array `clients` of `main`, at the given address in its stack frame. -/
def mainRoster (frame : ℕ) (hframe : 0 < frame)
    (hend : frame + clientSize * numClients < 2 ^ 64) (mac : Fin numClients → Bytes 6)
    (xid : Fin numClients → UInt32) : Roster numClients maxWorkers where
  addr i := UInt64.ofNat (frame + clientSize * i.val)
  mac := mac
  xid := xid
  addr_injective := by
    intro i j h
    have hnat := congrArg UInt64.toNat h
    rw [toNat_clientAddr hend, toNat_clientAddr hend] at hnat
    exact Fin.ext (Nat.eq_of_mul_eq_mul_left (by decide) (Nat.add_left_cancel hnat))
  addr_ne_zero i h := by
    have hnat := congrArg UInt64.toNat h
    rw [toNat_clientAddr hend, UInt64.toNat_zero] at hnat
    omega
  clients_fit := by decide
  workers_fit := by decide
  workers_pos := by decide

/-- Where a `worker_thread` is: before `pop_client`, before it clears the mailbox, before
`xid_tab_insert`, or in the loop of its client.  It returns when there is no client left. -/
inductive Post (ι : Type) where
  | idle
  | popped (i : ι)
  | cleared (i : ι)
  | serving (i : ι)
  | returned
  | wild
  deriving DecidableEq

/-- The client that a worker has. -/
def Post.client {ι : Type} : Post ι → Option ι
  | .popped i | .cleared i | .serving i => some i
  | .idle | .returned | .wild => none

/-- Everything the threads share, and where they are.  The receiver is in `recv`, or has a
pointer and a frame for it. -/
structure Fleet (n W : ℕ) where
  queue : Cq
  table : XidTab (Fin n)
  clients : Fin n → Bench
  posts : Fin W → Post (Fin n)
  receiver : Option (ClientPtr (Fin n) × List UInt8)

/-- A step of a worker or of the receiver.  A worker in the loop takes the steps of
`BenchMailbox`. -/
inductive FleetStep (W : ℕ) where
  | pop (w : Fin W) (garbage : UInt64)
  | clear (w : Fin W)
  | insert (w : Fin W)
  | work (w : Fin W) (step : BenchStep)
  | remove (w : Fin W)
  | receive (frame : List UInt8)
  | deliver

/-- What can be seen of a step: a worker has taken a client, or has called `sendto` for it. -/
inductive FleetEvent (n : ℕ) where
  | took (i : Fin n)
  | called (i : Fin n) (call : SendCall)

/-- The step is one of the worker in its loop. -/
def BenchStep.IsWorkers : BenchStep → Prop
  | .reply _ | .deliver _ => False
  | _ => True

instance decidableIsWorkers (step : BenchStep) : Decidable step.IsWorkers :=
  match step with
  | .reply _ | .deliver _ => isFalse id
  | .start _ | .lock | .wake | .timeout _ | .process _ => isTrue trivial

/-- The frame that a step receives. -/
def FleetStep.frame {W : ℕ} : FleetStep W → Option (List UInt8)
  | .receive frame => some frame
  | _ => none

section Steps

variable {n W : ℕ}

/-- A worker moves on. -/
def Fleet.post (f : Fleet n W) (w : Fin W) (post : Post (Fin n)) : Fleet n W :=
  { f with posts := Function.update f.posts w post }

/-- The data of a client change. -/
def Fleet.put (f : Fleet n W) (i : Fin n) (b : Bench) : Fleet n W :=
  { f with clients := Function.update f.clients i b }

variable (r : Roster n W)

/-- The client at an address. -/
def Roster.clientAt (p : UInt64) : Option (Fin n) :=
  (List.finRange n).find? fun i => r.addr i = p

/-- `pop_client`, and what the worker makes of the pointer. -/
def Fleet.pop (f : Fleet n W) (w : Fin W) (garbage : UInt64) :
    Fleet n W × Option (FleetEvent n) :=
  let popped := popClient benchCqN f.queue garbage
  let f := { f with queue := popped.1 }
  if popped.2 = 0 then (f.post w .returned, none)
  else
    match r.clientAt popped.2 with
    | some i => (f.post w (.popped i), some (.took i))
    | none => (f.post w .wild, none)

/-- `recv_manager_thread` up to the lock of the mailbox. -/
def Fleet.receive (f : Fleet n W) (frame : List UInt8) : Fleet n W :=
  let rbuf := frame.take recvLen
  match (parseXid (bytesAt rbuf) rbuf.length).2 with
  | none => f
  | some x =>
      match xidTabLookup r.xid f.table x with
      | .null => f
      | p => { f with receiver := some (p, rbuf) }

/-- One step.  A step whose thread is elsewhere changes nothing. -/
def fleetStep (f : Fleet n W) : FleetStep W → Fleet n W × Option (FleetEvent n)
  | .pop w garbage => if f.posts w = .idle then f.pop r w garbage else (f, none)
  | .clear w =>
      match f.posts w with
      | .popped i => ((f.put i { f.clients i with mailbox := [] }).post w (.cleared i), none)
      | _ => (f, none)
  | .insert w =>
      match f.posts w with
      | .cleared i =>
          ({ f with table := xidTabInsert r.xid f.table i }.post w (.serving i), none)
      | _ => (f, none)
  | .work w step =>
      match f.posts w with
      | .serving i =>
          if step.IsWorkers then
            let done := benchStep (r.mac i) (r.xid i) (f.clients i) step
            (f.put i done.1, done.2.map (.called i))
          else (f, none)
      | _ => (f, none)
  | .remove w =>
      match f.posts w with
      | .serving i =>
          if (f.clients i).worker = .out then
            ({ f with table := xidTabRemove r.xid f.table (r.xid i) }.post w .idle, none)
          else (f, none)
      | _ => (f, none)
  | .receive frame => if f.receiver = none then (f.receive r frame, none) else (f, none)
  | .deliver =>
      match f.receiver with
      | some (.client i, rbuf) =>
          ({ f.put i { f.clients i with mailbox := rbuf } with receiver := none }, none)
      | _ => (f, none)

/-- `main`: the queue and the table are initialised and the clients are pushed, before the
first thread is started. -/
def fleetInit (prior : Cq) (priorTab : XidTab (Fin n)) : Fleet n W where
  queue :=
    ((List.finRange n).map r.addr).foldl (pushClient benchCqN) (clientQueueInit benchCqN prior)
  table := xidTabInit priorTab
  clients i := Bench.fresh (r.mac i) (r.xid i)
  posts _ := .idle
  receiver := none

/-- The clients that a step hands out. -/
def handedOut : Option (FleetEvent n) → List (Fin n)
  | some (.took i) => [i]
  | _ => []

/-- The calls of `sendto` that a step makes for a client. -/
def callsFor (i : Fin n) : Option (FleetEvent n) → List SendCall
  | some (.called j call) => if j = i then [call] else []
  | _ => []

end Steps

section Basics

variable {n W : ℕ} {r : Roster n W} {f : Fleet n W} {w w' : Fin W} {i : Fin n}

@[simp] theorem posts_post_self (post : Post (Fin n)) : (f.post w post).posts w = post :=
  Function.update_self ..

theorem posts_post_of_ne (h : w' ≠ w) (post : Post (Fin n)) :
    (f.post w post).posts w' = f.posts w' :=
  Function.update_of_ne h ..

@[simp] theorem clients_put_self (b : Bench) : (f.put i b).clients i = b :=
  Function.update_self ..

theorem clients_put_of_ne {j : Fin n} (h : j ≠ i) (b : Bench) :
    (f.put i b).clients j = f.clients j :=
  Function.update_of_ne h ..

theorem Roster.clientAt_addr (r : Roster n W) (i : Fin n) : r.clientAt (r.addr i) = some i := by
  unfold Roster.clientAt
  have hone : ∀ j, r.addr j = r.addr i ↔ j = i := fun j =>
    ⟨fun h => r.addr_injective h, fun h => h ▸ rfl⟩
  simp only [hone]
  cases hfind : (List.finRange n).find? fun j => j = i with
  | none =>
      have hno := List.find?_eq_none.mp hfind i (List.mem_finRange i)
      exact absurd (decide_eq_true rfl) hno
  | some j =>
      have hj := List.find?_some hfind
      rw [of_decide_eq_true hj]

/-- Pointers pushed into a queue with room for them wait in it, in order. -/
theorem HoldsClients.foldl_push {cq : Cq} {ps : List UInt64} (h : HoldsClients cq ps)
    (more : List UInt64) (hroom : ps.length + more.length ≤ clientCap) :
    HoldsClients (more.foldl (pushClient benchCqN) cq) (ps ++ more) := by
  induction more generalizing cq ps with
  | nil => rwa [List.append_nil]
  | cons p more ih =>
      rw [List.length_cons] at hroom
      have hpushed := h.push p
      rw [if_pos (by omega)] at hpushed
      rw [List.foldl_cons, List.append_cons]
      refine ih hpushed ?_
      rw [List.length_append, List.length_singleton]
      omega

end Basics

/-! ## Who has which client -/

/-- The clients are handed out in order; each one that has been handed out is with at most one
worker; and no worker has anything but a client. -/
structure Fleet.Dispatch {n W : ℕ} (r : Roster n W) (f : Fleet n W) (taken : List (Fin n)) :
    Prop where
  order : ∃ rest, taken ++ rest = List.finRange n ∧ HoldsClients f.queue (rest.map r.addr) ∧
    ∀ w, f.posts w = .returned → rest = []
  taken_of_client : ∀ w i, (f.posts w).client = some i → i ∈ taken
  alone : ∀ w w' i, (f.posts w).client = some i → (f.posts w').client = some i → w = w'
  tame : ∀ w, f.posts w ≠ .wild

section Dispatch

variable {n W : ℕ} {r : Roster n W} {f f' : Fleet n W} {taken : List (Fin n)} {w : Fin W}
  {i : Fin n}

theorem fleetInit_dispatch (prior : Cq) (priorTab : XidTab (Fin n)) :
    (fleetInit r prior priorTab).Dispatch r [] where
  order := by
    refine ⟨List.finRange n, rfl, ?_, fun w hw => by cases hw⟩
    have hpushed := (clientQueueInit_holds prior).foldl_push ((List.finRange n).map r.addr)
    rw [List.length_nil, Nat.zero_add, List.length_map, List.length_finRange] at hpushed
    exact hpushed r.clients_fit
  taken_of_client _ _ h := by cases h
  alone _ _ _ h := by cases h
  tame _ h := by cases h

/-- The order of the queue does not depend on anything else. -/
theorem Fleet.Dispatch.of_eq (h : f.Dispatch r taken) (hqueue : f'.queue = f.queue)
    (hposts : f'.posts = f.posts) : f'.Dispatch r taken := by
  obtain ⟨horder, htaken, halone, htame⟩ := h
  rw [← hqueue, ← hposts] at horder
  rw [← hposts] at htaken halone htame
  exact ⟨horder, htaken, halone, htame⟩

/-- A worker moves on with the client it has, or without one. -/
theorem Fleet.Dispatch.post (h : f.Dispatch r taken) {post : Post (Fin n)}
    (hclient : ∀ i, post.client = some i → (f.posts w).client = some i)
    (hreturned : post = .returned → taken = List.finRange n) (hwild : post ≠ .wild) :
    (f.post w post).Dispatch r taken := by
  have hback : ∀ v i, ((f.post w post).posts v).client = some i →
      (f.posts v).client = some i := by
    intro v i hv
    obtain rfl | hne := eq_or_ne v w
    · rw [posts_post_self] at hv
      exact hclient i hv
    · rwa [posts_post_of_ne hne] at hv
  constructor
  case order =>
    obtain ⟨rest, hrest, hholds, hempty⟩ := h.order
    refine ⟨rest, hrest, hholds, fun v hv => ?_⟩
    obtain rfl | hne := eq_or_ne v w
    · rw [posts_post_self] at hv
      rw [← hreturned hv] at hrest
      exact List.append_right_eq_self.mp hrest
    · rw [posts_post_of_ne hne] at hv
      exact hempty v hv
  case taken_of_client => exact fun v i hv => h.taken_of_client v i (hback v i hv)
  case alone => exact fun v v' i hv hv' => h.alone v v' i (hback v i hv) (hback v' i hv')
  case tame =>
    intro v hv
    obtain rfl | hne := eq_or_ne v w
    · rw [posts_post_self] at hv
      exact hwild hv
    · rw [posts_post_of_ne hne] at hv
      exact h.tame v hv

/-- A worker takes the client that comes next. -/
theorem Fleet.Dispatch.take (h : f.Dispatch r taken) {queue : Cq} {rest : List (Fin n)}
    (hrest : taken ++ i :: rest = List.finRange n)
    (hholds : HoldsClients queue (rest.map r.addr)) :
    ({ f with queue := queue }.post w (.popped i)).Dispatch r (taken ++ [i]) := by
  have hnew : ∀ v, (f.posts v).client ≠ some i := by
    intro v hv
    have hnodup := List.nodup_finRange n
    rw [← hrest] at hnodup
    exact List.disjoint_of_nodup_append hnodup (h.taken_of_client v i hv) List.mem_cons_self
  set f' := { f with queue := queue }.post w (.popped i)
  have hself : f'.posts w = .popped i := posts_post_self _
  have hothers : ∀ {v}, v ≠ w → f'.posts v = f.posts v := fun hne => posts_post_of_ne hne _
  constructor
  case order =>
    refine ⟨rest, by rw [← hrest, ← List.append_cons], hholds, fun v hv => ?_⟩
    obtain rfl | hne := eq_or_ne v w
    · rw [hself] at hv
      cases hv
    · rw [hothers hne] at hv
      obtain ⟨rest', hrest', -, hempty⟩ := h.order
      rw [hempty v hv, List.append_nil, ← hrest] at hrest'
      exact absurd hrest' (by simp)
  case taken_of_client =>
    intro v j hv
    obtain rfl | hne := eq_or_ne v w
    · rw [hself] at hv
      obtain rfl := Option.some.inj hv
      exact List.mem_append_right _ (List.mem_singleton.mpr rfl)
    · rw [hothers hne] at hv
      exact List.mem_append_left _ (h.taken_of_client v j hv)
  case alone =>
    intro v v' j hv hv'
    obtain rfl | hne := eq_or_ne v w
    · obtain rfl | hne' := eq_or_ne v' v
      · rfl
      · rw [hself] at hv
        obtain rfl := Option.some.inj hv
        rw [hothers hne'] at hv'
        exact absurd hv' (hnew v')
    · rw [hothers hne] at hv
      obtain rfl | hne' := eq_or_ne v' w
      · rw [hself] at hv'
        obtain rfl := Option.some.inj hv'
        exact absurd hv (hnew v)
      · rw [hothers hne'] at hv'
        exact h.alone v v' j hv hv'
  case tame =>
    intro v hv
    obtain rfl | hne := eq_or_ne v w
    · rw [hself] at hv
      cases hv
    · rw [hothers hne] at hv
      exact h.tame v hv

/-- **What `pop_client` does.**  With no client left the worker returns, and otherwise it takes
the client that comes next. -/
theorem Fleet.Dispatch.pop_cases (h : f.Dispatch r taken) (w : Fin W) (garbage : UInt64) :
    (taken = List.finRange n ∧ f.pop r w garbage = (f.post w .returned, none)) ∨
      ∃ i queue rest, taken ++ i :: rest = List.finRange n ∧
        HoldsClients queue (rest.map r.addr) ∧
        f.pop r w garbage = ({ f with queue := queue }.post w (.popped i), some (.took i)) := by
  obtain ⟨rest, hrest, hholds, -⟩ := h.order
  unfold Fleet.pop
  cases rest with
  | nil =>
      refine Or.inl ⟨by rwa [List.append_nil] at hrest, ?_⟩
      rw [hholds.pop_nil]
      rfl
  | cons i rest =>
      obtain ⟨queue, hpop, hleft⟩ := hholds.pop_cons garbage
      refine Or.inr ⟨i, queue, rest, hrest, hleft, ?_⟩
      dsimp only
      rw [hpop, if_neg (r.addr_ne_zero i), r.clientAt_addr]

/-- **Everything a step can do.**  Beside the steps of a worker in its loop these are the calls
of the queue and of the table, and the two halves of the receiver. -/
inductive Fleet.Moved (r : Roster n W) (f : Fleet n W) (taken : List (Fin n)) :
    FleetStep W → Fleet n W × Option (FleetEvent n) → Prop
  | stays (step : FleetStep W) : f.Moved r taken step (f, none)
  | returns (w : Fin W) (garbage : UInt64) (idle : f.posts w = .idle)
      (all : taken = List.finRange n) :
      f.Moved r taken (.pop w garbage) (f.post w .returned, none)
  | takes (w : Fin W) (garbage : UInt64) (i : Fin n) (queue : Cq) (rest : List (Fin n))
      (idle : f.posts w = .idle) (next : taken ++ i :: rest = List.finRange n)
      (holds : HoldsClients queue (rest.map r.addr)) :
      f.Moved r taken (.pop w garbage)
        ({ f with queue := queue }.post w (.popped i), some (.took i))
  | clears (w : Fin W) (i : Fin n) (has : f.posts w = .popped i) :
      f.Moved r taken (.clear w)
        ((f.put i { f.clients i with mailbox := [] }).post w (.cleared i), none)
  | inserts (w : Fin W) (i : Fin n) (has : f.posts w = .cleared i) :
      f.Moved r taken (.insert w)
        ({ f with table := xidTabInsert r.xid f.table i }.post w (.serving i), none)
  | works (w : Fin W) (i : Fin n) (step : BenchStep) (has : f.posts w = .serving i)
      (own : step.IsWorkers) :
      f.Moved r taken (.work w step)
        (f.put i (benchStep (r.mac i) (r.xid i) (f.clients i) step).1,
          (benchStep (r.mac i) (r.xid i) (f.clients i) step).2.map (.called i))
  | removes (w : Fin W) (i : Fin n) (has : f.posts w = .serving i)
      (isOut : (f.clients i).worker = .out) :
      f.Moved r taken (.remove w)
        ({ f with table := xidTabRemove r.xid f.table (r.xid i) }.post w .idle, none)
  | receives (frame : List UInt8) (x : UInt32) (free : f.receiver = none)
      (hasXid : received x frame = some (frame.take recvLen))
      (found : xidTabLookup r.xid f.table x ≠ .null) :
      f.Moved r taken (.receive frame)
        ({ f with receiver := some (xidTabLookup r.xid f.table x, frame.take recvLen) }, none)
  | delivers (i : Fin n) (rbuf : List UInt8) (has : f.receiver = some (.client i, rbuf)) :
      f.Moved r taken .deliver
        ({ f.put i { f.clients i with mailbox := rbuf } with receiver := none }, none)

theorem Fleet.moved_receive (hfree : f.receiver = none) (frame : List UInt8) :
    f.Moved r taken (.receive frame) (f.receive r frame, none) := by
  unfold Fleet.receive
  dsimp only
  split
  · exact .stays _
  · next x hx =>
      split
      · exact .stays _
      · next hfound => exact .receives frame x hfree (if_pos hx) hfound

theorem Fleet.Dispatch.moved (h : f.Dispatch r taken) (step : FleetStep W) :
    f.Moved r taken step (fleetStep r f step) := by
  cases step with
  | pop w garbage =>
      simp only [fleetStep]
      split_ifs with hidle
      · obtain ⟨hall, heq⟩ | ⟨i, queue, rest, hrest, hholds, heq⟩ := h.pop_cases w garbage
        · rw [heq]
          exact .returns w garbage hidle hall
        · rw [heq]
          exact .takes w garbage i queue rest hidle hrest hholds
      · exact .stays _
  | clear w =>
      simp only [fleetStep]
      split
      · next i hhas => exact .clears w i hhas
      · exact .stays _
  | insert w =>
      simp only [fleetStep]
      split
      · next i hhas => exact .inserts w i hhas
      · exact .stays _
  | work w step =>
      simp only [fleetStep]
      split
      · next i hhas =>
          split_ifs with hown
          · exact .works w i step hhas hown
          · exact .stays _
      · exact .stays _
  | remove w =>
      simp only [fleetStep]
      split
      · next i hhas =>
          split_ifs with hover
          · exact .removes w i hhas hover
          · exact .stays _
      · exact .stays _
  | receive frame =>
      simp only [fleetStep]
      split_ifs with hfree
      · exact f.moved_receive hfree frame
      · exact .stays _
  | deliver =>
      simp only [fleetStep]
      split
      · next i rbuf hhas => exact .delivers i rbuf hhas
      · exact .stays _

/-- A call is not a client handed out. -/
@[simp] theorem handedOut_called (i : Fin n) (call : Option SendCall) :
    handedOut (call.map (.called i)) = [] := by
  cases call <;> rfl

@[simp] theorem handedOut_none : handedOut (none : Option (FleetEvent n)) = [] := rfl

/-- **One step** hands out at most the client that comes next. -/
theorem Fleet.Dispatch.step (h : f.Dispatch r taken) {step : FleetStep W}
    {done : Fleet n W × Option (FleetEvent n)}
    (hmoved : f.Moved r taken step done) : done.1.Dispatch r (taken ++ handedOut done.2) := by
  cases hmoved with
  | stays => simpa using h
  | returns w garbage idle all =>
      rw [handedOut_none, List.append_nil]
      exact h.post (by simp [Post.client]) (fun _ => all) (by simp)
  | takes w garbage i queue rest idle next holds => exact h.take next holds
  | clears w i has =>
      rw [handedOut_none, List.append_nil]
      have hput : (f.put i { f.clients i with mailbox := [] }).Dispatch r taken := h.of_eq rfl rfl
      exact hput.post (fun j hj => (congrArg Post.client has).trans hj) (by simp) (by simp)
  | inserts w i has =>
      rw [handedOut_none, List.append_nil]
      have hput : { f with table := xidTabInsert r.xid f.table i }.Dispatch r taken :=
        h.of_eq rfl rfl
      exact hput.post (fun j hj => (congrArg Post.client has).trans hj) (by simp) (by simp)
  | works w i step has own =>
      rw [handedOut_called, List.append_nil]
      exact h.of_eq rfl rfl
  | removes w i has isOut =>
      rw [handedOut_none, List.append_nil]
      have hput : { f with table := xidTabRemove r.xid f.table (r.xid i) }.Dispatch r taken :=
        h.of_eq rfl rfl
      exact hput.post (by simp [Post.client]) (by simp) (by simp)
  | receives frame x free hasXid found =>
      rw [handedOut_none, List.append_nil]
      exact h.of_eq rfl rfl
  | delivers i rbuf has =>
      rw [handedOut_none, List.append_nil]
      exact h.of_eq rfl rfl

end Dispatch

/-! ## Clients and the table -/

/-- The client has not been inserted into the table yet: it waits in the queue, or its worker
has just popped it. -/
def Fleet.Ahead {n W : ℕ} (f : Fleet n W) (taken : List (Fin n)) (i : Fin n) : Prop :=
  i ∉ taken ∨ ∃ w, f.posts w = .popped i ∨ f.posts w = .cleared i

/-- A client is as `main` has prepared it until it is in the table, and out of its loop when
no worker has it any more.  The table lists clients that are being served; only a client with
the transaction number of another one may be missing.  The receiver has a frame for a client
that was in the table. -/
structure Fleet.Stages {n W : ℕ} (r : Roster n W) (f : Fleet n W) (taken : List (Fin n)) :
    Prop where
  untouched : ∀ i, f.Ahead taken i → f.clients i = Bench.fresh (r.mac i) (r.xid i)
  isOut : ∀ i ∈ taken, (∀ w, (f.posts w).client ≠ some i) → (f.clients i).worker = .out
  listed : ∃ listed, HoldsXids r.xid f.table listed ∧
    (∀ i ∈ listed, ∃ w, f.posts w = .serving i) ∧
    (Function.Injective r.xid → ∀ w i, f.posts w = .serving i → i ∈ listed)
  pointed : ∀ p rbuf, f.receiver = some (p, rbuf) →
    ∃ i frame, p = .client i ∧ ¬ f.Ahead taken i ∧ received (r.xid i) frame = some rbuf

section Stages

variable {n W : ℕ} {r : Roster n W} {f : Fleet n W} {taken : List (Fin n)} {w : Fin W}
  {i : Fin n} {step : FleetStep W} {done : Fleet n W × Option (FleetEvent n)}

theorem fleetInit_stages (prior : Cq) (priorTab : XidTab (Fin n)) :
    (fleetInit r prior priorTab).Stages r [] where
  untouched _ _ := rfl
  isOut _ h := absurd h List.not_mem_nil
  listed := ⟨[], xidTabInit_holds priorTab, fun _ h => absurd h List.not_mem_nil,
    fun _ _ _ h => by cases h⟩
  pointed _ _ h := by cases h

/-- A client that is being served has been inserted. -/
theorem Fleet.Dispatch.not_ahead (h : f.Dispatch r taken) (hserving : f.posts w = .serving i) :
    ¬ f.Ahead taken i := by
  have hclient : (f.posts w).client = some i := congrArg Post.client hserving
  rintro (hnew | ⟨v, hv⟩)
  · exact hnew (h.taken_of_client w i hclient)
  · have hvi : (f.posts v).client = some i := by
      obtain hv | hv := hv
      · exact congrArg Post.client hv
      · exact congrArg Post.client hv
    obtain rfl := h.alone v w i hvi hclient
    simp [hserving] at hv

/-- A worker that moves on does not bring a client back. -/
theorem ahead_of_post {post : Post (Fin n)} (h : (f.post w post).Ahead taken i)
    (hpost : post = .popped i ∨ post = .cleared i → f.Ahead taken i) : f.Ahead taken i := by
  obtain hnew | ⟨v, hv⟩ := h
  · exact Or.inl hnew
  · obtain rfl | hne := eq_or_ne v w
    · rw [posts_post_self] at hv
      exact hpost hv
    · rw [posts_post_of_ne hne] at hv
      exact Or.inr ⟨v, hv⟩

/-- **A client that has been inserted stays so.** -/
theorem Fleet.Moved.ahead (hmoved : f.Moved r taken step done)
    (h : done.1.Ahead (taken ++ handedOut done.2) i) : f.Ahead taken i := by
  cases hmoved with
  | stays => rwa [handedOut_none, List.append_nil] at h
  | returns w garbage idle all =>
      rw [handedOut_none, List.append_nil] at h
      exact ahead_of_post h (by simp)
  | takes w garbage j queue rest idle next holds =>
      obtain hnew | ⟨v, hv⟩ := h
      · exact Or.inl fun hi => hnew (List.mem_append_left _ hi)
      · obtain rfl | hne := eq_or_ne v w
        · -- a client that is taken was waiting
          rw [posts_post_self] at hv
          obtain rfl : j = i := by simpa using hv
          have hnodup := List.nodup_finRange n
          rw [← next] at hnodup
          exact Or.inl fun hi =>
            List.disjoint_of_nodup_append hnodup hi List.mem_cons_self
        · rw [posts_post_of_ne hne] at hv
          exact Or.inr ⟨v, hv⟩
  | clears w j has =>
      rw [handedOut_none, List.append_nil] at h
      refine ahead_of_post h fun hj => Or.inr ⟨w, Or.inl ?_⟩
      obtain rfl : j = i := by simpa using hj
      exact has
  | inserts w j has =>
      rw [handedOut_none, List.append_nil] at h
      exact ahead_of_post h (by simp)
  | works w j step has own => rwa [handedOut_called, List.append_nil] at h
  | removes w j has isOut =>
      rw [handedOut_none, List.append_nil] at h
      exact ahead_of_post h (by simp)
  | receives frame x free hasXid found => rwa [handedOut_none, List.append_nil] at h
  | delivers j rbuf has => rwa [handedOut_none, List.append_nil] at h

/-- The data of a client that has not been inserted do not change. -/
theorem Fleet.Stages.untouched_step (h : f.Stages r taken) (hdispatch : f.Dispatch r taken)
    (hmoved : f.Moved r taken step done) (hahead : f.Ahead taken i) :
    done.1.clients i = Bench.fresh (r.mac i) (r.xid i) := by
  have hfresh := h.untouched i hahead
  cases hmoved with
  | stays | returns | takes | inserts | removes | receives => exact hfresh
  | clears w j has =>
      obtain rfl | hne := eq_or_ne i j
      · show (f.put i { f.clients i with mailbox := [] }).clients i = _
        rw [clients_put_self, hfresh]
        rfl
      · exact (clients_put_of_ne hne _).trans hfresh
  | works w j step has own =>
      obtain rfl | hne := eq_or_ne i j
      · exact absurd hahead (hdispatch.not_ahead has)
      · exact (clients_put_of_ne hne _).trans hfresh
  | delivers j rbuf has =>
      obtain ⟨i', -, hi', hinserted, -⟩ := h.pointed _ _ has
      obtain rfl := ClientPtr.client.inj hi'
      obtain rfl | hne := eq_or_ne i j
      · exact absurd hahead hinserted
      · exact (clients_put_of_ne hne _).trans hfresh

/-- No worker had a client that no worker has now, except the one that has moved. -/
theorem client_ne_of_post {post : Post (Fin n)}
    (h : ∀ v, ((f.post w post).posts v).client ≠ some i) (hw : (f.posts w).client ≠ some i)
    (v : Fin W) : (f.posts v).client ≠ some i := by
  obtain rfl | hne := eq_or_ne v w
  · exact hw
  · have hv := h v
    rwa [posts_post_of_ne hne] at hv

/-- The worker that moves on keeps its client. -/
theorem client_ne_of_post_same {post : Post (Fin n)}
    (h : ∀ v, ((f.post w post).posts v).client ≠ some i)
    (hsame : post.client = (f.posts w).client) (v : Fin W) : (f.posts v).client ≠ some i := by
  refine client_ne_of_post h ?_ v
  rw [← hsame, ← posts_post_self (f := f) (w := w) post]
  exact h w

/-- A client that no worker has any more is out of its loop. -/
theorem Fleet.Stages.isOut_step (h : f.Stages r taken) (hmoved : f.Moved r taken step done)
    (htaken : i ∈ taken ++ handedOut done.2)
    (hnobody : ∀ v, (done.1.posts v).client ≠ some i) : (done.1.clients i).worker = .out := by
  cases hmoved with
  | stays =>
      rw [handedOut_none, List.append_nil] at htaken
      exact h.isOut i htaken hnobody
  | returns w garbage idle all =>
      rw [handedOut_none, List.append_nil] at htaken
      exact h.isOut i htaken (client_ne_of_post_same hnobody (by rw [idle]; rfl))
  | takes w garbage j queue rest idle next holds =>
      have hj : i ≠ j := by
        rintro rfl
        exact hnobody w (by rw [posts_post_self]; rfl)
      have hold : i ∈ taken := by simpa [handedOut, hj] using htaken
      exact h.isOut i hold (client_ne_of_post hnobody (by simp [idle, Post.client]))
  | clears w j has =>
      rw [handedOut_none, List.append_nil] at htaken
      have hj : i ≠ j := by
        rintro rfl
        exact hnobody w (by rw [posts_post_self]; rfl)
      have hsame := client_ne_of_post_same (f := f.put j _) hnobody (by
        show _ = (f.posts w).client
        rw [has]
        rfl)
      exact (congrArg Bench.worker (clients_put_of_ne hj _)).trans (h.isOut i htaken hsame)
  | inserts w j has =>
      rw [handedOut_none, List.append_nil] at htaken
      exact h.isOut i htaken (client_ne_of_post_same hnobody (by
        show _ = (f.posts w).client
        rw [has]
        rfl))
  | works w j step has own =>
      rw [handedOut_called, List.append_nil] at htaken
      have hj : i ≠ j := by
        rintro rfl
        exact hnobody w (congrArg Post.client has)
      exact (congrArg Bench.worker (clients_put_of_ne hj _)).trans (h.isOut i htaken hnobody)
  | removes w j has isOut =>
      rw [handedOut_none, List.append_nil] at htaken
      obtain rfl | hne := eq_or_ne i j
      · exact isOut
      · have hother : (f.posts w).client ≠ some i := by simp [has, Post.client, hne.symm]
        exact h.isOut i htaken (client_ne_of_post hnobody hother)
  | receives frame x free hasXid found =>
      rw [handedOut_none, List.append_nil] at htaken
      exact h.isOut i htaken hnobody
  | delivers j rbuf has =>
      rw [handedOut_none, List.append_nil] at htaken
      have hout := h.isOut i htaken hnobody
      obtain rfl | hne := eq_or_ne i j
      · exact (congrArg Bench.worker (clients_put_self (f := f) _)).trans hout
      · exact (congrArg Bench.worker (clients_put_of_ne hne _)).trans hout

/-- The workers that serve clients are as many as the clients that are served, so that there is
room in the table for another one. -/
theorem length_lt_of_served {listed : List (Fin n)} (hnodup : listed.Nodup)
    (hserved : ∀ i ∈ listed, ∃ v, f.posts v = .serving i) (hw : ∀ i, f.posts w ≠ .serving i) :
    listed.length < W := by
  have hsubset : listed.toFinset.image some ⊆
      (Finset.univ.erase w).image fun v => (f.posts v).client := by
    intro o ho
    obtain ⟨i, hi, rfl⟩ := Finset.mem_image.mp ho
    obtain ⟨v, hv⟩ := hserved i (List.mem_toFinset.mp hi)
    refine Finset.mem_image.mpr ⟨v, Finset.mem_erase.mpr ⟨?_, Finset.mem_univ v⟩,
      congrArg Post.client hv⟩
    rintro rfl
    exact hw i hv
  have hcard := (Finset.card_le_card hsubset).trans Finset.card_image_le
  rw [Finset.card_image_of_injective _ (Option.some_injective _),
    List.toFinset_card_of_nodup hnodup, Finset.card_erase_of_mem (Finset.mem_univ w),
    Finset.card_univ, Fintype.card_fin] at hcard
  have hpos : 0 < W := w.pos
  omega

/-- The table stays as it is when nobody starts or stops serving. -/
theorem Fleet.Stages.listed_of_eq (h : f.Stages r taken) {f' : Fleet n W}
    (htable : f'.table = f.table)
    (hserving : ∀ v i, f'.posts v = .serving i ↔ f.posts v = .serving i) :
    ∃ listed, HoldsXids r.xid f'.table listed ∧
      (∀ i ∈ listed, ∃ v, f'.posts v = .serving i) ∧
      (Function.Injective r.xid → ∀ v i, f'.posts v = .serving i → i ∈ listed) := by
  obtain ⟨listed, hholds, hserved, hall⟩ := h.listed
  refine ⟨listed, htable ▸ hholds, fun i hi => ?_, fun hinj v i hv => ?_⟩
  · obtain ⟨v, hv⟩ := hserved i hi
    exact ⟨v, (hserving v i).mpr hv⟩
  · exact hall hinj v i ((hserving v i).mp hv)

/-- A worker that neither starts nor stops serving. -/
theorem serving_post_iff {post : Post (Fin n)} (hbefore : ∀ i, f.posts w ≠ .serving i)
    (hafter : ∀ i, post ≠ .serving i) (v : Fin W) (i : Fin n) :
    (f.post w post).posts v = .serving i ↔ f.posts v = .serving i := by
  obtain rfl | hne := eq_or_ne v w
  · rw [posts_post_self]
    exact iff_of_false (hafter i) (hbefore i)
  · rw [posts_post_of_ne hne]

/-- **The table** lists clients that are served, and all of them if they have different
numbers. -/
theorem Fleet.Stages.listed_step (h : f.Stages r taken) (hdispatch : f.Dispatch r taken)
    (hmoved : f.Moved r taken step done) :
    ∃ listed, HoldsXids r.xid done.1.table listed ∧
      (∀ i ∈ listed, ∃ v, done.1.posts v = .serving i) ∧
      (Function.Injective r.xid → ∀ v i, done.1.posts v = .serving i → i ∈ listed) := by
  cases hmoved with
  | stays | works | receives | delivers => exact h.listed_of_eq rfl fun _ _ => Iff.rfl
  | returns w garbage idle all =>
      exact h.listed_of_eq rfl (serving_post_iff (by simp [idle]) (by simp))
  | takes w garbage j queue rest idle next holds =>
      exact h.listed_of_eq rfl (serving_post_iff (f := { f with queue := queue })
        (by simp [idle]) (by simp))
  | clears w j has =>
      exact h.listed_of_eq rfl (serving_post_iff (f := f.put j _)
        (by simp [Fleet.put, has]) (by simp))
  | inserts w j has =>
      obtain ⟨listed, hholds, hserved, hall⟩ := h.listed
      have hroom := length_lt_of_served hholds.nodup hserved (w := w) (by simp [has])
      have hinserted := hholds.insert j
      rw [if_neg (hroom.trans_le r.workers_fit).ne] at hinserted
      refine ⟨_, hinserted, fun i hi => ?_, fun hinj v i hv => ?_⟩
      · obtain rfl | hi := List.mem_cons.mp hi
        · exact ⟨w, posts_post_self _⟩
        · obtain ⟨v, hv⟩ := hserved i (mem_dropXid.mp hi).1
          refine ⟨v, (posts_post_of_ne ?_ _).trans hv⟩
          rintro rfl
          simp [has] at hv
      · obtain rfl | hne := eq_or_ne v w
        · rw [posts_post_self] at hv
          obtain rfl := Post.serving.inj hv
          exact List.mem_cons_self
        · rw [posts_post_of_ne hne] at hv
          obtain rfl | hij := eq_or_ne i j
          · exact List.mem_cons_self
          · exact List.mem_cons_of_mem _
              (mem_dropXid.mpr ⟨hall hinj v i hv, fun hsame => hij (hinj hsame)⟩)
  | removes w j has isOut =>
      obtain ⟨listed, hholds, hserved, hall⟩ := h.listed
      refine ⟨_, hholds.remove (r.xid j), fun i hi => ?_, fun hinj v i hv => ?_⟩
      · obtain ⟨hlisted, hne⟩ := mem_dropXid.mp hi
        obtain ⟨v, hv⟩ := hserved i hlisted
        refine ⟨v, (posts_post_of_ne ?_ _).trans hv⟩
        rintro rfl
        obtain rfl := Post.serving.inj (has.symm.trans hv)
        exact hne rfl
      · obtain rfl | hvw := eq_or_ne v w
        · rw [posts_post_self] at hv
          cases hv
        · rw [posts_post_of_ne hvw] at hv
          refine mem_dropXid.mpr ⟨hall hinj v i hv, fun hsame => hvw ?_⟩
          obtain rfl := hinj hsame
          exact hdispatch.alone v w i (congrArg Post.client hv) (congrArg Post.client has)

/-- What a lookup finds is a client that is being served, with the number. -/
theorem Fleet.Stages.lookup_cases (h : f.Stages r taken) (x : UInt32) :
    xidTabLookup r.xid f.table x = .null ∨
      ∃ i v, xidTabLookup r.xid f.table x = .client i ∧ r.xid i = x ∧ f.posts v = .serving i := by
  obtain ⟨listed, hholds, hserved, -⟩ := h.listed
  rw [hholds.lookup]
  cases hfind : listed.find? fun i => r.xid i = x with
  | none => exact Or.inl rfl
  | some i =>
      have hxid := List.find?_some hfind
      obtain ⟨v, hv⟩ := hserved i (List.mem_of_find?_eq_some hfind)
      exact Or.inr ⟨i, v, rfl, of_decide_eq_true hxid, hv⟩

/-- The receiver has a frame for a client that was in the table. -/
theorem Fleet.Stages.pointed_step (h : f.Stages r taken) (hdispatch : f.Dispatch r taken)
    (hmoved : f.Moved r taken step done) {p : ClientPtr (Fin n)} {rbuf : List UInt8}
    (hreceiver : done.1.receiver = some (p, rbuf)) :
    ∃ i frame, p = .client i ∧ ¬ done.1.Ahead (taken ++ handedOut done.2) i ∧
      received (r.xid i) frame = some rbuf := by
  have hkeep : f.receiver = some (p, rbuf) → ∃ i frame, p = .client i ∧
      ¬ done.1.Ahead (taken ++ handedOut done.2) i ∧ received (r.xid i) frame = some rbuf := by
    intro hold
    obtain ⟨i, frame, hp, hinserted, hreceived⟩ := h.pointed p rbuf hold
    exact ⟨i, frame, hp, fun hahead => hinserted (hmoved.ahead hahead), hreceived⟩
  cases hmoved with
  | stays | returns | takes | clears | inserts | works | removes => exact hkeep hreceiver
  | delivers => cases hreceiver
  | receives frame x free hasXid found =>
      obtain ⟨rfl, rfl⟩ := Prod.mk.inj (Option.some.inj hreceiver)
      obtain hnull | ⟨i, v, hi, rfl, hv⟩ := h.lookup_cases x
      · exact absurd hnull found
      · refine ⟨i, frame, hi, ?_, hasXid⟩
        rw [handedOut_none, List.append_nil]
        exact hdispatch.not_ahead hv

end Stages

/-- **One step** keeps what the clients and the table have to do with the workers. -/
theorem Fleet.Stages.step {n W : ℕ} {r : Roster n W} {f : Fleet n W} {taken : List (Fin n)}
    {step : FleetStep W} {done : Fleet n W × Option (FleetEvent n)} (h : f.Stages r taken)
    (hdispatch : f.Dispatch r taken) (hmoved : f.Moved r taken step done) :
    done.1.Stages r (taken ++ handedOut done.2) where
  untouched _ hahead := h.untouched_step hdispatch hmoved (hmoved.ahead hahead)
  isOut _ htaken hnobody := h.isOut_step hmoved htaken hnobody
  listed := h.listed_step hdispatch hmoved
  pointed _ _ hreceiver := h.pointed_step hdispatch hmoved hreceiver

/-! ## Whole runs -/

section Runs

variable {n W : ℕ} (r : Roster n W) (prior : Cq) (priorTab : XidTab (Fin n))

/-- The benchmark after some steps of its threads. -/
def fleetAfter (run : List (FleetStep W)) : Fleet n W :=
  exec (fleetStep r) (fleetInit r prior priorTab) run

/-- The clients handed out in these steps. -/
def takenIn (run : List (FleetStep W)) : List (Fin n) :=
  emitted (fleetStep r) handedOut (fleetInit r prior priorTab) run

/-- **Every run** keeps both invariants. -/
theorem fleet_inv (run : List (FleetStep W)) :
    (fleetAfter r prior priorTab run).Dispatch r (takenIn r prior priorTab run) ∧
      (fleetAfter r prior priorTab run).Stages r (takenIn r prior priorTab run) := by
  have hstep : ∀ (f : Fleet n W) taken step, f.Dispatch r taken ∧ f.Stages r taken → True →
      (fleetStep r f step).1.Dispatch r (taken ++ handedOut (fleetStep r f step).2) ∧
        (fleetStep r f step).1.Stages r (taken ++ handedOut (fleetStep r f step).2) := by
    intro f taken step ⟨hdispatch, hstages⟩ _
    have hmoved := hdispatch.moved step
    exact ⟨hdispatch.step hmoved, hstages.step hdispatch hmoved⟩
  exact exec_emitted_along (fun f taken => Fleet.Dispatch r f taken ∧ Fleet.Stages r f taken)
    hstep run _ [] ⟨fleetInit_dispatch prior priorTab, fleetInit_stages prior priorTab⟩
    (along_of_forall (fun _ _ => trivial) run _)

variable {r prior priorTab}

/-- When every worker has returned, no client is left, and all of them are out of their
loops. -/
theorem Fleet.Dispatch.all_out {f : Fleet n W} {taken : List (Fin n)} (h : f.Dispatch r taken)
    (hstages : f.Stages r taken) (hreturned : ∀ w, f.posts w = .returned) :
    taken = List.finRange n ∧ ∀ i, (f.clients i).worker = .out := by
  obtain ⟨rest, hrest, -, hempty⟩ := h.order
  have hall : taken = List.finRange n := by
    rwa [hempty ⟨0, r.workers_pos⟩ (hreturned _), List.append_nil] at hrest
  refine ⟨hall, fun i => hstages.isOut i ?_ fun w => ?_⟩
  · rw [hall]
    exact List.mem_finRange i
  · rw [hreturned w]
    exact fun h => by cases h

variable (r prior priorTab)

/-- **The clients are handed out in order, each one once**, whatever the order in which the
threads take their steps.  No two workers have the same client, and no worker ever has anything
else.  When every worker has returned, so that `main` gets past `pthread_join`, every client
has been served to its end. -/
theorem fleet_dispatch (run : List (FleetStep W)) :
    let f := fleetAfter r prior priorTab run
    takenIn r prior priorTab run <+: List.finRange n ∧
      (∀ w, f.posts w ≠ .wild) ∧
      (∀ w w' i, (f.posts w).client = some i → (f.posts w').client = some i → w = w') ∧
      ((∀ w, f.posts w = .returned) →
        takenIn r prior priorTab run = List.finRange n ∧
          ∀ i, (f.clients i).worker = .out) := by
  intro f
  obtain ⟨hdispatch, hstages⟩ := fleet_inv r prior priorTab run
  obtain ⟨rest, hrest, -, -⟩ := hdispatch.order
  exact ⟨⟨rest, hrest⟩, hdispatch.tame, hdispatch.alone, hdispatch.all_out hstages⟩

/-- **Which client a lookup finds.**  In every reachable state it finds nothing, or a client
with the number that a worker is serving at this moment; never a pointer of another kind, and
never a client that its worker has not inserted yet, whose mailbox the worker clears without
the lock.  If no two clients have the same number, it finds every client that is served. -/
theorem fleet_lookup (run : List (FleetStep W)) :
    let f := fleetAfter r prior priorTab run
    (∀ x, xidTabLookup r.xid f.table x = .null ∨
        ∃ i w, xidTabLookup r.xid f.table x = .client i ∧ r.xid i = x ∧
          f.posts w = .serving i) ∧
      (∀ i, f.Ahead (takenIn r prior priorTab run) i →
        f.clients i = Bench.fresh (r.mac i) (r.xid i) ∧ ∀ rbuf,
          f.receiver ≠ some (.client i, rbuf)) ∧
      (Function.Injective r.xid → ∀ w i, f.posts w = .serving i →
        xidTabLookup r.xid f.table (r.xid i) = .client i) := by
  intro f
  obtain ⟨hdispatch, hstages⟩ := fleet_inv r prior priorTab run
  refine ⟨hstages.lookup_cases, fun i hahead => ⟨hstages.untouched i hahead, ?_⟩, ?_⟩
  · intro rbuf hreceiver
    obtain ⟨j, -, hj, hinserted, -⟩ := hstages.pointed _ _ hreceiver
    obtain rfl := ClientPtr.client.inj hj
    exact hinserted hahead
  · intro hinj w i hserving
    obtain ⟨listed, hholds, -, hall⟩ := hstages.listed
    exact hholds.lookup_of_mem (hall hinj w i hserving)

end Runs

end BaremetalDhcp
