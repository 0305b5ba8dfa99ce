import Mathlib.Algebra.BigOperators.Fin
import BaremetalDhcp.Lib.Termination
import BaremetalDhcp.Benchmark

/-!
# The threads of the benchmark come to an end

`main` waits for all its workers with `pthread_join`.  No worker ever waits for another one,
and a worker that hears nothing gives up after `MAX_RETRIES` time-outs, so that the benchmark
ends once no more frames arrive.

* `Bench.rank` — how many steps the worker of a client can still take.
* `Fleet.rank` — the same for all threads; `Fleet.Moved.rank_lt` is the step lemma.

A step *counts* if it is not the arrival of a frame and changes anything at all, which leaves
out spurious wake-ups.  `fleet_terminates` bounds the number of such steps and says that no
worker is ever stuck; `fleet_outcome` says what has become of each client in the end.
-/

namespace BaremetalDhcp

open Machine

/-! ## The worker of a client -/

/-- The time-outs and the OFFER that are still to come. -/
def Bench.tries (b : Bench) : ℕ :=
  8 * (maxRetries - b.retries) + if b.state = .discover then 32 else 0

/-- A frame in the mailbox is taken out once. -/
def Bench.unread (b : Bench) : ℕ := if b.mailbox = [] then 0 else 4

/-- A bound for the steps of the worker. -/
def Bench.rank (b : Bench) : ℕ :=
  match b.worker with
  | .starting => 64
  | .locking => b.tries + 2 + b.unread
  | .blocked => b.tries + 1 + b.unread
  | .holding _ => b.tries + 3 + b.unread
  | .out => 0

section Client

variable {mac : Bytes 6} {xid : UInt32} {b : Bench}

theorem Bench.tries_le (b : Bench) : b.tries ≤ 56 := by
  unfold Bench.tries maxRetries
  split_ifs <;> omega

theorem Bench.unread_le (b : Bench) : b.unread ≤ 4 := by
  unfold Bench.unread
  split_ifs <;> omega

theorem Bench.rank_le (b : Bench) : b.rank ≤ 64 := by
  have htries := b.tries_le
  have hunread := b.unread_le
  unfold Bench.rank
  split <;> omega

/-- A delivery gives the worker a frame to take out. -/
theorem Bench.rank_mailbox_le (b : Bench) (rbuf : List UInt8) :
    { b with mailbox := rbuf }.rank ≤ b.rank + 4 := by
  have hunread := { b with mailbox := rbuf }.unread_le
  have htries : { b with mailbox := rbuf }.tries = b.tries := rfl
  unfold Bench.rank
  dsimp only
  split <;> omega

theorem Bench.rank_locking (h : b.worker = .locking) : b.rank = b.tries + 2 + b.unread := by
  rw [Bench.rank, h]

theorem Bench.rank_blocked (h : b.worker = .blocked) : b.rank = b.tries + 1 + b.unread := by
  rw [Bench.rank, h]

theorem Bench.rank_holding {rbuf : List UInt8} (h : b.worker = .holding rbuf) :
    b.rank = b.tries + 3 + b.unread := by
  rw [Bench.rank, h]

/-- The worker takes the frame out of the mailbox, or waits. -/
theorem Bench.rank_test (hworker : b.worker = .locking ∨ b.worker = .blocked) :
    b.test = b ∨ b.test.rank < b.rank := by
  unfold Bench.test
  split_ifs with hempty
  · obtain hw | hw := hworker
    · refine Or.inr ?_
      have hrank : { b with worker := .blocked }.rank = b.tries + 1 + b.unread := rfl
      rw [hrank, Bench.rank_locking hw]
      omega
    · refine Or.inl ?_
      rw [← hw]
  · refine Or.inr ?_
    have hrank : { b with worker := .holding b.mailbox, mailbox := [] }.rank = b.tries + 3 + 0 :=
      rfl
    have hunread : b.unread = 4 := if_neg hempty
    obtain hw | hw := hworker
    · rw [hrank, Bench.rank_locking hw]
      omega
    · rw [hrank, Bench.rank_blocked hw]
      omega

/-- **A time-out** uses up a try. -/
theorem Bench.rank_timedOut (hworker : b.worker = .blocked) (ok : Bool) :
    (b.timedOut ok).1.rank < b.rank := by
  rw [Bench.rank_blocked hworker]
  unfold Bench.timedOut
  dsimp only
  split_ifs with hover
  · exact Nat.lt_of_lt_of_le (Nat.succ_pos _) (Nat.le_add_right _ _)
  · have hrank : { b with retries := b.retries + 1, worker := .locking }.rank =
        8 * (maxRetries - (b.retries + 1)) + (if b.state = .discover then 32 else 0) + 2 +
          b.unread := rfl
    rw [hrank, Bench.tries]
    omega

/-- **The switch** has one frame less to look at; after an OFFER there are new tries, but no
other OFFER will be answered. -/
theorem Bench.rank_process {rbuf : List UInt8} (hworker : b.worker = .holding rbuf)
    (ok : Bool) : (b.process mac xid rbuf ok).1.rank < b.rank := by
  have hout : 0 < b.rank := by
    rw [Bench.rank_holding hworker]
    omega
  obtain heq | ⟨-, hstate, heq⟩ | ⟨-, -, heq⟩ | ⟨-, -, heq⟩ | ⟨-, heq⟩ :=
    Bench.process_eq mac xid b rbuf ok
  all_goals rw [heq]
  · have hrank : { b with worker := .locking }.rank = b.tries + 2 + b.unread := rfl
    rw [hrank, Bench.rank_holding hworker]
    omega
  · have hrank : Bench.rank { b with
        bmeta := requestMeta mac xid rbuf, state := .request, retries := 0,
        worker := .locking } = 24 + 2 + b.unread := rfl
    have htries : b.tries = 8 * (maxRetries - b.retries) + 32 := by
      rw [Bench.tries, if_pos hstate]
    rw [hrank, Bench.rank_holding hworker, htries]
    omega
  · exact hout
  · exact hout
  · exact hout

/-- **One step** of the worker changes nothing, or brings it nearer to the end. -/
theorem Bench.rank_step {step : BenchStep} (hown : step.IsWorkers) :
    (benchStep mac xid b step).1 = b ∨ (benchStep mac xid b step).1.rank < b.rank := by
  cases step with
  | reply | deliver => exact hown.elim
  | start ok =>
      unfold benchStep
      dsimp only
      split_ifs with hstarting hok
      · refine Or.inr ?_
        have hbefore : b.rank = 64 := by rw [Bench.rank, hstarting]
        have hafter : { b with state := .discover, worker := .locking }.rank =
            { b with state := .discover }.tries + 2 + b.unread := rfl
        have htries := { b with state := .discover }.tries_le
        have hunread := b.unread_le
        rw [hbefore, hafter]
        omega
      · refine Or.inr ?_
        have hbefore : b.rank = 64 := by rw [Bench.rank, hstarting]
        rw [hbefore]
        exact Nat.succ_pos _
      · exact Or.inl rfl
  | lock =>
      unfold benchStep
      dsimp only
      split_ifs with hlocking
      · exact Bench.rank_test (Or.inl hlocking)
      · exact Or.inl rfl
  | wake =>
      unfold benchStep
      dsimp only
      split_ifs with hblocked
      · exact Bench.rank_test (Or.inr hblocked)
      · exact Or.inl rfl
  | timeout ok =>
      unfold benchStep
      dsimp only
      split_ifs with hblocked
      · exact Or.inr (Bench.rank_timedOut hblocked ok)
      · exact Or.inl rfl
  | process ok =>
      unfold benchStep
      dsimp only
      split
      · next rbuf hholding => exact Or.inr (Bench.rank_process hholding ok)
      · exact Or.inl rfl

theorem Bench.ne_of_rank_lt {b' : Bench} (h : b'.rank < b.rank) : b' ≠ b := by
  rintro rfl
  exact lt_irrefl _ h

/-- A worker that is not at `out` can go on: a blocked one is woken by its time-out. -/
theorem Bench.exists_step (hout : b.worker ≠ .out) :
    ∃ step : BenchStep, step.IsWorkers ∧ (benchStep mac xid b step).1 ≠ b := by
  cases hworker : b.worker with
  | out => exact absurd hworker hout
  | starting =>
      refine ⟨.start true, trivial, fun hsame => ?_⟩
      rw [← hsame] at hworker
      simp only [benchStep] at hworker
      split_ifs at hworker with hstarting
      exact hstarting hworker
  | locking =>
      refine ⟨.lock, trivial, ?_⟩
      have hstep : (benchStep mac xid b .lock).1 = b.test := by
        rw [benchStep, if_pos hworker]
      rw [hstep]
      intro hsame
      have htest : b.test.worker ≠ .locking := by
        unfold Bench.test
        split_ifs <;> simp
      rw [hsame] at htest
      exact htest hworker
  | blocked =>
      refine ⟨.timeout true, trivial, Bench.ne_of_rank_lt ?_⟩
      rw [benchStep, if_pos hworker]
      exact Bench.rank_timedOut hworker true
  | holding rbuf =>
      refine ⟨.process true, trivial, Bench.ne_of_rank_lt ?_⟩
      simp only [benchStep, hworker]
      exact Bench.rank_process hworker true

end Client

/-! ## All threads -/

section Threads

variable {n W : ℕ} {r : Roster n W} {f f' : Fleet n W} {taken : List (Fin n)} {w : Fin W}
  {step : FleetStep W} {done : Fleet n W × Option (FleetEvent n)}

/-- A bound for the steps of a worker until it is idle again, or returns. -/
def Fleet.postRank (f : Fleet n W) (w : Fin W) : ℕ :=
  match f.posts w with
  | .idle => 1
  | .popped _ => 68
  | .cleared _ => 67
  | .serving i => 2 + (f.clients i).rank
  | .returned | .wild => 0

/-- What is left to do: the clients in the queue, the workers, and a frame to deliver. -/
def Fleet.rank (f : Fleet n W) (taken : List (Fin n)) : ℕ :=
  68 * (n - taken.length) + ∑ w, f.postRank w + if f.receiver = none then 0 else 8

theorem Fleet.postRank_le (f : Fleet n W) (w : Fin W) : f.postRank w ≤ 68 := by
  unfold Fleet.postRank
  split
  · omega
  · omega
  · omega
  · next i _ =>
      have hrank := (f.clients i).rank_le
      omega
  · omega
  · omega

theorem Fleet.rank_le (f : Fleet n W) (taken : List (Fin n)) :
    f.rank taken ≤ 68 * (n + W) + 8 := by
  have hsum : ∑ w, f.postRank w ≤ W * 68 := by
    have hcard := Finset.sum_le_card_nsmul Finset.univ f.postRank 68 fun w _ => f.postRank_le w
    rwa [Finset.card_univ, Fintype.card_fin, smul_eq_mul] at hcard
  unfold Fleet.rank
  split_ifs <;> omega

/-- One worker has moved. -/
theorem sum_postRank (h : ∀ v ≠ w, f'.postRank v = f.postRank v) :
    ∑ v, f'.postRank v + f.postRank w = ∑ v, f.postRank v + f'.postRank w := by
  rw [← Finset.add_sum_erase Finset.univ f'.postRank (Finset.mem_univ w),
    ← Finset.add_sum_erase Finset.univ f.postRank (Finset.mem_univ w)]
  have hrest : ∑ v ∈ Finset.univ.erase w, f'.postRank v =
      ∑ v ∈ Finset.univ.erase w, f.postRank v :=
    Finset.sum_congr rfl fun v hv => h v (Finset.ne_of_mem_erase hv)
  rw [hrest]
  ring

theorem postRank_congr {v : Fin W} (hpost : f'.posts v = f.posts v)
    (hclients : ∀ i, f.posts v = .serving i → f'.clients i = f.clients i) :
    f'.postRank v = f.postRank v := by
  unfold Fleet.postRank
  rw [hpost]
  cases hv : f.posts v with
  | serving i => simp only [hclients i hv]
  | idle | popped | cleared | returned | wild => rfl

/-- A worker has moved on, and nobody else has a part in it. -/
theorem rank_lt_of_postRank (hothers : ∀ v ≠ w, f'.postRank v = f.postRank v)
    (hreceiver : f'.receiver = f.receiver) (hlt : f'.postRank w < f.postRank w) :
    f'.rank taken < f.rank taken := by
  have hsum := sum_postRank hothers
  unfold Fleet.rank
  rw [hreceiver]
  omega

/-- The others do not serve the client of a worker. -/
theorem Fleet.Dispatch.other_clients (h : f.Dispatch r taken) {i : Fin n}
    (hw : (f.posts w).client = some i) {v : Fin W} (hv : v ≠ w) (c : Bench) :
    ∀ j, f.posts v = .serving j → (f.put i c).clients j = f.clients j := by
  intro j hj
  refine clients_put_of_ne ?_ c
  rintro rfl
  exact hv (h.alone v w j (congrArg Post.client hj) hw)

/-- A frame in its mailbox lets a client take one turn more, if it is being served at all. -/
theorem Fleet.Dispatch.sum_deliver_le (h : f.Dispatch r taken) (i : Fin n) (rbuf : List UInt8) :
    ∑ v, (f.put i { f.clients i with mailbox := rbuf }).postRank v ≤ ∑ v, f.postRank v + 4 := by
  set c : Bench := { f.clients i with mailbox := rbuf }
  by_cases hserved : ∃ w, f.posts w = .serving i
  · obtain ⟨w, hw⟩ := hserved
    have hsum := @sum_postRank _ _ f (f.put i c) w fun v hv => postRank_congr rfl
      (h.other_clients (congrArg Post.client hw) hv c)
    have hrank : c.rank ≤ (f.clients i).rank + 4 := (f.clients i).rank_mailbox_le rbuf
    have hafter : (f.put i c).postRank w = 2 + c.rank := by
      have hposts : (f.put i c).posts w = .serving i := hw
      simp only [Fleet.postRank, hposts, clients_put_self]
    have hbefore : f.postRank w = 2 + (f.clients i).rank := by
      simp only [Fleet.postRank, hw]
    omega
  · have hsame : ∀ v, (f.put i c).postRank v = f.postRank v := fun v =>
      postRank_congr rfl fun j hj => by
        refine clients_put_of_ne ?_ c
        rintro rfl
        exact hserved ⟨v, hj⟩
    exact (Finset.sum_congr rfl fun v _ => hsame v).le.trans (Nat.le_add_right _ _)

/-- **One step that counts** lowers the rank. -/
theorem Fleet.Moved.rank_lt (hmoved : f.Moved r taken step done)
    (hdispatch : f.Dispatch r taken) (hquiet : step.frame = none) (hchange : done.1 ≠ f) :
    done.1.rank (taken ++ handedOut done.2) < f.rank taken := by
  cases hmoved with
  | stays => exact absurd rfl hchange
  | returns w garbage idle all =>
      rw [handedOut_none, List.append_nil]
      refine rank_lt_of_postRank (w := w) (fun v hv => ?_) rfl ?_
      · exact postRank_congr (posts_post_of_ne hv _) fun _ _ => rfl
      · simp [Fleet.postRank, idle]
  | takes w garbage i queue rest idle next holds =>
      have hlength : taken.length + (rest.length + 1) = n := by
        rw [← List.length_cons, ← List.length_append, next, List.length_finRange]
      have hsum := @sum_postRank _ _ f ({ f with queue := queue }.post w (.popped i)) w
        fun v hv => postRank_congr (posts_post_of_ne hv _) fun _ _ => rfl
      have hafter : ({ f with queue := queue }.post w (.popped i)).postRank w = 68 := by
        simp [Fleet.postRank]
      have hbefore : f.postRank w = 1 := by simp [Fleet.postRank, idle]
      have hreceiver : ({ f with queue := queue }.post w (.popped i)).receiver = f.receiver := rfl
      simp only [Fleet.rank, handedOut, List.length_append, List.length_singleton, hreceiver]
      omega
  | clears w i has =>
      rw [handedOut_none, List.append_nil]
      refine rank_lt_of_postRank (w := w) (fun v hv => ?_) rfl ?_
      · exact postRank_congr (posts_post_of_ne hv _)
          (hdispatch.other_clients (congrArg Post.client has) hv _)
      · simp [Fleet.postRank, has]
  | inserts w i has =>
      rw [handedOut_none, List.append_nil]
      refine rank_lt_of_postRank (w := w) (fun v hv => ?_) rfl ?_
      · exact postRank_congr (posts_post_of_ne hv _) fun _ _ => rfl
      · have hrank := (f.clients i).rank_le
        have hafter : ({ f with table := xidTabInsert r.xid f.table i }.post w
            (.serving i)).postRank w = 2 + (f.clients i).rank := by
          simp only [Fleet.postRank, posts_post_self]
          rfl
        have hbefore : f.postRank w = 67 := by simp [Fleet.postRank, has]
        dsimp only
        rw [hafter, hbefore]
        omega
  | works w i step has own =>
      rw [handedOut_called, List.append_nil]
      refine rank_lt_of_postRank (w := w) (fun v hv => ?_) rfl ?_
      · exact postRank_congr rfl (hdispatch.other_clients (congrArg Post.client has) hv _)
      · obtain hsame | hlt := @Bench.rank_step (r.mac i) (r.xid i) (f.clients i) _ own
        · refine absurd ?_ hchange
          dsimp only
          rw [hsame]
          exact congrArg (fun clients => { f with clients := clients })
            (Function.update_eq_self i f.clients)
        · have hposts : ∀ c, (f.put i c).posts w = .serving i := fun _ => has
          simp only [Fleet.postRank, hposts, has, clients_put_self]
          omega
  | removes w i has isOut =>
      rw [handedOut_none, List.append_nil]
      refine rank_lt_of_postRank (w := w) (fun v hv => ?_) rfl ?_
      · exact postRank_congr (posts_post_of_ne hv _) fun _ _ => rfl
      · simp only [Fleet.postRank, posts_post_self, has]
        omega
  | receives => cases hquiet
  | delivers i rbuf has =>
      rw [handedOut_none, List.append_nil]
      have hmore := hdispatch.sum_deliver_le i rbuf
      set c : Bench := { f.clients i with mailbox := rbuf }
      have hafter : { f.put i c with receiver := none }.rank taken =
          68 * (n - taken.length) + ∑ v, (f.put i c).postRank v + 0 := rfl
      have hbefore : f.rank taken = 68 * (n - taken.length) + ∑ v, f.postRank v + 8 := by
        rw [Fleet.rank, has]
        rfl
      rw [hbefore]
      refine hafter.trans_lt ?_
      omega

end Threads

/-! ## Whole runs -/

section Runs

variable {n W : ℕ} {r : Roster n W} {f : Fleet n W} {taken : List (Fin n)} {w : Fin W}

/-- The step is not the arrival of a frame, and it changes something. -/
def Counts (r : Roster n W) (f : Fleet n W) (step : FleetStep W) : Prop :=
  step.frame = none ∧ (fleetStep r f step).1 ≠ f

/-- The worker that takes a step. -/
def FleetStep.worker : FleetStep W → Option (Fin W)
  | .pop w _ | .clear w | .insert w | .work w _ | .remove w => some w
  | .receive _ | .deliver => none

theorem post_ne {f' : Fleet n W} {post : Post (Fin n)} (h : post ≠ f.posts w) :
    f'.post w post ≠ f := by
  intro hsame
  rw [← hsame, posts_post_self] at h
  exact h rfl

/-- **No worker is ever stuck**: one that has not returned can take a step that counts. -/
theorem Fleet.Dispatch.exists_step (h : f.Dispatch r taken) (hw : f.posts w ≠ .returned) :
    ∃ step : FleetStep W, step.worker = some w ∧ Counts r f step := by
  cases hpost : f.posts w with
  | returned => exact absurd hpost hw
  | wild => exact absurd hpost (h.tame w)
  | idle =>
      refine ⟨.pop w 0, rfl, rfl, ?_⟩
      simp only [fleetStep, if_pos hpost]
      obtain ⟨-, heq⟩ | ⟨i, queue, rest, -, -, heq⟩ := h.pop_cases w 0
      · rw [heq]
        exact post_ne (by simp [hpost])
      · rw [heq]
        exact post_ne (by simp [hpost])
  | popped i =>
      refine ⟨.clear w, rfl, rfl, ?_⟩
      simp only [fleetStep, hpost]
      exact post_ne (by simp [hpost])
  | cleared i =>
      refine ⟨.insert w, rfl, rfl, ?_⟩
      simp only [fleetStep, hpost]
      exact post_ne (by simp [hpost])
  | serving i =>
      by_cases hout : (f.clients i).worker = .out
      · refine ⟨.remove w, rfl, rfl, ?_⟩
        simp only [fleetStep, hpost, if_pos hout]
        exact post_ne (by simp [hpost])
      · obtain ⟨step, hown, hstep⟩ := @Bench.exists_step (r.mac i) (r.xid i) _ hout
        refine ⟨.work w step, rfl, rfl, fun hsame => hstep ?_⟩
        simp only [fleetStep, hpost, if_pos hown] at hsame
        rw [← clients_put_self (f := f) (i := i) (benchStep (r.mac i) (r.xid i)
          (f.clients i) step).1, hsame]

/-- The invariants, and what is left to do. -/
def Fleet.Ranked (r : Roster n W) (f : Fleet n W) (k : ℕ) : Prop :=
  ∃ taken, f.Dispatch r taken ∧ f.Stages r taken ∧ f.rank taken ≤ k

theorem Fleet.Ranked.step {k : ℕ} (h : f.Ranked r k) {step : FleetStep W}
    (hcounts : Counts r f step) : ∃ k' < k, (fleetStep r f step).1.Ranked r k' := by
  obtain ⟨taken, hdispatch, hstages, hrank⟩ := h
  have hmoved := hdispatch.moved step
  refine ⟨_, (hmoved.rank_lt hdispatch hcounts.1 hcounts.2).trans_le hrank, _,
    hdispatch.step hmoved, hstages.step hdispatch hmoved, le_rfl⟩

variable (r)

theorem fleet_ranked (prior : Cq) (priorTab : XidTab (Fin n)) (run : List (FleetStep W)) :
    (fleetAfter r prior priorTab run).Ranked r (68 * (n + W) + 8) := by
  obtain ⟨hdispatch, hstages⟩ := fleet_inv r prior priorTab run
  exact ⟨_, hdispatch, hstages, Fleet.rank_le _ _⟩

/-- **The benchmark ends when no more frames arrive**, in whatever order the threads take their
steps: from every reachable state at most `68 * (n + W) + 8` more steps change anything, and
as long as a worker has not returned, this worker can take such a step.  No worker waits for
another one, for the receiver or for an answer. -/
theorem fleet_terminates (prior : Cq) (priorTab : XidTab (Fin n)) (run : List (FleetStep W)) :
    let f := fleetAfter r prior priorTab run
    (∀ more, Along (fleetStep r) (Counts r) f more → more.length ≤ 68 * (n + W) + 8) ∧
      ∀ w, f.posts w ≠ .returned → ∃ step : FleetStep W, step.worker = some w ∧
        Counts r f step := by
  intro f
  refine ⟨fun more hcounts => ?_, fun w hw => ?_⟩
  · exact length_le_of_ranked (fun _ _ _ hs hcounts => hs.step hcounts) more f _
      (fleet_ranked r prior priorTab run) hcounts
  · exact (fleet_inv r prior priorTab run).1.exists_step hw

/-- The benchmark can always be brought to its end. -/
theorem exists_returned (prior : Cq) (priorTab : XidTab (Fin n)) (run : List (FleetStep W)) :
    ∃ more, Along (fleetStep r) (Counts r) (fleetAfter r prior priorTab run) more ∧
      ∀ w, (fleetAfter r prior priorTab (run ++ more)).posts w = .returned := by
  have hprogress : ∀ (f : Fleet n W) k, f.Ranked r k → (¬ ∀ w, f.posts w = .returned) →
      ∃ step, Counts r f step := by
    rintro f k ⟨taken, hdispatch, -⟩ hnot
    obtain ⟨w, hw⟩ := not_forall.mp hnot
    obtain ⟨step, -, hcounts⟩ := hdispatch.exists_step hw
    exact ⟨step, hcounts⟩
  have hstep : ∀ (f : Fleet n W) k step, f.Ranked r k → Counts r f step →
      ∃ k' < k, (fleetStep r f step).1.Ranked r k' := fun _ _ _ hs hcounts => hs.step hcounts
  obtain ⟨more, hmore, hfinal⟩ := exists_run_of_ranked hstep hprogress _ _
    (fleet_ranked r prior priorTab run)
  refine ⟨more, hmore, fun w => ?_⟩
  unfold fleetAfter at hfinal ⊢
  rw [exec_append]
  exact hfinal w

/-- A client whose worker is out of the loop has come to an end. -/
theorem Bench.Phase.ended_of_out {mac : Bytes 6} {xid : UInt32} {b : Bench}
    {calls : List SendCall} (h : b.Phase mac xid calls)
    (hout : b.worker = .out) :
    ∃ m k offer, b.Called mac xid calls m k offer ∧ b.Ended xid calls m k := by
  cases h with
  | starting hw => rw [hout] at hw; cases hw
  | discovering _ hlooping => exact absurd hout hlooping.2
  | requesting _ _ _ hlooping => exact absurd hout hlooping.2
  | stopped m k offer _ hcalled hended => exact ⟨m, k, offer, hcalled, hended⟩

/-- **What has become of the clients.**  When every worker has returned, at most `MAX_RETRIES`
DISCOVERs have been tried for each client and then at most `MAX_RETRIES` REQUESTs for an OFFER
that was received for it; and it has an ACK that was received for it, or a NAK, or its last
message has been tried `MAX_RETRIES` times, or the first DISCOVER or the first REQUEST was the
last call and could not be sent. -/
theorem fleet_outcome (prior : Cq) (priorTab : XidTab (Fin n)) (run : List (FleetStep W))
    (hreturned : ∀ w, (fleetAfter r prior priorTab run).posts w = .returned) (i : Fin n) :
    let b := ((fleetAfter r prior priorTab run).clients i).hearing (framesIn run)
    ∃ m k offer, b.Called (r.mac i) (r.xid i) (callsIn r prior priorTab i run) m k offer ∧
      b.Ended (r.xid i) (callsIn r prior priorTab i run) m k := by
  intro b
  obtain ⟨steps, hexec, hemitted⟩ := (fleet_follows r prior priorTab run i).client
  have hphase := Bench.phase_exec (r.mac i) (r.xid i) steps
  rw [hexec, hemitted] at hphase
  refine hphase.ended_of_out ?_
  obtain ⟨hdispatch, hstages⟩ := fleet_inv r prior priorTab run
  exact (hdispatch.all_out hstages hreturned).2 i

end Runs

/-- The benchmark of `main` can be brought to an end from its start. -/
theorem fleet_outcome_numbered :
    let prior : Cq := ⟨fun _ => 0, 0, 0, 0⟩
    let priorTab : XidTab (Fin numClients) := ⟨fun _ => .null, fun _ => false, 0⟩
    ∃ run : List (FleetStep maxWorkers),
      (∀ w, (fleetAfter numberedRoster prior priorTab run).posts w = .returned) ∧
        ∀ i, ∃ m k offer,
          (((fleetAfter numberedRoster prior priorTab run).clients i).hearing
              (framesIn run)).Called (numberedRoster.mac i) (numberedRoster.xid i)
            (callsIn numberedRoster prior priorTab i run) m k offer ∧
          (((fleetAfter numberedRoster prior priorTab run).clients i).hearing
              (framesIn run)).Ended (numberedRoster.xid i)
            (callsIn numberedRoster prior priorTab i run) m k := by
  intro prior priorTab
  obtain ⟨more, -, hreturned⟩ := exists_returned numberedRoster prior priorTab []
  exact ⟨[] ++ more, hreturned, fun i =>
    fleet_outcome numberedRoster prior priorTab ([] ++ more) hreturned i⟩

end BaremetalDhcp
