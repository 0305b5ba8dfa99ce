import BaremetalDhcp.CircularQueue

/-!
# The queue of benchmark clients

`bench-live/client-queue.c` keeps pointers to clients in a circular queue of bytes.  The queue
is the one of `ds-lib`, built with another capacity and with two more entry points,
`cq_push64` and `cq_pop64`; the lock around each call makes it one step.

* `cqPush64`, `cqPop64` — eight bytes at a time.
* `pushClient`, `popClient` — the two calls of the benchmark.  The first one ignores the
  status, the second one returns null for an empty queue.
* `HoldsClients` — the queue holds a list of pointers.

`client_queue_fifo` says that over any calls no pointer is torn, repeated or lost, except
those that `push_client` drops because 32767 are waiting already.
-/

namespace BaremetalDhcp

open Machine

/-! ## Words of eight bytes -/

/-- The bytes of a `uint64_t` in memory, lowest first. -/
def longBytes (x : UInt64) (i : ℕ) : UInt8 :=
  (x >>> (8 * UInt64.ofNat i)).toUInt8

/-- The `uint64_t` whose eight bytes start at a pointer. -/
def longAt (data : ℕ → UInt8) : UInt64 :=
  (data 0).toUInt64 ||| (data 1).toUInt64 <<< 8 ||| (data 2).toUInt64 <<< 16 |||
    (data 3).toUInt64 <<< 24 ||| (data 4).toUInt64 <<< 32 ||| (data 5).toUInt64 <<< 40 |||
    (data 6).toUInt64 <<< 48 ||| (data 7).toUInt64 <<< 56

/-- `cq_push64`. -/
def cqPush64 (N : UInt32) (cq : Cq) (x : UInt64) : Cq × Bool :=
  cqPushN N cq (longBytes x) 8

/-- `cq_pop64`: the queue, the status and the `uint64_t` at `*x` afterwards. -/
def cqPop64 (N : UInt32) (cq : Cq) (x : UInt64) : Cq × Bool × UInt64 :=
  let popped := cqPopN N cq (longBytes x) 8
  (popped.1, popped.2.1, longAt popped.2.2)

/-- A byte of a word, moved back to its place, has the bits of the word there. -/
theorem getLsbD_longBytes (x : UInt64) {k : ℕ} {s : UInt64} (hs : 8 * UInt64.ofNat k = s)
    (hk : s.toNat = 8 * k ∧ k < 8) {i : ℕ} (hi : i < 64) :
    ((longBytes x k).toUInt64 <<< s).toBitVec.getLsbD i =
      (decide (i / 8 = k) && x.toBitVec.getLsbD i) := by
  have hmod : (s.toBitVec % 64).toNat = 8 * k := by
    show s.toNat % 64 = 8 * k
    omega
  unfold longBytes
  rw [hs]
  simp only [UInt64.toBitVec_shiftLeft, UInt64.toBitVec_shiftRight, UInt8.toBitVec_toUInt64,
    UInt64.toBitVec_toUInt8, BitVec.shiftLeft_eq', BitVec.ushiftRight_eq', hmod,
    BitVec.getLsbD_shiftLeft, BitVec.getLsbD_setWidth, BitVec.getLsbD_ushiftRight]
  by_cases hplace : i / 8 = k
  · have hsum : 8 * k + (i - 8 * k) = i := by omega
    have hlow : ¬i < 8 * k := by omega
    have hbyte : i - 8 * k < 8 := by omega
    have hlong : i - 8 * k < 64 := by omega
    simp [hsum, hi, hplace, hlow, hbyte, hlong]
  · have hout : i < 8 * k ∨ ¬i - 8 * k < 8 := by omega
    obtain hlow | hhigh := hout
    · simp [hplace, hlow]
    · simp [hplace, hhigh]

/-- Reading a word back from its bytes. -/
theorem longAt_longBytes (x : UInt64) : longAt (longBytes x) = x := by
  apply UInt64.eq_of_toBitVec_eq
  apply BitVec.eq_of_getLsbD_eq
  intro i hi
  have hfirst := getLsbD_longBytes x (k := 0) (s := 0) rfl (by decide) hi
  rw [UInt64.shiftLeft_zero] at hfirst
  simp only [longAt, UInt64.toBitVec_or, BitVec.getLsbD_or, hfirst,
    getLsbD_longBytes x (k := 1) (s := 8) rfl (by decide) hi,
    getLsbD_longBytes x (k := 2) (s := 16) rfl (by decide) hi,
    getLsbD_longBytes x (k := 3) (s := 24) rfl (by decide) hi,
    getLsbD_longBytes x (k := 4) (s := 32) rfl (by decide) hi,
    getLsbD_longBytes x (k := 5) (s := 40) rfl (by decide) hi,
    getLsbD_longBytes x (k := 6) (s := 48) rfl (by decide) hi,
    getLsbD_longBytes x (k := 7) (s := 56) rfl (by decide) hi, ← Bool.and_or_distrib_right]
  -- the bit lies in one of the eight bytes
  have hplace : i / 8 < 8 := by omega
  generalize i / 8 = k at hplace ⊢
  interval_cases k <;> rfl

theorem longAt_congr {data data' : ℕ → UInt8} (h : ∀ i < 8, data i = data' i) :
    longAt data = longAt data' := by
  unfold longAt
  rw [h 0 (by omega), h 1 (by omega), h 2 (by omega), h 3 (by omega), h 4 (by omega),
    h 5 (by omega), h 6 (by omega), h 7 (by omega)]

/-! ## The calls of the benchmark -/

/-- `CQ_N` of the benchmark: `4096 * 8 * sizeof(void *)`.  It is a `size_t` there, and a divisor
of 2^32, so that the arithmetic is that of `unsigned`. -/
def benchCqN : UInt32 := 262144

section Source

variable (N : UInt32)

/-- `client_queue_init`. -/
def clientQueueInit (prior : Cq) : Cq := (cqInit N prior).1

/-- `push_client`, which does not look at the status. -/
def pushClient (cq : Cq) (cAsync : UInt64) : Cq := (cqPush64 N cq cAsync).1

/-- `pop_client`, on a local variable with arbitrary contents. -/
def popClient (cq : Cq) (cAsyncPtr : UInt64) : Cq × UInt64 :=
  let popped := cqPop64 N cq cAsyncPtr
  if popped.2.1 = false then (popped.1, 0) else (popped.1, popped.2.2)

-- with `N` a variable, because the kernel would compute with the number in `benchCqN`
theorem pushClient_eq (cq : Cq) (p : UInt64) :
    pushClient N cq p = (cqPushN N cq (longBytes p) 8).1 := rfl

theorem popClient_eq (cq : Cq) (garbage : UInt64) :
    popClient N cq garbage =
      let popped := cqPopN N cq (longBytes garbage) 8
      if popped.2.1 = false then (popped.1, 0) else (popped.1, longAt popped.2.2) := rfl

end Source

/-! ## What the queue holds -/

/-- The bytes of a pointer, as they lie in the queue. -/
def pointerBytes (p : UInt64) : List UInt8 := bytesFrom (longBytes p) 8

@[simp] theorem length_pointerBytes (p : UInt64) : (pointerBytes p).length = 8 := by
  simp [pointerBytes, bytesFrom]

theorem length_flatMap_pointerBytes (ps : List UInt64) :
    (ps.flatMap pointerBytes).length = 8 * ps.length := by
  rw [List.length_flatMap]
  simp [Nat.mul_comm]

/-- The queue holds the pointers, the next one first. -/
def HoldsClients (cq : Cq) (ps : List UInt64) : Prop :=
  cq.Represents benchCqN (ps.flatMap pointerBytes)

section Calls

variable {cq : Cq} {p : UInt64} {ps : List UInt64}

theorem benchCqN_small : benchCqN.toNat < 2 ^ 31 := by decide

theorem clientQueueInit_holds (prior : Cq) : HoldsClients (clientQueueInit benchCqN prior) [] :=
  cqInit_represents (by decide) prior

/-- There is room for as many pointers as fit in `CQ_N - 1` bytes. -/
def clientCap : ℕ := 32767

/-- A push appends its pointer, or drops it when the queue is full. -/
theorem HoldsClients.push (h : HoldsClients cq ps) (p : UInt64) :
    HoldsClients (pushClient benchCqN cq p) (if ps.length < clientCap then ps ++ [p] else ps) := by
  have hpushed := (Cq.Represents.pushN_eq benchCqN_small h (longBytes p) 8).2
  have hlen : (8 : UInt32).toNat = 8 := rfl
  have hbytes : bytesFrom (longBytes p) (8 : UInt32).toNat = pointerBytes p := by
    rw [hlen, pointerBytes]
  have hcap : benchCqN.toNat - 1 = 262143 := rfl
  rw [hbytes, fifoAppend, length_flatMap_pointerBytes, length_pointerBytes, hcap] at hpushed
  rw [HoldsClients, pushClient_eq]
  by_cases hroom : ps.length < clientCap
  · unfold clientCap at hroom
    rw [if_pos ⟨by omega, by omega⟩] at hpushed
    rw [if_pos (by unfold clientCap; exact hroom), List.flatMap_append, List.flatMap_singleton]
    exact hpushed
  · unfold clientCap at hroom
    rw [if_neg fun hfits => hroom (by omega)] at hpushed
    rw [if_neg (by unfold clientCap; exact hroom)]
    exact hpushed

/-- A pop takes the first pointer out whole. -/
theorem HoldsClients.pop_cons (h : HoldsClients cq (p :: ps)) (garbage : UInt64) :
    ∃ rest, popClient benchCqN cq garbage = (rest, p) ∧ HoldsClients rest ps := by
  have hfits : (8 : UInt32).toNat ≤ ((p :: ps).flatMap pointerBytes).length := by
    rw [length_flatMap_pointerBytes, List.length_cons]
    exact Nat.le_mul_of_pos_right 8 (Nat.succ_pos _)
  obtain ⟨hanswer, hrest⟩ :=
    Cq.Represents.popN benchCqN_small h hfits (longBytes garbage)
  have hlen : (8 : UInt32).toNat = (pointerBytes p).length := (length_pointerBytes p).symm
  rw [List.flatMap_cons, hlen, List.take_left] at hanswer
  rw [List.flatMap_cons, hlen, List.drop_left] at hrest
  have hword : longAt (overwrite (longBytes garbage) (pointerBytes p)) = p := by
    refine (longAt_congr fun i hi => ?_).trans (longAt_longBytes p)
    simp [overwrite, pointerBytes, bytesFrom, hi]
  rw [popClient_eq]
  generalize cqPopN benchCqN cq (longBytes garbage) 8 = popped at hanswer hrest ⊢
  obtain ⟨rest, ok, data⟩ := popped
  obtain ⟨rfl, rfl⟩ := Prod.mk.inj hanswer
  have hok : ¬ true = false := by decide
  dsimp only
  rw [if_neg hok, hword]
  exact ⟨rest, rfl, hrest⟩

/-- On an empty queue a pop answers null. -/
theorem HoldsClients.pop_nil (h : HoldsClients cq []) (garbage : UInt64) :
    popClient benchCqN cq garbage = (cq, 0) := by
  have hempty : ¬ (8 : UInt32).toNat ≤ (([] : List UInt64).flatMap pointerBytes).length := by
    decide
  rw [popClient_eq]
  rw [Cq.Represents.popN_refused benchCqN_small h hempty]
  rfl

end Calls

/-! ## A whole run -/

/-- A call of the queue. -/
inductive ClientCall where
  | push (p : UInt64)
  | pop (garbage : UInt64)

/-- One call, and the pointer that `pop_client` returns. -/
def clientQueueStep (cq : Cq) : ClientCall → Cq × Option UInt64
  | .push p => (pushClient benchCqN cq p, none)
  | .pop garbage => ((popClient benchCqN cq garbage).1, some (popClient benchCqN cq garbage).2)

/-- What the queue is for: a list of pointers of bounded length. -/
def pointerFifoStep (ps : List UInt64) : ClientCall → List UInt64 × Option UInt64
  | .push p => (if ps.length < clientCap then ps ++ [p] else ps, none)
  | .pop _ => (ps.tail, some (ps.headD 0))

/-- **One call.** -/
theorem HoldsClients.step {cq : Cq} {ps : List UInt64} (h : HoldsClients cq ps)
    (call : ClientCall) :
    (clientQueueStep cq call).2 = (pointerFifoStep ps call).2 ∧
      HoldsClients (clientQueueStep cq call).1 (pointerFifoStep ps call).1 := by
  cases call with
  | push p =>
      simp only [clientQueueStep, pointerFifoStep]
      exact ⟨trivial, h.push p⟩
  | pop garbage =>
      cases ps with
      | nil =>
          rw [clientQueueStep, pointerFifoStep, h.pop_nil]
          exact ⟨rfl, h⟩
      | cons p ps =>
          obtain ⟨rest, hpop, hrest⟩ := h.pop_cons garbage
          rw [clientQueueStep, pointerFifoStep, hpop]
          exact ⟨rfl, hrest⟩

/-- **The client queue is a FIFO of pointers.**  Whatever the calls after `client_queue_init`,
each `pop_client` returns the pointer that has waited longest, whole and exactly once, or null
when none is waiting, and a push adds its pointer unless 32767 are waiting. -/
theorem client_queue_fifo (prior : Cq) (calls : List ClientCall) :
    outputs clientQueueStep (clientQueueInit benchCqN prior) calls =
        outputs pointerFifoStep [] calls ∧
      HoldsClients (exec clientQueueStep (clientQueueInit benchCqN prior) calls)
        (exec pointerFifoStep [] calls) := by
  have hstep : ∀ (cq : Cq) (ps : List UInt64) (call : ClientCall), HoldsClients cq ps → True →
      (clientQueueStep cq call).2 = (pointerFifoStep ps call).2 ∧
        HoldsClients (clientQueueStep cq call).1 (pointerFifoStep ps call).1 :=
    fun _ _ call h _ => h.step call
  exact simulation hstep calls (clientQueueInit benchCqN prior) [] (clientQueueInit_holds prior)
    (along_of_forall (fun _ _ => trivial) calls (clientQueueInit benchCqN prior))

end BaremetalDhcp
