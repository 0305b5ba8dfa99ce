import Mathlib.Tactic.IntervalCases
import BaremetalDhcp.Lib.Machine
import BaremetalDhcp.Lib.RingBuffer

/-!
# The circular byte queue of `ds-lib`

`cqueue.c` keeps bytes in an array of `CQ_N` slots between two indices: `head` is the slot
the next push writes, `tail` the slot the next pop reads.  Both run modulo `CQ_N`, one slot
always stays free, and the number of stored bytes is never kept: `cq_nelem` computes it from
the indices by an unsigned subtraction that wraps modulo `2^32` before it is reduced modulo
`CQ_N`.  The bulk operations check the count once and then loop over the single ones, whose
status they ignore.

* `Cq`, `cqPush`, `cqPop`, `cqPeek`, `cqPushN`, `cqPopN`, `cqPeekN`, `cqPush32`, `cqPop32`,
  `cqInit` — the queue as the code has it.  What a call writes through a pointer is part of
  its result, next to its status; a failing call returns what the pointer held before.
* `CqCall`, `cqStep` — one call as a step of a machine.
* `fifoStep` — what the queue is for: a list of at most `cap` bytes.
* `Cq.Represents` — the slots from `tail` to `head` hold the list.

`cqueue_refines_fifo` says that no sequence of calls tells the two apart.
-/

namespace BaremetalDhcp

/-! ### The queue -/

/-- `cq_t`; the array `c_buf[CQ_N]` is a function that is only read and written below
`CQ_N` (`Cq.Represents` keeps both indices there). -/
structure Cq where
  cBuf : ℕ → UInt8
  fence : UInt32
  head : UInt32
  tail : UInt32

/-- `cq_empty`. -/
def cqEmpty (cq : Cq) : Bool :=
  cq.head == cq.tail

/-- `cq_full`. -/
def cqFull (N : UInt32) (cq : Cq) : Bool :=
  (cq.head + 1) % N == cq.tail

/-- `cq_nelem`. -/
def cqNelem (N : UInt32) (cq : Cq) : UInt32 :=
  (cq.head - cq.tail + N) % N

/-- `cq_nspace`. -/
def cqNspace (N : UInt32) (cq : Cq) : UInt32 :=
  (N - 1) - cqNelem N cq

/-- `cq_pop`: the queue, the status and the byte at `*cqe` afterwards. -/
def cqPop (N : UInt32) (cq : Cq) (cqe : UInt8) : Cq × Bool × UInt8 :=
  if cqEmpty cq then (cq, false, cqe)
  else ({ cq with tail := (cq.tail + 1) % N }, true, cq.cBuf cq.tail.toNat)

/-- `cq_push`. -/
def cqPush (N : UInt32) (cq : Cq) (cqe : UInt8) : Cq × Bool :=
  if cqFull N cq then (cq, false)
  else
    ({ cq with
        cBuf := Function.update cq.cBuf cq.head.toNat cqe
        head := (cq.head + 1) % N }, true)

/-- `cq_peek`. -/
def cqPeek (cq : Cq) (cqe : UInt8) : Bool × UInt8 :=
  if cqEmpty cq then (false, cqe) else (true, cq.cBuf cq.tail.toNat)

/-- The loop of `cq_pop_n`: `count` more pops, the next one into `cqes[i]`. -/
def popLoop (N : UInt32) (cq : Cq) (cqes : ℕ → UInt8) (i : ℕ) : ℕ → Cq × (ℕ → UInt8)
  | 0 => (cq, cqes)
  | count + 1 =>
      let popped := cqPop N cq (cqes i)
      popLoop N popped.1 (Function.update cqes i popped.2.2) (i + 1) count

/-- `cq_pop_n`: the queue, the status and the bytes from `data` on. -/
def cqPopN (N : UInt32) (cq : Cq) (data : ℕ → UInt8) (n : UInt32) :
    Cq × Bool × (ℕ → UInt8) :=
  if cqNelem N cq < n then (cq, false, data)
  else
    let drained := popLoop N cq data 0 n.toNat
    (drained.1, true, drained.2)

/-- `cq_peek_n`: pops and puts `tail` back. -/
def cqPeekN (N : UInt32) (cq : Cq) (cqes : ℕ → UInt8) (n : UInt32) :
    Cq × Bool × (ℕ → UInt8) :=
  let sz := cqNelem N cq
  if n > sz then (cq, false, cqes)
  else
    let tail := cq.tail
    let popped := cqPopN N cq cqes n
    ({ popped.1 with tail := tail }, popped.2)

/-- The loop of `cq_push_n`: `count` more pushes, the next one of `cqes[i]`. -/
def pushLoop (N : UInt32) (cq : Cq) (cqes : ℕ → UInt8) (i : ℕ) : ℕ → Cq
  | 0 => cq
  | count + 1 => pushLoop N (cqPush N cq (cqes i)).1 cqes (i + 1) count

/-- `cq_push_n`. -/
def cqPushN (N : UInt32) (cq : Cq) (data : ℕ → UInt8) (n : UInt32) : Cq × Bool :=
  if n ≤ 0 || cqNspace N cq < n then (cq, false)
  else (pushLoop N cq data 0 n.toNat, true)

/-- The bytes of an `int` in memory, lowest first. -/
def intBytes (x : Int32) (i : ℕ) : UInt8 :=
  (x.toUInt32 >>> (8 * UInt32.ofNat i)).toUInt8

/-- The `int` whose four bytes start at a pointer. -/
def intAt (data : ℕ → UInt8) : Int32 :=
  ((data 0).toUInt32 ||| (data 1).toUInt32 <<< 8 |||
    (data 2).toUInt32 <<< 16 ||| (data 3).toUInt32 <<< 24).toInt32

/-- `cq_push32`. -/
def cqPush32 (N : UInt32) (cq : Cq) (x : Int32) : Cq × Bool :=
  cqPushN N cq (intBytes x) 4

/-- `cq_pop32`: the queue, the status and the `int` at `*x` afterwards. -/
def cqPop32 (N : UInt32) (cq : Cq) (x : Int32) : Cq × Bool × Int32 :=
  let popped := cqPopN N cq (intBytes x) 4
  (popped.1, popped.2.1, intAt popped.2.2)

/-- The word `cq_ok` looks for. -/
def cqFence : UInt32 := 0x12345678

/-- `cq_ok`. -/
def cqOk (cq : Cq) : Bool :=
  if cq.fence != cqFence then false else true

/-- `cq_init`, with the checks it makes on the queue it has set up. -/
def cqInit (N : UInt32) (cq : Cq) : Cq × Bool :=
  let cq : Cq :=
    { cBuf := fun i => if i < N.toNat then 0 else cq.cBuf i
      fence := cqFence
      head := 0
      tail := 0 }
  if !cqEmpty cq || cqFull N cq || cqNelem N cq != 0 then (cq, false)
  else
    let popped := cqPop N cq 0x12
    if popped.2.1 != false || popped.2.2 != 0x12 then (popped.1, false)
    else (popped.1, true)

/-! ### Calls -/

/-- A call of the queue's interface.  Where the code takes a pointer it writes through, the
call carries what the pointer holds. -/
inductive CqCall where
  | push (cqe : UInt8)
  | pop (cqe : UInt8)
  | peek (cqe : UInt8)
  | pushN (data : ℕ → UInt8) (n : UInt32)
  | popN (data : ℕ → UInt8) (n : UInt32)
  | peekN (cqes : ℕ → UInt8) (n : UInt32)
  | push32 (x : Int32)
  | pop32 (x : Int32)

/-- A call's status, with what its pointer holds afterwards. -/
inductive CqAnswer where
  | status (rc : Bool)
  | byte (rc : Bool) (cqe : UInt8)
  | bytes (rc : Bool) (cqes : ℕ → UInt8)
  | word (rc : Bool) (x : Int32)

/-- The status alone. -/
def CqAnswer.rc : CqAnswer → Bool
  | .status rc => rc
  | .byte rc _ => rc
  | .bytes rc _ => rc
  | .word rc _ => rc

/-- One call. -/
def cqStep (N : UInt32) (cq : Cq) : CqCall → Cq × CqAnswer
  | .push cqe => ((cqPush N cq cqe).1, .status (cqPush N cq cqe).2)
  | .pop cqe => ((cqPop N cq cqe).1, .byte (cqPop N cq cqe).2.1 (cqPop N cq cqe).2.2)
  | .peek cqe => (cq, .byte (cqPeek cq cqe).1 (cqPeek cq cqe).2)
  | .pushN data n => ((cqPushN N cq data n).1, .status (cqPushN N cq data n).2)
  | .popN data n =>
      ((cqPopN N cq data n).1, .bytes (cqPopN N cq data n).2.1 (cqPopN N cq data n).2.2)
  | .peekN cqes n =>
      ((cqPeekN N cq cqes n).1, .bytes (cqPeekN N cq cqes n).2.1 (cqPeekN N cq cqes n).2.2)
  | .push32 x => ((cqPush32 N cq x).1, .status (cqPush32 N cq x).2)
  | .pop32 x => ((cqPop32 N cq x).1, .word (cqPop32 N cq x).2.1 (cqPop32 N cq x).2.2)

/-! ### The bounded FIFO -/

/-- The first bytes from `data` on, replaced by a list. -/
def overwrite (data : ℕ → UInt8) (bytes : List UInt8) : ℕ → UInt8 :=
  fun i => bytes.getD i (data i)

/-- The `n` bytes from `data` on. -/
def bytesFrom (data : ℕ → UInt8) (n : ℕ) : List UInt8 :=
  (List.range n).map data

/-- Append all of `bytes`, or nothing when they do not fit (or there are none). -/
def fifoAppend (cap : ℕ) (queue bytes : List UInt8) : List UInt8 × Bool :=
  if 0 < bytes.length ∧ queue.length + bytes.length ≤ cap then (queue ++ bytes, true)
  else (queue, false)

/-- What the queue is for: a list of at most `cap` bytes, pushed at the end and popped at the
front, where a call that cannot be answered in full changes nothing. -/
def fifoStep (cap : ℕ) (queue : List UInt8) : CqCall → List UInt8 × CqAnswer
  | .push cqe => ((fifoAppend cap queue [cqe]).1, .status (fifoAppend cap queue [cqe]).2)
  | .pop cqe =>
      match queue with
      | [] => ([], .byte false cqe)
      | first :: rest => (rest, .byte true first)
  | .peek cqe =>
      match queue with
      | [] => ([], .byte false cqe)
      | first :: rest => (first :: rest, .byte true first)
  | .pushN data n =>
      ((fifoAppend cap queue (bytesFrom data n.toNat)).1,
        .status (fifoAppend cap queue (bytesFrom data n.toNat)).2)
  | .popN data n =>
      if n.toNat ≤ queue.length then
        (queue.drop n.toNat, .bytes true (overwrite data (queue.take n.toNat)))
      else (queue, .bytes false data)
  | .peekN cqes n =>
      if n.toNat ≤ queue.length then
        (queue, .bytes true (overwrite cqes (queue.take n.toNat)))
      else (queue, .bytes false cqes)
  | .push32 x =>
      ((fifoAppend cap queue (bytesFrom (intBytes x) 4)).1,
        .status (fifoAppend cap queue (bytesFrom (intBytes x) 4)).2)
  | .pop32 x =>
      if 4 ≤ queue.length then
        (queue.drop 4, .word true (intAt (overwrite (intBytes x) (queue.take 4))))
      else (queue, .word false x)

/-- How many bytes an answered call took out. -/
def takenBy : CqCall → CqAnswer → ℕ
  | .pop _, answer => if answer.rc then 1 else 0
  | .popN _ n, answer => if answer.rc then n.toNat else 0
  | .pop32 _, answer => if answer.rc then 4 else 0
  | _, _ => 0

/-- How many bytes a run took out. -/
def takenAlong (calls : List CqCall) (answers : List CqAnswer) : ℕ :=
  ((calls.zip answers).map fun p => takenBy p.1 p.2).sum

/-! ### Representation -/

/-- The slots from `tail` to `head` hold the list. -/
structure Cq.Represents (N : UInt32) (cq : Cq) (queue : List UInt8) : Prop where
  head_lt : cq.head.toNat < N.toNat
  tail_lt : cq.tail.toNat < N.toNat
  length_lt : queue.length < N.toNat
  head_eq : cq.head.toNat = (cq.tail.toNat + queue.length) % N.toNat
  contents_eq : RingBuffer.contents N.toNat cq.cBuf cq.tail.toNat queue.length = queue
  fence_eq : cq.fence = cqFence

section Representation

variable {N : UInt32} {cq : Cq} {queue : List UInt8}

/-- An index moves on without wrapping at `2^32`: it is below `CQ_N` before. -/
theorem toNat_next {i : UInt32} (hi : i.toNat < N.toNat) :
    ((i + 1) % N).toNat = (i.toNat + 1) % N.toNat := by
  have hN : N.toNat < 2 ^ 32 := N.toNat_lt
  have hsucc : (i + 1).toNat = i.toNat + 1 := by
    rw [UInt32.toNat_add]
    exact Nat.mod_eq_of_lt (by rw [UInt32.toNat_one]; omega)
  rw [UInt32.toNat_mod, hsucc]

/-- The distance from `tail` to `head`, once around or not. -/
theorem Cq.Represents.head_cases (hq : cq.Represents N queue) :
    cq.head.toNat = cq.tail.toNat + queue.length ∨
      cq.head.toNat + N.toNat = cq.tail.toNat + queue.length := by
  have hwrap := RingBuffer.add_mod_cases hq.tail_lt hq.length_lt.le
  rw [← hq.head_eq] at hwrap
  exact hwrap

theorem Cq.Represents.empty_iff (hq : cq.Represents N queue) :
    cqEmpty cq = true ↔ queue = [] := by
  have hcases := hq.head_cases
  have htail := hq.tail_lt
  have hlt := hq.length_lt
  have hheads : cq.head = cq.tail ↔ queue.length = 0 := by
    rw [← UInt32.toNat_inj]
    omega
  rw [cqEmpty, beq_iff_eq, hheads, List.length_eq_zero_iff]

theorem Cq.Represents.full_iff (hq : cq.Represents N queue) :
    cqFull N cq = true ↔ queue.length + 1 = N.toNat := by
  have hnext : ((cq.head + 1) % N).toNat =
      (cq.tail.toNat + (queue.length + 1)) % N.toNat := by
    rw [toNat_next hq.head_lt, hq.head_eq, Nat.mod_add_mod, Nat.add_assoc]
  have hle : queue.length + 1 ≤ N.toNat := hq.length_lt
  have hwrap := RingBuffer.add_mod_cases hq.tail_lt hle
  have htail := hq.tail_lt
  have hslot : (cq.tail.toNat + (queue.length + 1)) % N.toNat < N.toNat :=
    Nat.mod_lt _ (Nat.zero_lt_of_lt htail)
  rw [cqFull, beq_iff_eq, ← UInt32.toNat_inj, hnext]
  omega

/-- The unsigned difference of the indices is the length, whichever way round they are. -/
theorem Cq.Represents.toNat_nelem (hq : cq.Represents N queue) (hN : N.toNat < 2 ^ 31) :
    (cqNelem N cq).toNat = queue.length := by
  have hhead := hq.head_lt
  have htail := hq.tail_lt
  have hlt := hq.length_lt
  rw [cqNelem, UInt32.toNat_mod, UInt32.toNat_add, UInt32.toNat_sub]
  rcases hq.head_cases with hflat | hround
  · -- `head - tail` does not wrap; adding `CQ_N` goes once too far around
    have hsum : ((2 ^ 32 - cq.tail.toNat + cq.head.toNat) % 2 ^ 32 + N.toNat) % 2 ^ 32 =
        queue.length + N.toNat := by omega
    rw [hsum, Nat.add_mod_right, Nat.mod_eq_of_lt hlt]
  · -- `head - tail` wraps, and adding `CQ_N` wraps it back
    have hsum : ((2 ^ 32 - cq.tail.toNat + cq.head.toNat) % 2 ^ 32 + N.toNat) % 2 ^ 32 =
        queue.length := by omega
    rw [hsum, Nat.mod_eq_of_lt hlt]

theorem Cq.Represents.toNat_nspace (hq : cq.Represents N queue) (hN : N.toNat < 2 ^ 31) :
    (cqNspace N cq).toNat = N.toNat - 1 - queue.length := by
  have hlt := hq.length_lt
  have hone : (N - 1).toNat = N.toNat - 1 := by
    rw [UInt32.toNat_sub, UInt32.toNat_one]
    omega
  rw [cqNspace, UInt32.toNat_sub, hone, hq.toNat_nelem hN]
  omega

/-! ### The single operations -/

theorem Cq.Represents.pop_nil (hq : cq.Represents N []) (cqe : UInt8) :
    cqPop N cq cqe = (cq, false, cqe) := by
  rw [cqPop, if_pos (hq.empty_iff.mpr rfl)]

/-- The slot at `tail` holds the first byte. -/
theorem Cq.Represents.first_eq {first : UInt8} {rest : List UInt8}
    (hq : cq.Represents N (first :: rest)) : cq.cBuf cq.tail.toNat = first := by
  obtain ⟨hfirst, -⟩ := List.cons.inj ((RingBuffer.contents_succ _).symm.trans hq.contents_eq)
  rwa [Nat.mod_eq_of_lt hq.tail_lt] at hfirst

/-- Moving `tail` on drops the first byte. -/
theorem Cq.Represents.advanceTail {first : UInt8} {rest : List UInt8}
    (hq : cq.Represents N (first :: rest)) :
    Cq.Represents N { cq with tail := (cq.tail + 1) % N } rest := by
  have htail := toNat_next hq.tail_lt
  obtain ⟨-, hrest⟩ := List.cons.inj ((RingBuffer.contents_succ _).symm.trans hq.contents_eq)
  exact
    { head_lt := hq.head_lt
      tail_lt := by
        show ((cq.tail + 1) % N).toNat < N.toNat
        rw [htail]
        exact Nat.mod_lt _ (Nat.zero_lt_of_lt hq.tail_lt)
      length_lt := Nat.lt_of_succ_lt hq.length_lt
      head_eq := by
        show cq.head.toNat = (((cq.tail + 1) % N).toNat + rest.length) % N.toNat
        rw [htail, Nat.mod_add_mod, hq.head_eq, List.length_cons, Nat.add_assoc, Nat.add_comm 1]
      contents_eq := by
        show RingBuffer.contents N.toNat cq.cBuf ((cq.tail + 1) % N).toNat rest.length = rest
        rw [htail]
        exact hrest
      fence_eq := hq.fence_eq }

/-- The slot at `head` holds none of the bytes. -/
theorem Cq.Represents.store (hq : cq.Represents N queue) (cqe : UInt8) :
    Cq.Represents N { cq with cBuf := Function.update cq.cBuf cq.head.toNat cqe } queue :=
  { hq with
    contents_eq := by
      show RingBuffer.contents N.toNat (Function.update cq.cBuf cq.head.toNat cqe)
        cq.tail.toNat queue.length = queue
      rw [hq.head_eq, RingBuffer.contents_update_behind _ _ hq.length_lt, hq.contents_eq] }

/-- Moving `head` on adds the byte that is in its slot. -/
theorem Cq.Represents.advanceHead (hq : cq.Represents N queue)
    (hroom : queue.length + 1 < N.toNat) {cqe : UInt8} (hslot : cq.cBuf cq.head.toNat = cqe) :
    Cq.Represents N { cq with head := (cq.head + 1) % N } (queue ++ [cqe]) := by
  have hhead := toNat_next hq.head_lt
  exact
    { head_lt := by
        show ((cq.head + 1) % N).toNat < N.toNat
        rw [hhead]
        exact Nat.mod_lt _ (Nat.zero_lt_of_lt hroom)
      tail_lt := hq.tail_lt
      length_lt := by simpa using hroom
      head_eq := by
        show ((cq.head + 1) % N).toNat = (cq.tail.toNat + (queue ++ [cqe]).length) % N.toNat
        rw [hhead, hq.head_eq, Nat.mod_add_mod, List.length_append, List.length_singleton,
          Nat.add_assoc]
      contents_eq := by
        show RingBuffer.contents N.toNat cq.cBuf cq.tail.toNat (queue ++ [cqe]).length =
          queue ++ [cqe]
        rw [List.length_append, List.length_singleton, RingBuffer.contents_concat,
          hq.contents_eq, ← hq.head_eq, hslot]
      fence_eq := hq.fence_eq }

/-- A pop reads the first byte and leaves the others. -/
theorem Cq.Represents.pop_cons {first : UInt8} {rest : List UInt8}
    (hq : cq.Represents N (first :: rest)) (cqe : UInt8) :
    cqPop N cq cqe = ({ cq with tail := (cq.tail + 1) % N }, true, first) := by
  have hnonempty : cqEmpty cq ≠ true := fun h => by simpa using hq.empty_iff.mp h
  rw [cqPop, if_neg hnonempty, hq.first_eq]

theorem Cq.Represents.peek_cons {first : UInt8} {rest : List UInt8}
    (hq : cq.Represents N (first :: rest)) (cqe : UInt8) : cqPeek cq cqe = (true, first) := by
  have hnonempty : cqEmpty cq ≠ true := fun h => by simpa using hq.empty_iff.mp h
  rw [cqPeek, if_neg hnonempty, hq.first_eq]

theorem Cq.Represents.push_full (hq : cq.Represents N queue) (hfull : queue.length + 1 = N.toNat)
    (cqe : UInt8) : cqPush N cq cqe = (cq, false) := by
  rw [cqPush, if_pos (hq.full_iff.mpr hfull)]

/-- A push appends its byte. -/
theorem Cq.Represents.push (hq : cq.Represents N queue) (hroom : queue.length + 1 < N.toNat)
    (cqe : UInt8) :
    (cqPush N cq cqe).2 = true ∧ (cqPush N cq cqe).1.Represents N (queue ++ [cqe]) := by
  have hnotFull : cqFull N cq ≠ true := fun h => by
    have := hq.full_iff.mp h
    omega
  rw [cqPush, if_neg hnotFull]
  exact ⟨rfl, (hq.store cqe).advanceHead hroom (Function.update_self _ _ _)⟩

/-! ### The loops -/

/-- The pop loop takes out the first `count` bytes, in order. -/
theorem Cq.Represents.popLoop_spec (count : ℕ) :
    ∀ {cq : Cq} {queue : List UInt8} (_ : cq.Represents N queue) (_ : count ≤ queue.length)
      (cqes : ℕ → UInt8) (i : ℕ),
      (popLoop N cq cqes i count).1.Represents N (queue.drop count) ∧
        ∀ j, (popLoop N cq cqes i count).2 j =
          if j < i then cqes j else (queue.take count).getD (j - i) (cqes j) := by
  induction count with
  | zero =>
      intro cq queue hq _ cqes i
      refine ⟨hq, fun j => ?_⟩
      simp [popLoop]
  | succ count ih =>
      intro cq queue hq hcount cqes i
      cases queue with
      | nil => simp at hcount
      | cons first rest =>
          obtain ⟨hreps, hread⟩ :=
            ih hq.advanceTail (Nat.le_of_succ_le_succ hcount) (Function.update cqes i first) (i + 1)
          rw [popLoop, hq.pop_cons (cqes i)]
          refine ⟨hreps, fun j => ?_⟩
          rw [hread j]
          -- below `i` nothing is written, at `i` the first byte, behind it the rest
          rcases lt_trichotomy j i with hlt | rfl | hgt
          · rw [if_pos (by omega), if_pos hlt, Function.update_of_ne (by omega)]
          · simp
          · obtain ⟨k, rfl⟩ : ∃ k, j = i + 1 + k := ⟨j - (i + 1), by omega⟩
            rw [if_neg (by omega), if_neg (by omega), Function.update_of_ne (by omega),
              show i + 1 + k - (i + 1) = k by omega, show i + 1 + k - i = k + 1 by omega,
              List.take_succ_cons, List.getD_cons_succ]

/-- Pops write no field but `tail`. -/
theorem popLoop_tail (count : ℕ) :
    ∀ (cq : Cq) (cqes : ℕ → UInt8) (i : ℕ) (tail : UInt32),
      { (popLoop N cq cqes i count).1 with tail := tail } = { cq with tail := tail } := by
  induction count with
  | zero => intro cq cqes i tail; rfl
  | succ count ih =>
      intro cq cqes i tail
      rw [popLoop, ih]
      unfold cqPop
      split <;> rfl

/-- The push loop appends the `count` bytes from `cqes[i]` on. -/
theorem Cq.Represents.pushLoop_spec (cqes : ℕ → UInt8) (count : ℕ) :
    ∀ {cq : Cq} {queue : List UInt8} (_ : cq.Represents N queue)
      (_ : queue.length + count < N.toNat) (i : ℕ),
      (pushLoop N cq cqes i count).Represents N
        (queue ++ (List.range count).map fun j => cqes (i + j)) := by
  induction count with
  | zero =>
      intro cq queue hq _ i
      simpa [pushLoop] using hq
  | succ count ih =>
      intro cq queue hq hroom i
      obtain ⟨-, hpushed⟩ := hq.push (by omega) (cqes i)
      have hlater := ih hpushed (by simp; omega) (i + 1)
      have hbytes : (List.range (count + 1)).map (fun j => cqes (i + j)) =
          cqes i :: (List.range count).map fun j => cqes (i + 1 + j) := by
        rw [List.range_succ_eq_map, List.map_cons, List.map_map, Nat.add_zero]
        congr 1
        apply List.map_congr_left
        intro j _
        show cqes (i + (j + 1)) = cqes (i + 1 + j)
        rw [Nat.add_assoc, Nat.add_comm 1 j]
      rw [pushLoop, hbytes, List.append_cons]
      exact hlater

/-! ### The bulk operations -/

section Bulk

variable (hN : N.toNat < 2 ^ 31)
include hN

theorem Cq.Represents.nelem_lt_iff (hq : cq.Represents N queue) (n : UInt32) :
    cqNelem N cq < n ↔ ¬ n.toNat ≤ queue.length := by
  rw [UInt32.lt_iff_toNat_lt, hq.toNat_nelem hN, not_le]

theorem Cq.Represents.popN (hq : cq.Represents N queue) {n : UInt32}
    (hn : n.toNat ≤ queue.length) (data : ℕ → UInt8) :
    (cqPopN N cq data n).2 = (true, overwrite data (queue.take n.toNat)) ∧
      (cqPopN N cq data n).1.Represents N (queue.drop n.toNat) := by
  obtain ⟨hreps, hread⟩ := hq.popLoop_spec n.toNat hn data 0
  rw [cqPopN, if_neg ((hq.nelem_lt_iff hN n).not.mpr (not_not.mpr hn))]
  refine ⟨?_, hreps⟩
  refine Prod.ext rfl (funext fun j => ?_)
  exact hread j

theorem Cq.Represents.popN_refused (hq : cq.Represents N queue) {n : UInt32}
    (hn : ¬ n.toNat ≤ queue.length) (data : ℕ → UInt8) :
    cqPopN N cq data n = (cq, false, data) := by
  rw [cqPopN, if_pos ((hq.nelem_lt_iff hN n).mpr hn)]

theorem Cq.Represents.pushN_eq (hq : cq.Represents N queue) (data : ℕ → UInt8) (n : UInt32) :
    (cqPushN N cq data n).2 = (fifoAppend (N.toNat - 1) queue (bytesFrom data n.toNat)).2 ∧
      (cqPushN N cq data n).1.Represents N
        (fifoAppend (N.toNat - 1) queue (bytesFrom data n.toNat)).1 := by
  have hlt := hq.length_lt
  have hrefuse : (n ≤ 0 || cqNspace N cq < n) = true ↔
      ¬ (0 < (bytesFrom data n.toNat).length ∧
        queue.length + (bytesFrom data n.toNat).length ≤ N.toNat - 1) := by
    rw [Bool.or_eq_true, decide_eq_true_iff, decide_eq_true_iff, UInt32.le_iff_toNat_le,
      UInt32.lt_iff_toNat_lt, hq.toNat_nspace hN, UInt32.toNat_zero, bytesFrom,
      List.length_map, List.length_range]
    omega
  rw [cqPushN, fifoAppend]
  by_cases hfits : 0 < (bytesFrom data n.toNat).length ∧
      queue.length + (bytesFrom data n.toNat).length ≤ N.toNat - 1
  · rw [if_neg (hrefuse.not.mpr (not_not.mpr hfits)), if_pos hfits]
    have hcount : (bytesFrom data n.toNat).length = n.toNat := by simp [bytesFrom]
    rw [hcount] at hfits
    have hpushed := hq.pushLoop_spec data n.toNat (by omega) 0
    simp only [Nat.zero_add] at hpushed
    exact ⟨rfl, hpushed⟩
  · rw [if_pos (hrefuse.mpr hfits), if_neg hfits]
    exact ⟨rfl, hq⟩

/-- Putting `tail` back undoes what the pops did. -/
theorem Cq.Represents.peekN (hq : cq.Represents N queue) {n : UInt32}
    (hn : n.toNat ≤ queue.length) (cqes : ℕ → UInt8) :
    cqPeekN N cq cqes n = (cq, true, overwrite cqes (queue.take n.toNat)) := by
  have hsize : ¬ n > cqNelem N cq := (hq.nelem_lt_iff hN n).not.mpr (not_not.mpr hn)
  obtain ⟨hanswer, -⟩ := hq.popN hN hn cqes
  have hback : { (cqPopN N cq cqes n).1 with tail := cq.tail } = cq := by
    rw [cqPopN, if_neg hsize]
    exact popLoop_tail n.toNat cq cqes 0 cq.tail
  rw [cqPeekN, if_neg hsize]
  exact Prod.ext hback hanswer

theorem Cq.Represents.peekN_refused (hq : cq.Represents N queue) {n : UInt32}
    (hn : ¬ n.toNat ≤ queue.length) (cqes : ℕ → UInt8) :
    cqPeekN N cq cqes n = (cq, false, cqes) := by
  rw [cqPeekN, if_pos ((hq.nelem_lt_iff hN n).mpr hn)]

end Bulk

end Representation

/-! ### Words -/

/-- Reading an `int` back from its bytes. -/
theorem intAt_intBytes (x : Int32) : intAt (intBytes x) = x := by
  have hword : ∀ w : UInt32, (w.toUInt8.toUInt32 ||| (w >>> 8).toUInt8.toUInt32 <<< 8 |||
      (w >>> 16).toUInt8.toUInt32 <<< 16 ||| (w >>> 24).toUInt8.toUInt32 <<< 24) = w := by
    intro w
    apply UInt32.eq_of_toBitVec_eq
    apply BitVec.eq_of_getLsbD_eq
    intro i hi
    simp only [UInt32.toBitVec_or, UInt32.toBitVec_shiftLeft, UInt32.toBitVec_shiftRight,
      UInt8.toBitVec_toUInt32, UInt32.toBitVec_toUInt8, BitVec.getLsbD_or]
    interval_cases i <;> simp
  exact congrArg UInt32.toInt32 (hword x.toUInt32)

theorem intAt_congr {data data' : ℕ → UInt8} (h : ∀ i < 4, data i = data' i) :
    intAt data = intAt data' := by
  unfold intAt
  rw [h 0 (by omega), h 1 (by omega), h 2 (by omega), h 3 (by omega)]

/-- Four bytes taken out are the word they were put in as. -/
theorem intAt_overwrite (data : ℕ → UInt8) (x : Int32) :
    intAt (overwrite data (bytesFrom (intBytes x) 4)) = x := by
  refine (intAt_congr fun i hi => ?_).trans (intAt_intBytes x)
  interval_cases i <;> rfl

/-! ### The refinement -/

section Refinement

variable {N : UInt32} {cq : Cq} {queue : List UInt8}

/-- Whatever its checks say, `cq_init` leaves the empty queue. -/
theorem cqInit_represents (hN : 0 < N.toNat) (prior : Cq) :
    (cqInit N prior).1.Represents N [] := by
  have hfresh : (cqInit N prior).1 =
      { cBuf := fun i => if i < N.toNat then 0 else prior.cBuf i
        fence := cqFence
        head := 0
        tail := 0 } := by
    simp only [cqInit, cqPop, cqEmpty, beq_self_eq_true, if_true]
    split
    · rfl
    · split <;> rfl
  rw [hfresh]
  exact
    { head_lt := hN
      tail_lt := hN
      length_lt := hN
      head_eq := (Nat.zero_mod _).symm
      contents_eq := rfl
      fence_eq := rfl }

/-- With room for a byte the checks of `cq_init` pass. -/
theorem cqInit_succeeds (hlow : 2 ≤ N.toNat) (prior : Cq) : (cqInit N prior).2 = true := by
  have hone : (1 : UInt32) % N ≠ 0 := by
    rw [Ne, ← UInt32.toNat_inj, UInt32.toNat_mod, UInt32.toNat_one, UInt32.toNat_zero,
      Nat.mod_eq_of_lt hlow]
    exact Nat.one_ne_zero
  have hself : N % N = 0 := by
    rw [← UInt32.toNat_inj, UInt32.toNat_mod, Nat.mod_self, UInt32.toNat_zero]
  simp [cqInit, cqPop, cqEmpty, cqFull, cqNelem, hone, hself]

/-- **One call**: the queue answers as the list does and still represents it. -/
theorem Cq.Represents.step (hq : cq.Represents N queue) (hN : N.toNat < 2 ^ 31) (call : CqCall) :
    (cqStep N cq call).2 = (fifoStep (N.toNat - 1) queue call).2 ∧
      (cqStep N cq call).1.Represents N (fifoStep (N.toNat - 1) queue call).1 := by
  have hlt := hq.length_lt
  cases call with
  | push cqe =>
      by_cases hroom : queue.length + 1 < N.toNat
      · obtain ⟨hrc, hpushed⟩ := hq.push hroom cqe
        have hfits : 0 < [cqe].length ∧ queue.length + [cqe].length ≤ N.toNat - 1 := by
          simp only [List.length_singleton]
          omega
        simp only [cqStep, fifoStep, fifoAppend, if_pos hfits, hrc]
        exact ⟨trivial, hpushed⟩
      · have hfull := hq.push_full (by omega) cqe
        have hfits : ¬ (0 < [cqe].length ∧ queue.length + [cqe].length ≤ N.toNat - 1) := by
          simp only [List.length_singleton]
          omega
        simp only [cqStep, fifoStep, fifoAppend, if_neg hfits, hfull]
        exact ⟨trivial, hq⟩
  | pop cqe =>
      cases queue with
      | nil =>
          simp only [cqStep, fifoStep, hq.pop_nil]
          exact ⟨trivial, hq⟩
      | cons first rest =>
          simp only [cqStep, fifoStep, hq.pop_cons cqe]
          exact ⟨trivial, hq.advanceTail⟩
  | peek cqe =>
      cases queue with
      | nil =>
          have hnone : cqPeek cq cqe = (false, cqe) := by
            rw [cqPeek, if_pos (hq.empty_iff.mpr rfl)]
          simp only [cqStep, fifoStep, hnone]
          exact ⟨trivial, hq⟩
      | cons first rest =>
          simp only [cqStep, fifoStep, hq.peek_cons]
          exact ⟨trivial, hq⟩
  | pushN data n =>
      obtain ⟨hrc, hpushed⟩ := hq.pushN_eq hN data n
      exact ⟨congrArg CqAnswer.status hrc, hpushed⟩
  | popN data n =>
      by_cases hn : n.toNat ≤ queue.length
      · obtain ⟨hanswer, hpopped⟩ := hq.popN hN hn data
        simp only [cqStep, fifoStep, if_pos hn, hanswer]
        exact ⟨trivial, hpopped⟩
      · simp only [cqStep, fifoStep, if_neg hn, hq.popN_refused hN hn]
        exact ⟨trivial, hq⟩
  | peekN cqes n =>
      by_cases hn : n.toNat ≤ queue.length
      · simp only [cqStep, fifoStep, if_pos hn, hq.peekN hN hn]
        exact ⟨trivial, hq⟩
      · simp only [cqStep, fifoStep, if_neg hn, hq.peekN_refused hN hn]
        exact ⟨trivial, hq⟩
  | push32 x =>
      obtain ⟨hrc, hpushed⟩ := hq.pushN_eq hN (intBytes x) 4
      exact ⟨congrArg CqAnswer.status hrc, hpushed⟩
  | pop32 x =>
      have hfour : (4 : UInt32).toNat = 4 := rfl
      by_cases hn : 4 ≤ queue.length
      · obtain ⟨hanswer, hpopped⟩ := hq.popN hN (hfour ▸ hn) (intBytes x)
        rw [hfour] at hanswer hpopped
        simp only [cqStep, cqPop32, fifoStep, if_pos hn, hanswer]
        exact ⟨trivial, hpopped⟩
      · have hrefused := hq.popN_refused hN (hfour ▸ hn) (intBytes x)
        simp only [cqStep, cqPop32, fifoStep, if_neg hn, hrefused, intAt_intBytes]
        exact ⟨trivial, hq⟩

/-- What a failing call returns: what its pointer held before. -/
def CqCall.refused : CqCall → CqAnswer
  | .push _ => .status false
  | .pop cqe => .byte false cqe
  | .peek cqe => .byte false cqe
  | .pushN _ _ => .status false
  | .popN data _ => .bytes false data
  | .peekN cqes _ => .bytes false cqes
  | .push32 _ => .status false
  | .pop32 x => .word false x

/-- The calls that only look. -/
def CqCall.isPeek : CqCall → Bool
  | .peek _ => true
  | .peekN _ _ => true
  | _ => false

/-- A failing call changes neither the queue nor what its pointer holds. -/
theorem cqStep_refused {call : CqCall} (hfail : (cqStep N cq call).2.rc = false) :
    cqStep N cq call = (cq, call.refused) := by
  have hpush : ∀ data n, (cqPushN N cq data n).2 = false → cqPushN N cq data n = (cq, false) := by
    intro data n
    unfold cqPushN
    split <;> simp
  have hpop : ∀ data n, (cqPopN N cq data n).2.1 = false →
      cqPopN N cq data n = (cq, false, data) := by
    intro data n
    unfold cqPopN
    split <;> simp
  cases call with
  | push cqe =>
      revert hfail
      simp only [cqStep, cqPush]
      split <;> simp [CqAnswer.rc, CqCall.refused]
  | pop cqe =>
      revert hfail
      simp only [cqStep, cqPop]
      split <;> simp [CqAnswer.rc, CqCall.refused]
  | peek cqe =>
      revert hfail
      simp only [cqStep, cqPeek]
      split <;> simp [CqAnswer.rc, CqCall.refused]
  | pushN data n => simp only [cqStep, hpush data n hfail, CqCall.refused]
  | popN data n => simp only [cqStep, hpop data n hfail, CqCall.refused]
  | peekN cqes n =>
      by_cases hsize : n > cqNelem N cq
      · simp only [cqStep, cqPeekN, if_pos hsize, CqCall.refused]
      · have hpopped : (cqPopN N cq cqes n).2.1 = true := by rw [cqPopN, if_neg hsize]
        simp [cqStep, cqPeekN, if_neg hsize, CqAnswer.rc, hpopped] at hfail
  | push32 x => simp only [cqStep, cqPush32, hpush _ _ hfail, CqCall.refused]
  | pop32 x => simp only [cqStep, cqPop32, hpop _ _ hfail, intAt_intBytes, CqCall.refused]

/-- The calls that only look leave the queue as it is. -/
theorem Cq.Represents.step_peek (hq : cq.Represents N queue) (hN : N.toNat < 2 ^ 31)
    {call : CqCall} (hpeek : call.isPeek = true) : (cqStep N cq call).1 = cq := by
  cases call with
  | peek cqe => rfl
  | peekN cqes n =>
      by_cases hn : n.toNat ≤ queue.length
      · simp only [cqStep, hq.peekN hN hn]
      · simp only [cqStep, hq.peekN_refused hN hn]
  | _ => simp [CqCall.isPeek] at hpeek

/-- The queue and the list stay related along every run. -/
theorem Cq.Represents.run (hq : cq.Represents N queue) (hN : N.toNat < 2 ^ 31)
    (calls : List CqCall) :
    Machine.outputs (cqStep N) cq calls =
        Machine.outputs (fifoStep (N.toNat - 1)) queue calls ∧
      (Machine.exec (cqStep N) cq calls).Represents N
        (Machine.exec (fifoStep (N.toNat - 1)) queue calls) := by
  have hstep : ∀ (cq : Cq) (queue : List UInt8) (call : CqCall),
      cq.Represents N queue → True →
      (cqStep N cq call).2 = (fifoStep (N.toNat - 1) queue call).2 ∧
        (cqStep N cq call).1.Represents N (fifoStep (N.toNat - 1) queue call).1 :=
    fun _ _ call hrel _ => hrel.step hN call
  exact Machine.simulation hstep calls cq queue hq
    (Machine.along_of_forall (fun _ _ => trivial) calls cq)

/-- The guard word survives every run, so `cq_ok` succeeds. -/
theorem Cq.Represents.ok (hq : cq.Represents N queue) (hN : N.toNat < 2 ^ 31)
    (calls : List CqCall) : cqOk (Machine.exec (cqStep N) cq calls) = true := by
  rw [cqOk, (hq.run hN calls).2.fence_eq, bne_self_eq_false]
  rfl

end Refinement

/-! ### What a run takes out -/

/-- One call of the list: some bytes go at the front, some come at the end. -/
theorem fifoStep_conserves (cap : ℕ) (queue : List UInt8) (call : CqCall) :
    ∃ added, (fifoStep cap queue call).1 =
        queue.drop (takenBy call (fifoStep cap queue call).2) ++ added ∧
      takenBy call (fifoStep cap queue call).2 ≤ queue.length := by
  have happend : ∀ bytes : List UInt8, ∃ added,
      (fifoAppend cap queue bytes).1 = queue.drop 0 ++ added := by
    intro bytes
    unfold fifoAppend
    split
    · exact ⟨bytes, rfl⟩
    · exact ⟨[], (List.append_nil _).symm⟩
  have hsame : ∀ k, ∃ added, queue.drop k = queue.drop k ++ added :=
    fun k => ⟨[], (List.append_nil _).symm⟩
  cases call with
  | push cqe =>
      obtain ⟨added, hadded⟩ := happend [cqe]
      exact ⟨added, hadded, Nat.zero_le _⟩
  | pushN data n =>
      obtain ⟨added, hadded⟩ := happend (bytesFrom data n.toNat)
      exact ⟨added, hadded, Nat.zero_le _⟩
  | push32 x =>
      obtain ⟨added, hadded⟩ := happend (bytesFrom (intBytes x) 4)
      exact ⟨added, hadded, Nat.zero_le _⟩
  | pop cqe =>
      cases queue with
      | nil => exact ⟨[], rfl, Nat.zero_le _⟩
      | cons first rest => exact ⟨[], (List.append_nil _).symm, Nat.succ_pos _⟩
  | peek cqe =>
      cases queue with
      | nil => exact ⟨[], rfl, Nat.zero_le _⟩
      | cons first rest => exact ⟨[], (List.append_nil _).symm, Nat.zero_le _⟩
  | popN data n =>
      obtain ⟨added, hadded⟩ := hsame n.toNat
      by_cases hn : n.toNat ≤ queue.length
      · refine ⟨added, ?_, ?_⟩ <;> simp only [fifoStep, if_pos hn, takenBy, CqAnswer.rc, if_true]
        · exact hadded
        · exact hn
      · simp [fifoStep, if_neg hn, takenBy, CqAnswer.rc]
  | peekN cqes n =>
      obtain ⟨added, hadded⟩ := hsame 0
      refine ⟨added, ?_, Nat.zero_le _⟩
      by_cases hn : n.toNat ≤ queue.length
      · simp only [fifoStep, if_pos hn]
        exact hadded
      · simp only [fifoStep, if_neg hn]
        exact hadded
  | pop32 x =>
      obtain ⟨added, hadded⟩ := hsame 4
      by_cases hn : 4 ≤ queue.length
      · refine ⟨added, ?_, ?_⟩ <;> simp only [fifoStep, if_pos hn, takenBy, CqAnswer.rc, if_true]
        · exact hadded
        · exact hn
      · simp [fifoStep, if_neg hn, takenBy, CqAnswer.rc]

/-- **Conservation along a run**: what is in the list is what was there and what came in,
less what was taken out. -/
theorem fifo_conserves (cap : ℕ) (calls : List CqCall) (queue : List UInt8) :
    ∃ added, Machine.exec (fifoStep cap) queue calls =
      (queue ++ added).drop (takenAlong calls (Machine.outputs (fifoStep cap) queue calls)) := by
  induction calls generalizing queue with
  | nil => exact ⟨[], by simp [takenAlong]⟩
  | cons call calls ih =>
      obtain ⟨first, hstep, htaken⟩ := fifoStep_conserves cap queue call
      obtain ⟨later, hrun⟩ := ih (fifoStep cap queue call).1
      refine ⟨first ++ later, ?_⟩
      rw [Machine.exec_cons, hrun, Machine.outputs_cons]
      show _ = (queue ++ (first ++ later)).drop (takenBy call _ + takenAlong calls _)
      rw [← List.drop_drop, List.drop_append_of_le_length htaken, hstep, List.append_assoc]

/-- A word behind `queue.length` bytes comes out whole once these have been taken. -/
theorem fifo_pop32 (cap : ℕ) (queue : List UInt8) (x y : Int32) (calls : List CqCall)
    (hdrained : takenAlong calls
      (Machine.outputs (fifoStep cap) (queue ++ bytesFrom (intBytes x) 4) calls) = queue.length) :
    (fifoStep cap (Machine.exec (fifoStep cap) (queue ++ bytesFrom (intBytes x) 4) calls)
      (.pop32 y)).2 = .word true x := by
  obtain ⟨added, hrun⟩ := fifo_conserves cap calls (queue ++ bytesFrom (intBytes x) 4)
  rw [hdrained, List.append_assoc, List.drop_left] at hrun
  have hword : (bytesFrom (intBytes x) 4).length = 4 := rfl
  have hlong : 4 ≤ (bytesFrom (intBytes x) 4 ++ added).length := by
    rw [List.length_append, hword]
    exact Nat.le_add_right 4 _
  have htake : (bytesFrom (intBytes x) 4 ++ added).take 4 = bytesFrom (intBytes x) 4 :=
    List.take_left' hword
  simp only [fifoStep, hrun, if_pos hlong, htake, intAt_overwrite]

/-! ### The main theorem -/

section Main

variable {N : UInt32} {cq : Cq} {queue : List UInt8}

theorem Cq.Represents.pushN_iff (hq : cq.Represents N queue) (hN : N.toNat < 2 ^ 31)
    (data : ℕ → UInt8) (n : UInt32) :
    (cqPushN N cq data n).2 = true ↔ 0 < n ∧ n ≤ cqNspace N cq := by
  have hlt := hq.length_lt
  have hcount : (bytesFrom data n.toNat).length = n.toNat := by simp [bytesFrom]
  rw [UInt32.lt_iff_toNat_lt, UInt32.le_iff_toNat_le, hq.toNat_nspace hN,
    (hq.pushN_eq hN data n).1, UInt32.toNat_zero, fifoAppend, hcount]
  by_cases hfits : 0 < n.toNat ∧ queue.length + n.toNat ≤ N.toNat - 1
  · rw [if_pos hfits]
    exact iff_of_true rfl (by omega)
  · rw [if_neg hfits]
    exact iff_of_false Bool.false_ne_true (by omega)

theorem Cq.Represents.popN_iff (hq : cq.Represents N queue) (hN : N.toNat < 2 ^ 31)
    (data : ℕ → UInt8) (n : UInt32) :
    (cqPopN N cq data n).2.1 = true ↔ n ≤ cqNelem N cq := by
  rw [UInt32.le_iff_toNat_le, hq.toNat_nelem hN]
  by_cases hn : n.toNat ≤ queue.length
  · simp [(hq.popN hN hn data).1, hn]
  · simp [hq.popN_refused hN hn, hn]

theorem Cq.Represents.peekN_iff (hq : cq.Represents N queue) (hN : N.toNat < 2 ^ 31)
    (cqes : ℕ → UInt8) (n : UInt32) :
    (cqPeekN N cq cqes n).2.1 = true ↔ n ≤ cqNelem N cq := by
  rw [UInt32.le_iff_toNat_le, hq.toNat_nelem hN]
  by_cases hn : n.toNat ≤ queue.length
  · simp [hq.peekN hN hn, hn]
  · simp [hq.peekN_refused hN hn, hn]

/-- A pushed word comes back once the bytes before it are gone. -/
theorem Cq.Represents.pop32_of_push32 (hq : cq.Represents N queue) (hN : N.toNat < 2 ^ 31)
    (x y : Int32) (calls : List CqCall) (hpush : (cqPush32 N cq x).2 = true)
    (hdrained : takenAlong calls (Machine.outputs (cqStep N) (cqPush32 N cq x).1 calls) =
      queue.length) :
    (cqPop32 N (Machine.exec (cqStep N) (cqPush32 N cq x).1 calls) y).2 = (true, x) := by
  obtain ⟨hrc, hpushed⟩ := hq.step hN (.push32 x)
  have hfits : (fifoAppend (N.toNat - 1) queue (bytesFrom (intBytes x) 4)).2 = true := by
    rw [← hpush]
    exact (CqAnswer.status.inj hrc).symm
  have hqueue : (fifoAppend (N.toNat - 1) queue (bytesFrom (intBytes x) 4)).1 =
      queue ++ bytesFrom (intBytes x) 4 := by
    revert hfits
    unfold fifoAppend
    split <;> simp
  have hword : (cqPush32 N cq x).1.Represents N (queue ++ bytesFrom (intBytes x) 4) :=
    hqueue ▸ hpushed
  obtain ⟨hmore, hlater⟩ := hword.run hN calls
  rw [hmore] at hdrained
  have hanswer := (hlater.step hN (.pop32 y)).1.trans
    (fifo_pop32 (N.toNat - 1) queue x y calls hdrained)
  obtain ⟨htrue, hx⟩ := CqAnswer.word.inj hanswer
  exact Prod.ext htrue hx

end Main

/-- **The circular queue is a bounded FIFO.**  From `cq_init` over any memory, whatever the
calls, the queue answers as the list of at most `CQ_N - 1` bytes does.  In the state they
leave, `cq_nelem` and `cq_nspace` are its length and what is left of the capacity; the bulk
calls succeed exactly on counts that fit; a call that fails changes neither the queue nor
what its pointer holds; looking changes nothing; and a word pushed here is what `cq_pop32`
returns once the bytes that were before it have been taken out, whatever is called in
between. -/
theorem cqueue_refines_fifo (N : UInt32) (hlow : 2 ≤ N.toNat) (hhigh : N.toNat < 2 ^ 31)
    (prior : Cq) (calls : List CqCall) :
    let start := (cqInit N prior).1
    let cq := Machine.exec (cqStep N) start calls
    let queue := Machine.exec (fifoStep (N.toNat - 1)) [] calls
    (cqInit N prior).2 = true ∧
    Machine.outputs (cqStep N) start calls =
      Machine.outputs (fifoStep (N.toNat - 1)) [] calls ∧
    queue.length ≤ N.toNat - 1 ∧
    (cqNelem N cq).toNat = queue.length ∧
    (cqNspace N cq).toNat = N.toNat - 1 - queue.length ∧
    (∀ data n, (cqPushN N cq data n).2 = true ↔ 0 < n ∧ n ≤ cqNspace N cq) ∧
    (∀ data n, (cqPopN N cq data n).2.1 = true ↔ n ≤ cqNelem N cq) ∧
    (∀ cqes n, (cqPeekN N cq cqes n).2.1 = true ↔ n ≤ cqNelem N cq) ∧
    (∀ call, (cqStep N cq call).2.rc = false → cqStep N cq call = (cq, call.refused)) ∧
    (∀ call, call.isPeek = true → (cqStep N cq call).1 = cq) ∧
    ∀ x y more, (cqPush32 N cq x).2 = true →
      takenAlong more (Machine.outputs (cqStep N) (cqPush32 N cq x).1 more) = queue.length →
      (cqPop32 N (Machine.exec (cqStep N) (cqPush32 N cq x).1 more) y).2 = (true, x) := by
  intro start cq queue
  have hstart := cqInit_represents (Nat.zero_lt_of_lt hlow) prior
  obtain ⟨houtputs, hend⟩ := hstart.run hhigh calls
  have hq : cq.Represents N queue := hend
  have hlt := hq.length_lt
  exact ⟨cqInit_succeeds hlow prior, houtputs, by omega, hq.toNat_nelem hhigh,
    hq.toNat_nspace hhigh, hq.pushN_iff hhigh, hq.popN_iff hhigh, hq.peekN_iff hhigh,
    fun call => cqStep_refused, fun call => hq.step_peek hhigh, hq.pop32_of_push32 hhigh⟩

/-- Three slots, two bytes in, one out, and one more behind the end of the array. -/
theorem cqueue_refines_fifo_three_slots :
    2 ≤ (3 : UInt32).toNat ∧ (3 : UInt32).toNat < 2 ^ 31 ∧
      (cqNelem 3 (Machine.exec (cqStep 3) (cqInit 3 ⟨fun _ => 0xAA, 0, 7, 7⟩).1
        [.push 1, .push 2, .pop 0, .push 3])).toNat = 2 :=
  ⟨by decide, by decide,
    (cqueue_refines_fifo 3 (by decide) (by decide) ⟨fun _ => 0xAA, 0, 7, 7⟩
      [.push 1, .push 2, .pop 0, .push 3]).2.2.2.1.trans (by rfl)⟩

end BaremetalDhcp
