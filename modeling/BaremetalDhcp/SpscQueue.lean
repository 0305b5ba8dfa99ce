import Mathlib.Logic.Relation
import BaremetalDhcp.CircularQueue

/-!
# One producer and one consumer on the circular queue

`cqueue.h` calls the queue lock free: "single mutator of head, single mutator of tail".
Here one party runs `cq_push` again and again and another runs `cq_pop`, both on one `cq_t`,
and every load and every store of the two functions is a step of its own, in the order the
source has them.  Memory is sequentially consistent: a step sees what the steps before it
have stored.

* `ProducerPc`, `ConsumerPc` — where a party stands inside its function, with the values it
  holds in locals; `producerStep`, `consumerStep` — the access it makes next.
* `SpscStep`, `Spsc.Reachable` — any interleaving.
* `Spsc.Inv` — what every reachable state satisfies: between `tail` and `head` the slots hold
  the bytes that were pushed and not popped yet, and what a party found out before is still
  true, since only the other party's index has moved and only in the direction that helps.

The state also records the finished calls: each successful push and pop with the slot it
used.  `spsc_safe` is about these records.
-/

namespace BaremetalDhcp

/-! ### The two parties -/

/-- Where `cq_push` stands: the access that comes next, with the locals it needs. -/
inductive ProducerPc where
  /-- Between two calls; next, `cq_full` loads `head`. -/
  | idle
  /-- `cq_full` has loaded `head`; next it loads `tail` and compares. -/
  | loadTail (cqe : UInt8) (head : UInt32)
  /-- Not full; next, `head = cq->head`. -/
  | loadHead (cqe : UInt8)
  /-- Next, `cq->c_buf[head] = cqe`. -/
  | storeByte (cqe : UInt8) (head : UInt32)
  /-- Next, `cq->head = (head + 1) % CQ_N`, and the call succeeds. -/
  | storeHead (cqe : UInt8) (head : UInt32)

/-- Where `cq_pop` stands. -/
inductive ConsumerPc where
  /-- Between two calls; next, `cq_empty` loads `head`. -/
  | idle
  /-- `cq_empty` has loaded `head`; next it loads `tail` and compares. -/
  | loadTail (head : UInt32)
  /-- Not empty; next, `tail = cq->tail`. -/
  | reloadTail
  /-- Next, `*cqe = cq->c_buf[tail]`. -/
  | loadByte (tail : UInt32)
  /-- Next, `cq->tail = (tail + 1) % CQ_N`, and the call succeeds with `cqe`. -/
  | storeTail (tail : UInt32) (cqe : UInt8)

/-- The shared queue, the two parties, and the finished calls with the slots they used. -/
structure Spsc where
  mem : Cq
  producer : ProducerPc
  consumer : ConsumerPc
  pushed : List (ℕ × UInt8)
  popped : List (ℕ × UInt8)

/-- The producer's next access; `next` is the byte it pushes if a new call begins. -/
def producerStep (N : UInt32) (next : UInt8) (s : Spsc) : Spsc :=
  match s.producer with
  | .idle => { s with producer := .loadTail next s.mem.head }
  | .loadTail cqe head =>
      if (head + 1) % N == s.mem.tail then { s with producer := .idle }
      else { s with producer := .loadHead cqe }
  | .loadHead cqe => { s with producer := .storeByte cqe s.mem.head }
  | .storeByte cqe head =>
      { s with
        mem := { s.mem with cBuf := Function.update s.mem.cBuf head.toNat cqe }
        producer := .storeHead cqe head }
  | .storeHead cqe head =>
      { s with
        mem := { s.mem with head := (head + 1) % N }
        producer := .idle
        pushed := s.pushed ++ [(head.toNat, cqe)] }

/-- The consumer's next access. -/
def consumerStep (N : UInt32) (s : Spsc) : Spsc :=
  match s.consumer with
  | .idle => { s with consumer := .loadTail s.mem.head }
  | .loadTail head =>
      if head == s.mem.tail then { s with consumer := .idle }
      else { s with consumer := .reloadTail }
  | .reloadTail => { s with consumer := .loadByte s.mem.tail }
  | .loadByte tail => { s with consumer := .storeTail tail (s.mem.cBuf tail.toNat) }
  | .storeTail tail cqe =>
      { s with
        mem := { s.mem with tail := (tail + 1) % N }
        consumer := .idle
        popped := s.popped ++ [(tail.toNat, cqe)] }

/-- One access of either party. -/
inductive SpscStep (N : UInt32) (s : Spsc) : Spsc → Prop where
  | producer (next : UInt8) : SpscStep N s (producerStep N next s)
  | consumer : SpscStep N s (consumerStep N s)

/-- A queue set up by `cq_init` over some memory, with neither party inside a call. -/
def Spsc.start (N : UInt32) (prior : Cq) : Spsc where
  mem := (cqInit N prior).1
  producer := .idle
  consumer := .idle
  pushed := []
  popped := []

/-- What some interleaving of the two parties' accesses leads to. -/
def Spsc.Reachable (N : UInt32) (prior : Cq) (s : Spsc) : Prop :=
  Relation.ReflTransGen (SpscStep N) (Spsc.start N prior) s

/-- The pushes whose byte no finished pop has returned yet.  A byte that a pop has loaded
but not yet returned is among them. -/
def Spsc.unread (s : Spsc) : List (ℕ × UInt8) :=
  s.pushed.drop s.popped.length

/-! ### The invariant -/

/-- What the producer relies on, in each place, with `waiting` bytes in the queue: it found
the queue not full, and since then bytes have only gone out; its copy of `head` is current,
since nobody else stores `head`. -/
def ProducerOk (N head : UInt32) (cBuf : ℕ → UInt8) (waiting : ℕ) : ProducerPc → Prop
  | .idle => True
  | .loadTail _ loaded => loaded = head
  | .loadHead _ => waiting + 1 < N.toNat
  | .storeByte _ loaded => loaded = head ∧ waiting + 1 < N.toNat
  | .storeHead cqe loaded => loaded = head ∧ waiting + 1 < N.toNat ∧ cBuf head.toNat = cqe

/-- What the consumer relies on: the `head` it loaded may be behind the current one, and
the queue it found not empty has only been added to. -/
def ConsumerOk (N tail : UInt32) (bytes : List UInt8) : ConsumerPc → Prop
  | .idle => True
  | .loadTail loaded => ∃ k ≤ bytes.length, loaded.toNat = (tail.toNat + k) % N.toNat
  | .reloadTail => bytes ≠ []
  | .loadByte loaded => loaded = tail ∧ bytes ≠ []
  | .storeTail loaded cqe => loaded = tail ∧ ∃ rest, bytes = cqe :: rest

/-- What holds in every reachable state; `waiting` are the pushes not popped yet. -/
structure Spsc.Inv (N : UInt32) (s : Spsc) (waiting : List (ℕ × UInt8)) : Prop where
  pushed_eq : s.pushed = s.popped ++ waiting
  represents : s.mem.Represents N (waiting.map Prod.snd)
  slots_eq : waiting.map Prod.fst =
    RingBuffer.contents N.toNat id s.mem.tail.toNat waiting.length
  producer_ok : ProducerOk N s.mem.head s.mem.cBuf waiting.length s.producer
  consumer_ok : ConsumerOk N s.mem.tail (waiting.map Prod.snd) s.consumer

section Interleaving

variable {N : UInt32}

/-- Bytes that go out do not disturb the producer. -/
theorem ProducerOk.mono {head : UInt32} {cBuf : ℕ → UInt8} {waiting fewer : ℕ} {pc : ProducerPc}
    (hok : ProducerOk N head cBuf waiting pc) (hle : fewer ≤ waiting) :
    ProducerOk N head cBuf fewer pc := by
  cases pc with
  | idle => trivial
  | loadTail cqe loaded => exact hok
  | loadHead cqe => exact lt_of_le_of_lt (Nat.add_le_add_right hle 1) hok
  | storeByte cqe loaded =>
      exact ⟨hok.1, lt_of_le_of_lt (Nat.add_le_add_right hle 1) hok.2⟩
  | storeHead cqe loaded =>
      exact ⟨hok.1, lt_of_le_of_lt (Nat.add_le_add_right hle 1) hok.2.1, hok.2.2⟩

/-- Bytes that come in do not disturb the consumer. -/
theorem ConsumerOk.mono {tail : UInt32} {bytes : List UInt8} {pc : ConsumerPc}
    (hok : ConsumerOk N tail bytes pc) (more : List UInt8) :
    ConsumerOk N tail (bytes ++ more) pc := by
  cases pc with
  | idle => trivial
  | loadTail loaded =>
      obtain ⟨k, hk, hloaded⟩ := hok
      exact ⟨k, hk.trans (by simp), hloaded⟩
  | reloadTail => exact List.append_ne_nil_of_left_ne_nil hok more
  | loadByte loaded => exact ⟨hok.1, List.append_ne_nil_of_left_ne_nil hok.2 more⟩
  | storeTail loaded cqe =>
      obtain ⟨htail, rest, rfl⟩ := hok
      exact ⟨htail, rest ++ more, rfl⟩

/-- **An access of the producer keeps the invariant.** -/
theorem Spsc.Inv.producerStep {s : Spsc} {waiting : List (ℕ × UInt8)} (hinv : s.Inv N waiting)
    (next : UInt8) : ∃ waiting', (producerStep N next s).Inv N waiting' := by
  obtain ⟨mem, producer, consumer, pushed, popped⟩ := s
  obtain ⟨hpushed, hrep, hslots, hproducer, hconsumer⟩ := hinv
  dsimp only at hpushed hrep hslots hproducer hconsumer
  cases producer with
  | idle => exact ⟨waiting, hpushed, hrep, hslots, rfl, hconsumer⟩
  | loadTail cqe loaded =>
      obtain rfl : loaded = mem.head := hproducer
      by_cases hfull : (mem.head + 1) % N == mem.tail
      · simp only [BaremetalDhcp.producerStep, if_pos hfull]
        exact ⟨waiting, hpushed, hrep, hslots, trivial, hconsumer⟩
      · simp only [BaremetalDhcp.producerStep, if_neg hfull]
        have hroom := hrep.full_iff.not.mp hfull
        have hlt := hrep.length_lt
        rw [List.length_map] at hroom hlt
        exact ⟨waiting, hpushed, hrep, hslots, by show _ + 1 < _; omega, hconsumer⟩
  | loadHead cqe => exact ⟨waiting, hpushed, hrep, hslots, ⟨rfl, hproducer⟩, hconsumer⟩
  | storeByte cqe loaded =>
      obtain ⟨rfl, hroom⟩ := hproducer
      exact ⟨waiting, hpushed, hrep.store cqe, hslots,
        ⟨rfl, hroom, Function.update_self _ _ _⟩, hconsumer⟩
  | storeHead cqe loaded =>
      obtain ⟨rfl, hroom, hstored⟩ := hproducer
      have hroom' : (waiting.map Prod.snd).length + 1 < N.toNat := by rwa [List.length_map]
      have hslot : mem.head.toNat = (mem.tail.toNat + waiting.length) % N.toNat := by
        rw [hrep.head_eq, List.length_map]
      refine ⟨waiting ++ [(mem.head.toNat, cqe)], ?_, ?_, ?_, trivial, ?_⟩
      · show pushed ++ _ = popped ++ _
        rw [← List.append_assoc]
        exact congrArg (· ++ _) hpushed
      · rw [List.map_append]
        exact hrep.advanceHead hroom' hstored
      · rw [List.map_append, List.length_append, List.length_singleton,
          RingBuffer.contents_concat, hslots]
        exact congrArg (fun slot => _ ++ [slot]) hslot
      · rw [List.map_append]
        exact hconsumer.mono _

/-- **An access of the consumer keeps the invariant.** -/
theorem Spsc.Inv.consumerStep {s : Spsc} {waiting : List (ℕ × UInt8)} (hinv : s.Inv N waiting) :
    ∃ waiting', (consumerStep N s).Inv N waiting' := by
  obtain ⟨mem, producer, consumer, pushed, popped⟩ := s
  obtain ⟨hpushed, hrep, hslots, hproducer, hconsumer⟩ := hinv
  dsimp only at hpushed hrep hslots hproducer hconsumer
  cases consumer with
  | idle =>
      exact ⟨waiting, hpushed, hrep, hslots, hproducer, _, le_rfl, hrep.head_eq⟩
  | loadTail loaded =>
      obtain ⟨k, hk, hloaded⟩ := hconsumer
      by_cases hempty : loaded == mem.tail
      · simp only [BaremetalDhcp.consumerStep, if_pos hempty]
        exact ⟨waiting, hpushed, hrep, hslots, hproducer, trivial⟩
      · simp only [BaremetalDhcp.consumerStep, if_neg hempty]
        refine ⟨waiting, hpushed, hrep, hslots, hproducer, fun hnil => hempty ?_⟩
        -- with nothing in the queue the `head` loaded before is `tail`
        rw [hnil, List.length_nil, Nat.le_zero] at hk
        rw [hk, Nat.add_zero, Nat.mod_eq_of_lt hrep.tail_lt] at hloaded
        exact beq_iff_eq.mpr (UInt32.toNat_inj.mp hloaded)
  | reloadTail => exact ⟨waiting, hpushed, hrep, hslots, hproducer, rfl, hconsumer⟩
  | loadByte loaded =>
      obtain ⟨rfl, hne⟩ := hconsumer
      refine ⟨waiting, hpushed, hrep, hslots, hproducer, rfl, ?_⟩
      cases hbytes : waiting.map Prod.snd with
      | nil => exact absurd hbytes hne
      | cons first rest =>
          rw [hbytes] at hrep
          exact ⟨rest, by rw [hrep.first_eq]⟩
  | storeTail loaded cqe =>
      obtain ⟨rfl, rest, hbytes⟩ := hconsumer
      cases waiting with
      | nil => cases hbytes
      | cons first others =>
          obtain ⟨slot, byte⟩ := first
          obtain ⟨rfl, rfl⟩ := List.cons.inj hbytes
          obtain ⟨hslot, hothers⟩ :=
            List.cons.inj (hslots.trans (RingBuffer.contents_succ _))
          have htail : slot = mem.tail.toNat := hslot.trans (Nat.mod_eq_of_lt hrep.tail_lt)
          subst htail
          refine ⟨others, ?_, hrep.advanceTail, ?_, hproducer.mono (Nat.le_succ _), trivial⟩
          · exact hpushed.trans (List.append_cons _ _ _)
          · show _ = RingBuffer.contents _ _ ((mem.tail + 1) % N).toNat _
            rw [toNat_next hrep.tail_lt]
            exact hothers

/-- Every interleaving keeps the invariant. -/
theorem Spsc.Reachable.inv (hN : 0 < N.toNat) {prior : Cq} {s : Spsc}
    (hreach : Spsc.Reachable N prior s) : ∃ waiting, s.Inv N waiting := by
  induction hreach with
  | refl => exact ⟨[], rfl, cqInit_represents hN prior, rfl, trivial, trivial⟩
  | tail _ hstep ih =>
      obtain ⟨waiting, hinv⟩ := ih
      cases hstep with
      | producer next => exact hinv.producerStep next
      | consumer => exact hinv.consumerStep

end Interleaving

/-! ### Safety -/

/-- **Single-producer, single-consumer use is safe.**  Whatever the interleaving, the bytes
returned by the successful pops are a prefix of those of the successful pushes, and when the
producer is about to store a byte, no unread push is in that slot. -/
theorem spsc_safe (N : UInt32) (hN : 0 < N.toNat) (prior : Cq) (s : Spsc)
    (hreach : Spsc.Reachable N prior s) :
    s.popped.map Prod.snd <+: s.pushed.map Prod.snd ∧
      ∀ cqe head, s.producer = .storeByte cqe head →
        ∀ push ∈ s.unread, push.1 ≠ head.toNat := by
  obtain ⟨waiting, hinv⟩ := hreach.inv hN
  constructor
  · rw [hinv.pushed_eq, List.map_append]
    exact List.prefix_append _ _
  · intro cqe head hpc push hpush hsame
    have hunread : s.unread = waiting := by
      rw [Spsc.unread, hinv.pushed_eq, List.drop_left]
    rw [hunread] at hpush
    obtain ⟨rfl, hroom⟩ : head = s.mem.head ∧ waiting.length + 1 < N.toNat := by
      have hok := hinv.producer_ok
      rwa [hpc] at hok
    have hslot : push.1 ∈ waiting.map Prod.fst := List.mem_map_of_mem hpush
    rw [hinv.slots_eq, RingBuffer.mem_contents] at hslot
    obtain ⟨i, hi, hat⟩ := hslot
    -- the unread bytes are in the slots from `tail` on, and `head` is behind all of them
    refine RingBuffer.add_mod_ne hi (by omega) (hat.trans ?_)
    rw [hsame, hinv.represents.head_eq, List.length_map]

/-- A schedule of the two parties; the producer's turns carry the byte of a new call. -/
def Spsc.run (N : UInt32) (s : Spsc) : List (Option UInt8) → Spsc
  | [] => s
  | some next :: turns => Spsc.run N (producerStep N next s) turns
  | none :: turns => Spsc.run N (consumerStep N s) turns

theorem Spsc.Reachable.run {N : UInt32} {prior : Cq} (turns : List (Option UInt8)) :
    ∀ {s : Spsc}, Spsc.Reachable N prior s → Spsc.Reachable N prior (s.run N turns) := by
  induction turns with
  | nil => intro s hreach; exact hreach
  | cons turn turns ih =>
      intro s hreach
      cases turn with
      | none => exact ih (hreach.tail SpscStep.consumer)
      | some next => exact ih (hreach.tail (SpscStep.producer next))

/-- Three slots: one byte is pushed, the consumer has loaded it and not yet moved `tail`,
and the producer is about to store the next one. -/
theorem spsc_safe_second_push :
    let start := Spsc.start 3 ⟨fun _ => 0, 0, 0, 0⟩
    let s := start.run 3 [some 7, some 7, some 7, some 7, some 7, none, none, none, none,
      some 8, some 8, some 8]
    s.producer = .storeByte 8 1 ∧ s.unread = [(0, 7)] ∧ ∀ push ∈ s.unread, push.1 ≠ 1 :=
  ⟨rfl, rfl, (spsc_safe 3 (by decide) _ _
    (Spsc.Reachable.run _ Relation.ReflTransGen.refl)).2 8 1 rfl⟩

end BaremetalDhcp
