import BaremetalDhcp.Lib.Projection
import BaremetalDhcp.LeaseEquivalence
import BaremetalDhcp.RuntDatagrams
import BaremetalDhcp.FrameExchange

/-!
# The kernel runs the library

The theorems about leases are about runs of `dhcp_process_message_*`.  What is on the wire are
frames, and between the two stand `CKernel::Run` and `CDHCPServer`.  This module closes that
gap for whole runs of the loop: the frames that the kernel receives are a list of messages for
the library, and the frames that it transmits are the library's answers to them.

* `Turn`, `kernelStep` — one turn of the loop as a step of a machine.
* `handover` — the message that a turn hands to the library, if it hands one over, and whether
  an answer to it would be transmitted.
* `kernelStep_of_some` — a turn is a step of the library on the message handed over.

`kernel_refines_library` is the statement for runs; `array_hashmap_kernels_equivalent` carries
the equivalence of the two client-tracking backends over to the wire.
-/

namespace BaremetalDhcp

open Machine

/-! ## Turns -/

/-- What one turn of the loop finds: its surroundings and the buffer that `ReceiveFrame` has
filled. -/
structure Turn where
  env : Surroundings
  frameBuffer : ℕ → UInt8
  nFrameLength : ℕ

/-- One turn of the loop. -/
def kernelStep {P : Type} (adapter : Adapter P) (server : DhcpServer P) (t : Turn) :
    DhcpServer P × Option (List UInt8) :=
  runIteration adapter t.env server t.frameBuffer t.nFrameLength

/-- A message on its way to the library. -/
structure Handover where
  arrival : Arrival
  /-- An answer is transmitted.  `HandleDHCPDecline` has a response buffer of its own, and
  drops it. -/
  answered : Bool
  /-- The source of the transmitted frame. -/
  mac : Bytes 6

/-- What is transmitted when the library answers. -/
def Handover.frame (h : Handover) (response : Option DhcpMessage) : Option (List UInt8) :=
  if h.answered then
    response.map fun msg => responseFrame h.mac (be16 0x800) (msgToHdr msg).1
  else none

instance decidableForServer (frameBuffer : ℕ → UInt8) : Decidable (ForServer frameBuffer) :=
  inferInstanceAs (Decidable (_ ∧ _ ∧ _))

/-- The message that a turn hands to the library. -/
def handover (handlesDecline : Bool) (t : Turn) : Option Handover :=
  if ForServer t.frameBuffer then
    let dhcp := dhcpOf t.frameBuffer
    let requestLen := dhcpRequestLen (udpOf t.frameBuffer)
    let msgType := processDHCPHdr dhcp requestLen t.env.behindMsg
    if msgType = dhcpDiscover then some ⟨arrivalOf t.env dhcp dhcpLen, true, t.env.mac⟩
    else if msgType = dhcpRequest then some ⟨arrivalOf t.env dhcp requestLen, true, t.env.mac⟩
    else if msgType = dhcpDecline ∧ handlesDecline = true then
      some ⟨arrivalOf t.env dhcp dhcpLen, false, t.env.mac⟩
    else none
  else none

section Turns

variable {P : Type} {adapter : Adapter P} {server : DhcpServer P} {t : Turn} {h : Handover}

/-- **A turn is a step of the library**, on the message that is handed over. -/
theorem kernelStep_of_some (hsome : handover adapter.handlesDecline t = some h) :
    kernelStep adapter server t =
      ((processMessage adapter.calls server h.arrival).1,
        h.frame (processMessage adapter.calls server h.arrival).2) := by
  unfold handover at hsome
  split_ifs at hsome with hfor
  rw [kernelStep, runIteration_of_forServer _ _ _ _ hfor]
  simp only [switchOnType, craftDHCPOffer, craftDHCPAck, craftDHCP_eq, handleDHCPDecline]
  dsimp only at hsome
  split_ifs at hsome with hd hr hc
  · obtain rfl := Option.some.inj hsome
    rw [dhcpOf, udpOf] at hd
    rw [if_pos hd, Handover.frame, if_pos rfl, Option.map_map]
    rfl
  · obtain rfl := Option.some.inj hsome
    rw [dhcpOf, udpOf] at hd hr
    rw [if_neg hd, if_pos hr, Handover.frame, if_pos rfl, Option.map_map]
    rfl
  · obtain rfl := Option.some.inj hsome
    rw [dhcpOf, udpOf] at hd hr hc
    rw [if_neg hd, if_neg hr, if_pos hc.1, if_pos hc.2]
    rfl

/-- A turn that hands nothing over changes nothing and transmits nothing. -/
theorem kernelStep_of_none (hnone : handover adapter.handlesDecline t = none) :
    kernelStep adapter server t = (server, none) := by
  unfold handover at hnone
  split_ifs at hnone with hfor
  · rw [kernelStep, runIteration_of_forServer _ _ _ _ hfor]
    simp only [switchOnType, handleDHCPDecline]
    dsimp only at hnone
    split_ifs at hnone with hd hr hc
    rw [dhcpOf, udpOf] at hd hr hc
    rw [if_neg hd, if_neg hr]
    split_ifs with htype hhandles
    · exact absurd ⟨htype, hhandles⟩ hc
    · rfl
    · rfl
  · exact runIteration_of_not_forServer _ _ _ _ hfor

/-- What is handed over carries the transaction of the frame and the time of the adapter. -/
theorem arrival_of_handover {handlesDecline : Bool} (hsome : handover handlesDecline t = some h) :
    h.arrival.request.xid = (dhcpOf t.frameBuffer).xid ∧
      h.arrival.curTime = tsInSec t.env.micros := by
  unfold handover at hsome
  dsimp only at hsome
  split_ifs at hsome
  · obtain rfl := Option.some.inj hsome
    exact ⟨rfl, rfl⟩
  · obtain rfl := Option.some.inj hsome
    exact ⟨rfl, rfl⟩
  · obtain rfl := Option.some.inj hsome
    exact ⟨rfl, rfl⟩

end Turns

/-! ## Runs -/

/-- The messages that a run of the loop hands to the library. -/
def handovers (handlesDecline : Bool) (turns : List Turn) : List Handover :=
  turns.filterMap (handover handlesDecline)

/-- What is transmitted for messages with the given answers. -/
def transmissions (handed : List Handover) (responses : List (Option DhcpMessage)) :
    List (List UInt8) :=
  (handed.zip responses).filterMap fun p => p.1.frame p.2

theorem transmissions_cons (h : Handover) (handed : List Handover) (r : Option DhcpMessage)
    (responses : List (Option DhcpMessage)) :
    transmissions (h :: handed) (r :: responses) =
      (h.frame r).toList ++ transmissions handed responses := by
  unfold transmissions
  rw [List.zip_cons_cons]
  cases hframe : h.frame r with
  | none => exact List.filterMap_cons_none hframe
  | some frame => exact List.filterMap_cons_some hframe

/-- **The kernel refines the library.**  Whatever frames arrive, in whatever surroundings: the
server ends as the library leaves it after the messages that were handed over, and what is
transmitted are the frames of the library's answers to them, in order and nothing else. -/
theorem kernel_refines_library {P : Type} (adapter : Adapter P) (server : DhcpServer P)
    (turns : List Turn) :
    let handed := handovers adapter.handlesDecline turns
    exec (kernelStep adapter) server turns =
        exec (processMessage adapter.calls) server (handed.map Handover.arrival) ∧
      emitted (kernelStep adapter) Option.toList server turns =
        transmissions handed
          (outputs (processMessage adapter.calls) server (handed.map Handover.arrival)) := by
  induction turns generalizing server with
  | nil => exact ⟨rfl, rfl⟩
  | cons t turns ih =>
      cases hover : handover adapter.handlesDecline t with
      | none =>
          have hskip : handovers adapter.handlesDecline (t :: turns) =
              handovers adapter.handlesDecline turns := List.filterMap_cons_none hover
          rw [hskip, exec_cons, emitted_cons, kernelStep_of_none hover]
          exact ih server
      | some h =>
          have hcons : handovers adapter.handlesDecline (t :: turns) =
              h :: handovers adapter.handlesDecline turns := List.filterMap_cons_some hover
          obtain ⟨hserver, hsent⟩ := ih (processMessage adapter.calls server h.arrival).1
          simp only [hcons, List.map_cons, exec_cons, outputs_cons, emitted_cons,
            transmissions_cons, kernelStep_of_some hover]
          exact ⟨hserver, congrArg _ hsent⟩

/-! ## Two kernels on one wire -/

/-- If the turn makes the array clean up, the clean-up meets at most 32 expired leases. -/
def TurnFits {maxLeases : UInt16} (server : DhcpServer (ArrayPool maxLeases)) (t : Turn) : Prop :=
  ∀ h, handover true t = some h → CleanUpFits server h.arrival

/-- One turn of two kernels whose pools implement the same abstract pool. -/
theorem kernelStep_samePool {maxLeases : UInt16} {server : DhcpServer (ArrayPool maxLeases)}
    {server' : DhcpServer HashPool} {t : Turn}
    (hsame : SamePool ArrayPool.Represents HashPool.Represents server server')
    (hfits : TurnFits server t) :
    (kernelStep (arrayAdapter maxLeases) server t).2 = (kernelStep hashmapAdapter server' t).2 ∧
      SamePool ArrayPool.Represents HashPool.Represents
        (kernelStep (arrayAdapter maxLeases) server t).1
        (kernelStep hashmapAdapter server' t).1 := by
  cases hover : handover true t with
  | none =>
      have harray : kernelStep (arrayAdapter maxLeases) server t = (server, none) :=
        kernelStep_of_none hover
      have hhashmap : kernelStep hashmapAdapter server' t = (server', none) :=
        kernelStep_of_none hover
      rw [harray, hhashmap]
      exact ⟨rfl, hsame⟩
  | some h =>
      obtain ⟨hconfig, q, hq, hq'⟩ := hsame
      have hcount : (q.expired h.arrival.curTime).card =
          server.pool.expiredCount h.arrival.curTime :=
        hq.slots.card_filter fun l => l.expireTime ≤ h.arrival.curTime
      obtain ⟨hresponse, hnext⟩ := (arrayOps_refines maxLeases).step_eq hashOps_refines hconfig
        hq hq' (a := h.arrival) fun hsearch hfull => ⟨le_top, by
          rw [hcount]
          exact_mod_cast hfits h hover hsearch (hq.full_iff.mp hfull)⟩
      rw [@kernelStep_of_some _ (arrayAdapter maxLeases) _ _ _ hover,
        @kernelStep_of_some _ hashmapAdapter _ _ _ hover]
      exact ⟨congrArg h.frame hresponse, hnext⟩

/-- **On the wire the two client-tracking backends cannot be told apart.**  Two kernels that
receive the same frames, one built for ARRAY and one for HASHMAP, with no more leases than the hash
table holds, transmit the same frames, byte for byte and turn by turn, as long as no clean-up of the
array meets more than 32 expired leases. -/
theorem array_hashmap_kernels_equivalent (config : DhcpConfig) (maxLeases : UInt16)
    (hmax : maxLeases.toNat ≤ hashN) (leases : Fin maxLeases.toNat → DhcpLease)
    (prior : HashPool) (turns : List Turn)
    (hfits : Along (kernelStep (arrayAdapter maxLeases)) TurnFits
      (dhcpInitServerArray config leases) turns) :
    outputs (kernelStep (arrayAdapter maxLeases)) (dhcpInitServerArray config leases) turns =
      outputs (kernelStep hashmapAdapter) (dhcpInitServerHashmap config prior maxLeases)
        turns := by
  have hinit : SamePool ArrayPool.Represents HashPool.Represents
      (dhcpInitServerArray config leases) (dhcpInitServerHashmap config prior maxLeases) := by
    have hrep := dhcpHashpoolInit_represents prior config.poolStart maxLeases
    rw [min_eq_right hmax] at hrep
    exact ⟨rfl, _, dhcpArraypoolInit_represents _ _, hrep⟩
  have hstep : ∀ (s : DhcpServer (ArrayPool maxLeases)) (s' : DhcpServer HashPool) (t : Turn),
      SamePool ArrayPool.Represents HashPool.Represents s s' → TurnFits s t → _ :=
    fun _ _ _ hsame hturn => kernelStep_samePool hsame hturn
  exact (simulation hstep turns _ _ hinit hfits).1

/-- One address, one slot and leases of ten seconds: the second client is offered the address in
the third turn, because the clean-up drops the expired lease of the first one. -/
theorem array_hashmap_kernels_equivalent_cleanup :
    let config := poolConfig 100 100 10
    let turn (m : BuildMeta) (micros : ℕ) : Turn :=
      ⟨⟨fun _ => 2, micros, fun _ => 0, fun _ => 0⟩, bytesAt m.frameBytes, minSendLen⟩
    let turns : List Turn :=
      [turn ⟨![2, 0, 0, 255, 53, 50], fun _ => 0, fun _ => 0, dhcpDiscover, 7⟩ 0,
        turn ⟨![2, 0, 0, 255, 53, 50], packIP 100, packIP 1, dhcpRequest, 7⟩ 0,
        turn ⟨![2, 0, 0, 255, 53, 51], fun _ => 0, fun _ => 0, dhcpDiscover, 8⟩ 20000000]
    let server : DhcpServer (ArrayPool 1) :=
      dhcpInitServerArray config fun _ => ⟨⟨fun _ => 0, 0, 0⟩, false⟩
    (outputs (kernelStep (arrayAdapter 1)) server turns).map Option.isSome = [true, true, true] ∧
      outputs (kernelStep (arrayAdapter 1)) server turns =
        outputs (kernelStep hashmapAdapter) (dhcpInitServerHashmap config HashPool.zeroed 1)
          turns := by
  intro config turn turns server
  have hfits : ∀ (s : DhcpServer (ArrayPool 1)) (t : Turn), TurnFits s t := by
    intro s t h _ _ _
    have hcount : s.pool.expiredCount h.arrival.curTime ≤ 1 :=
      (Finset.card_le_univ _).trans_eq (Fintype.card_fin _)
    exact hcount.trans (by decide)
  exact ⟨by decide +kernel, array_hashmap_kernels_equivalent config 1 (by decide)
    (fun _ => ⟨⟨fun _ => 0, 0, 0⟩, false⟩) HashPool.zeroed turns (along_of_forall hfits turns _)⟩

end BaremetalDhcp
