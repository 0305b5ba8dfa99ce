import BaremetalDhcp.RuntDatagrams

/-!
# What a turn takes from the bytes that were received

`CKernel::Run` reuses one frame buffer and does not look at the length that `ReceiveFrame`
reports.  Headers, the UDP length and the options are read from fixed offsets, so behind the
received bytes a turn reads those of earlier frames.

* `Decides` — whatever stands behind the received bytes, and whatever the server and the
  surroundings, the turn transmits the same and leaves the same pool.
* `Settles` — the received bytes leave nothing open: one of them keeps the frame from the
  server, or the options that it copies have all arrived, or those that have arrived end the
  two lookups (`SettlesType`, `SettlesAddress`) or leave no room for what is looked up.
* `run_reads_iff` — the two are the same.

For the open cases `completed` puts bytes behind the received ones: once zeros, and once the
option that is still missing.
-/

namespace BaremetalDhcp

open LittleEndian

/-! ## What the received bytes settle -/

/-- None of the received bytes keeps the frame from the server; the others may be right. -/
def HeadersPass (received : List UInt8) : Prop :=
  ∀ e ∈ headerBytes, received.getD e.1 e.2 = e.2

/-- The length field of the UDP header, as long as it can be where it has not arrived. -/
def receivedLength (received : List UInt8) : ℕ :=
  256 * (received.getD 38 0xFF).toNat + (received.getD 39 0xFF).toNat

/-- The lookup of the requested address is settled: there is none, or all of it has arrived,
or there is no room for it. -/
def SettlesAddress (copied : ℕ) : Lookup → Prop
  | .absent => True
  | .found length data => length ≠ 4 ∨ 4 ≤ data.length
  | .unfinished start => ¬ Room copied start 2

/-- The lookup of the message type is settled: there is none, or it has arrived, with the
address if it is that of a REQUEST, or there is no room for it. -/
def SettlesType (copied : ℕ) (address : Lookup) : Lookup → Prop
  | .absent => True
  | .found length [] => length = 0
  | .found length (type :: _) => length = 0 ∨ type ≠ dhcpRequest ∨ SettlesAddress copied address
  | .unfinished start => ¬ Room copied start 3

/-- The option bytes of the received frame. -/
def receivedOptions (received : List UInt8) : List UInt8 := received.drop 282

/-- **The received bytes settle the turn.** -/
def Settles (received : List UInt8) : Prop :=
  HeadersPass received →
    let copied := copiedOptions (receivedLength received)
    let options := receivedOptions received
    copied ≤ options.length ∨
      SettlesType copied (lookup dhcpOptRequestedIp options) (lookup dhcpOptMessageType options)

instance decidableSettlesAddress (copied : ℕ) :
    ∀ l : Lookup, Decidable (SettlesAddress copied l)
  | .absent => inferInstanceAs (Decidable True)
  | .found length data => inferInstanceAs (Decidable (length ≠ 4 ∨ 4 ≤ data.length))
  | .unfinished start => inferInstanceAs (Decidable (¬ Room copied start 2))

instance decidableSettlesType (copied : ℕ) (address : Lookup) :
    ∀ l : Lookup, Decidable (SettlesType copied address l)
  | .absent => inferInstanceAs (Decidable True)
  | .found length [] => inferInstanceAs (Decidable (length = 0))
  | .found length (type :: _) => inferInstanceAs
      (Decidable (length = 0 ∨ type ≠ dhcpRequest ∨ SettlesAddress copied address))
  | .unfinished start => inferInstanceAs (Decidable (¬ Room copied start 3))

instance decidableSettles (received : List UInt8) : Decidable (Settles received) :=
  inferInstanceAs (Decidable ((∀ e ∈ headerBytes, _) → _ ∨ _))

/-- **The received bytes decide the turn.** -/
def Decides (received : List UInt8) : Prop :=
  ∀ (mode : LeaseMode) (env : Surroundings) (server : DhcpServer mode.Pool)
    (frameBuffer frameBuffer' : ℕ → UInt8),
    Holds frameBuffer 0 received → Holds frameBuffer' 0 received →
    (runIteration mode.adapter env server frameBuffer received.length).2 =
        (runIteration mode.adapter env server frameBuffer' received.length).2 ∧
      (runIteration mode.adapter env server frameBuffer received.length).1.pool =
        (runIteration mode.adapter env server frameBuffer' received.length).1.pool

/-- A datagram whose declared payload has arrived is settled. -/
theorem settles_of_payload_received {received : List UInt8}
    (hudp : udpLen ≤ receivedLength received)
    (hall : etherLen + ipv4Len + receivedLength received ≤ received.length) :
    Settles received := by
  refine fun _ => Or.inl ?_
  rw [copiedOptions, if_neg (Nat.not_lt.mpr hudp), receivedOptions, List.length_drop]
  unfold etherLen ipv4Len at hall
  unfold udpLen dhcpFixedLen
  omega

/-! ## Settled bytes decide -/

theorem copiedOptions_le (length : ℕ) : copiedOptions length ≤ 308 := by
  unfold copiedOptions
  split_ifs <;> omega

/-- Two messages with the same options have the same type. -/
theorem dhcpGetMessageType_congr {msg msg' : DhcpMessage} (h : msg.options = msg'.options)
    (behind : ℕ → UInt8) : dhcpGetMessageType msg behind = dhcpGetMessageType msg' behind := by
  have hbytes : msg.optByte behind = msg'.optByte behind := by
    funext i
    rw [DhcpMessage.optByte, DhcpMessage.optByte, h]
  rw [dhcpGetMessageType, dhcpGetMessageType, dhcpGetOption, dhcpGetOption, hbytes]

/-- **Two frames with one type** are handled alike, if the type stands among the bytes copied
from each and a REQUEST gets the same answer. -/
theorem runIteration_eq_of_type {frame frame' : ℕ → UInt8} {env : Surroundings} {type : UInt8}
    (mode : LeaseMode) (server : DhcpServer mode.Pool) (hheaders : HasHeaders frame)
    (hheaders' : HasHeaders frame') (hfixed : SameFixed (dhcpOf frame) (dhcpOf frame'))
    (htype : type ≠ 0)
    (hfound : dhcpGetMessageType (hdrToMsg (dhcpOf frame) (dhcpRequestLen (udpOf frame)))
      env.behindMsg = type)
    (hfound' : dhcpGetMessageType (hdrToMsg (dhcpOf frame') (dhcpRequestLen (udpOf frame')))
      env.behindMsg = type)
    (hplace : ∀ ptr length, typeOptionOf env frame = some (ptr, length) →
      ptr < copiedOptions (lengthField frame))
    (hplace' : ∀ ptr length, typeOptionOf env frame' = some (ptr, length) →
      ptr < copiedOptions (lengthField frame'))
    (hack : type = dhcpRequest →
      craftDHCPAck mode.adapter env server (dhcpOf frame) (dhcpRequestLen (udpOf frame)) =
        craftDHCPAck mode.adapter env server (dhcpOf frame') (dhcpRequestLen (udpOf frame')))
    (n n' : ℕ) :
    runIteration mode.adapter env server frame n =
      runIteration mode.adapter env server frame' n' := by
  obtain ⟨hfor, hmagic⟩ := hasHeaders_iff.mp hheaders
  obtain ⟨hfor', hmagic'⟩ := hasHeaders_iff.mp hheaders'
  have hprocess := processDHCPHdr_of_type hmagic htype hfound
  have hprocess' := processDHCPHdr_of_type hmagic' htype hfound'
  have hreparse := msgType_reparse htype hfound (Or.inr hplace)
  have hreparse' := msgType_reparse htype hfound' (Or.inr hplace')
  have htime : env.micros = env.micros := rfl
  rw [runIteration_of_forServer _ _ _ _ hfor, runIteration_of_forServer _ _ _ _ hfor']
  change switchOnType mode.adapter env server _ (dhcpOf frame) (dhcpRequestLen (udpOf frame)) =
    switchOnType mode.adapter env server _ (dhcpOf frame') (dhcpRequestLen (udpOf frame'))
  simp only [switchOnType, hprocess, hprocess']
  split_ifs with hd hr hc
  · rw [hfixed.craftDHCPOffer htime mode server (hreparse.trans hd) (hreparse'.trans hd)]
  · rw [hack hr]
  · rw [hfixed.handleDHCPDecline htime mode server (hreparse.trans hc) (hreparse'.trans hc)]
  · rfl

section Sufficient

variable {received : List UInt8} {frame frame' : ℕ → UInt8} {env : Surroundings}

/-- A received byte of the frame. -/
theorem getD_of_holds (hold : Holds frame 0 received) {i : ℕ} (hi : i < received.length)
    (d : UInt8) : received.getD i d = frame i := by
  rw [← Nat.zero_add i, hold i hi, Nat.zero_add, List.getD_eq_getElem _ _ hi,
    List.getD_eq_getElem _ _ hi]

/-- A wrong header byte among those received stops the frame. -/
theorem headersPass_of_hasHeaders (hold : Holds frame 0 received) (h : HasHeaders frame) :
    HeadersPass received := by
  intro e he
  by_cases hin : e.1 < received.length
  · rw [getD_of_holds hold hin]
    exact h e he
  · rw [List.getD_eq_default _ _ (Nat.not_lt.mp hin)]

theorem lengthField_of_holds (hold : Holds frame 0 received) (hlen : 40 ≤ received.length) :
    lengthField frame = receivedLength received := by
  rw [lengthField, receivedLength, getD_of_holds hold (by omega), getD_of_holds hold (by omega)]

/-- Settled bytes have the length field among them, unless they stop the frame. -/
theorem le_length_of_settled (h : copiedOptions (receivedLength received) ≤
      (receivedOptions received).length ∨
      SettlesType (copiedOptions (receivedLength received))
        (lookup dhcpOptRequestedIp (receivedOptions received))
        (lookup dhcpOptMessageType (receivedOptions received))) : 40 ≤ received.length := by
  by_contra hshort
  have hnone : receivedOptions received = [] := List.drop_eq_nil_of_le (by omega)
  have hlow : received.getD 39 0xFF = 0xFF := List.getD_eq_default _ _ (by omega)
  have hlong : 3 ≤ copiedOptions (receivedLength received) := by
    have hfield : 255 ≤ receivedLength received := by
      rw [receivedLength, hlow]
      exact Nat.le_add_left _ _
    unfold copiedOptions udpLen dhcpFixedLen
    split_ifs <;> omega
  rw [hnone] at h
  obtain hall | hroom := h
  · rw [List.length_nil] at hall
    omega
  · exact hroom ⟨by omega, fun _ => by omega⟩

/-- The options that are parsed start with those received. -/
theorem holds_receivedOptions (hold : Holds frame 0 received) (behind : ℕ → UInt8)
    (hin : (receivedOptions received).length ≤ copiedOptions (lengthField frame)) :
    Holds ((hdrToMsg (dhcpOf frame) (dhcpRequestLen (udpOf frame))).optByte behind) 0
      (receivedOptions received) := by
  intro i hi
  have hcopied := copiedOptions_le (lengthField frame)
  have hreceived : 282 + i < received.length := by
    rw [receivedOptions, List.length_drop] at hi
    omega
  rw [Nat.zero_add, optByte_parse (by omega), if_pos (by omega), List.getD_eq_getElem _ _ hi,
    ← getD_of_holds hold hreceived 0, List.getD_eq_getElem _ _ hreceived]
  simp [receivedOptions]

/-- The received fixed part. -/
theorem sameFixed_of_holds (hold : Holds frame 0 received) (hold' : Holds frame' 0 received)
    (hlen : 282 ≤ received.length) : SameFixed (dhcpOf frame) (dhcpOf frame') := by
  refine sameFixed_load fun i hi => ?_
  unfold dhcpFixedLen at hi
  have hin : etherLen + ipv4Len + udpLen + i < received.length := by
    unfold etherLen ipv4Len udpLen
    omega
  rw [← getD_of_holds hold hin 0, ← getD_of_holds hold' hin 0]

/-- Without a type the frame asks for nothing. -/
theorem not_asks_of_type_zero
    (h : dhcpGetMessageType (hdrToMsg (dhcpOf frame) (dhcpRequestLen (udpOf frame)))
      env.behindMsg = 0) : ¬ Asks env frame := by
  rintro ⟨-, a, harrival, -⟩
  have hne := type_ne_zero_of_arrival harrival
  exact hne ((processDHCPHdr_ne_zero hne).2.2.symm.trans h)

theorem hasHeaders_of_pass (hold : Holds frame 0 received) (hlen : 282 ≤ received.length)
    (h : HeadersPass received) : HasHeaders frame := by
  intro e he
  have hin : e.1 < received.length := by
    have hlast : ∀ e ∈ headerBytes, e.1 < 282 := by decide
    exact (hlast e he).trans_le hlen
  rw [← getD_of_holds hold hin e.2]
  exact h e he

theorem dhcpRequestLen_congr (h : lengthField frame = lengthField frame') :
    dhcpRequestLen (udpOf frame) = dhcpRequestLen (udpOf frame') := by
  rw [← udpLength_eq, ← udpLength_eq] at h
  rw [dhcpRequestLen, dhcpRequestLen, UInt16.toNat_inj.mp h]

/-- **All options that are copied have arrived**: the two turns are the same. -/
theorem runIteration_eq_of_copied (mode : LeaseMode) (server : DhcpServer mode.Pool)
    (hold : Holds frame 0 received) (hold' : Holds frame' 0 received)
    (hpass : HeadersPass received) (hfield : lengthField frame = receivedLength received)
    (hfield' : lengthField frame' = receivedLength received)
    (hall : copiedOptions (receivedLength received) ≤ (receivedOptions received).length)
    (n : ℕ) : runIteration mode.adapter env server frame n =
      runIteration mode.adapter env server frame' n := by
  have hagree : ∀ i < received.length, frame i = frame' i := by
    intro i hi
    rw [← getD_of_holds hold hi 0, getD_of_holds hold' hi 0]
  by_cases hlong : 590 ≤ received.length
  · exact runIteration_congr _ _ _ _ (fun i hi => hagree i (hi.trans_le hlong)) n
  have hlen : (receivedOptions received).length = received.length - 282 := List.length_drop
  have hcopied : copiedOptions (receivedLength received) < 308 := by omega
  have hsame := dhcpRequestLen_congr (hfield.trans hfield'.symm)
  have hoptions : (hdrToMsg (dhcpOf frame) (dhcpRequestLen (udpOf frame))).options =
      (hdrToMsg (dhcpOf frame') (dhcpRequestLen (udpOf frame'))).options := by
    funext i
    rw [← optByte_of_lt i.isLt fun _ => 0, ← optByte_of_lt i.isLt fun _ => 0,
      optByte_parse i.isLt, optByte_parse i.isLt, hfield, hfield']
    split_ifs with hin
    · exact hagree _ (by omega)
    · rfl
  have htypes := dhcpGetMessageType_congr hoptions env.behindMsg
  by_cases htype : dhcpGetMessageType (hdrToMsg (dhcpOf frame) (dhcpRequestLen (udpOf frame)))
      env.behindMsg = 0
  · rw [runIteration_of_not_asks (not_asks_of_type_zero htype),
      runIteration_of_not_asks (not_asks_of_type_zero (htypes.symm.trans htype))]
  -- the type stands among the copied bytes of both frames
  have hplace : ∀ {f : ℕ → UInt8}, lengthField f = receivedLength received →
      dhcpGetMessageType (hdrToMsg (dhcpOf f) (dhcpRequestLen (udpOf f))) env.behindMsg ≠ 0 →
      ∀ ptr length, typeOptionOf env f = some (ptr, length) →
        ptr < copiedOptions (lengthField f) := by
    intro f hf hne ptr length hget
    obtain ⟨ptr', length', hget', hlen', hbyte⟩ := (dhcpGetMessageType_eq_iff hne).mp rfl
    obtain ⟨rfl, rfl⟩ : ptr = ptr' ∧ length = length' :=
      Prod.mk.injEq .. ▸ Option.some.inj (hget.symm.trans hget')
    exact lt_copied_of_type (fun i hi hi' => optByte_parse_eq_zero hi hi') hget' hlen'
      (hbyte ▸ hne) (hf ▸ hcopied)
  have hlong' : 282 ≤ received.length := by
    obtain ⟨ptr, length, hget, -⟩ := (dhcpGetMessageType_eq_iff htype).mp rfl
    have hlt := hplace hfield htype ptr length hget
    rw [hfield] at hlt
    omega
  have hfixed := sameFixed_of_holds hold hold' hlong'
  refine runIteration_eq_of_type mode server (hasHeaders_of_pass hold hlong' hpass)
    (hasHeaders_of_pass hold' hlong' hpass) hfixed htype rfl htypes.symm (hplace hfield htype)
    (hplace hfield' (htypes ▸ htype)) (fun _ => ?_) n n
  have hmsg : hdrToMsg (dhcpOf frame) (dhcpRequestLen (udpOf frame)) =
      hdrToMsg (dhcpOf frame') (dhcpRequestLen (udpOf frame')) := by
    have hrest := hfixed (dhcpRequestLen (udpOf frame)) (dhcpRequestLen (udpOf frame'))
      (hdrToMsg (dhcpOf frame) (dhcpRequestLen (udpOf frame))).options
    exact hrest.trans (by rw [hoptions])
  rw [craftDHCPAck, craftDHCPAck, craftDHCP, craftDHCP, arrivalOf, arrivalOf, hmsg]

/-- A REQUEST without an address asks for nothing. -/
theorem not_asks_of_no_address
    (htypes : ∀ behind, dhcpGetMessageType (hdrToMsg (dhcpOf frame)
      (dhcpRequestLen (udpOf frame))) behind = dhcpRequest)
    (hnone : optionWord (hdrToMsg (dhcpOf frame) (dhcpRequestLen (udpOf frame))) env.behindReq
      dhcpOptRequestedIp = none) : ¬ Asks env frame := by
  rintro ⟨-, a, harrival, hasks⟩
  have hkind := turnArrival_cases harrival
  have hprocess := (processDHCPHdr_ne_zero (type_ne_zero_of_arrival harrival)).2.2
  rw [htypes] at hprocess
  rcases hkind with ⟨hd | hc, -⟩ | ⟨-, rfl⟩
  · rw [hd] at hprocess
    exact absurd hprocess (by decide)
  · rw [hc] at hprocess
    exact absurd hprocess (by decide)
  · have hr : (arrivalOf env (dhcpOf frame) (dhcpRequestLen (udpOf frame))).msgType =
        dhcpRequest := htypes env.behindReq
    refine hasks ⟨?_, ?_, fun _ => hnone⟩
    · rw [hr]; decide
    · rw [hr]; decide

end Sufficient

/-! ### Lookups that have ended -/

/-- The frame begins with the received bytes, and has their length field. -/
structure Extends (received : List UInt8) (frame : ℕ → UInt8) : Prop where
  holds : Holds frame 0 received
  field : lengthField frame = receivedLength received

section Ended

variable {received : List UInt8} {frame frame' : ℕ → UInt8} {env : Surroundings}
  (h : Extends received frame) (h' : Extends received frame')
  (hshort : (receivedOptions received).length < copiedOptions (receivedLength received))

include hshort in
theorem length_receivedOptions_le : (receivedOptions received).length ≤ 308 :=
  hshort.le.trans (copiedOptions_le _)

include h

include hshort in
/-- The options that are parsed start with those received. -/
theorem Extends.holds_options (behind : ℕ → UInt8) :
    Holds ((hdrToMsg (dhcpOf frame) (dhcpRequestLen (udpOf frame))).optByte behind) 0
      (receivedOptions received) :=
  holds_receivedOptions h.holds behind (h.field ▸ hshort.le)

/-- Behind the bytes that are copied the array is empty. -/
theorem Extends.optByte_eq_zero (behind : ℕ → UInt8) {i : ℕ}
    (hi : copiedOptions (receivedLength received) ≤ i) (hin : i < 308) :
    (hdrToMsg (dhcpOf frame) (dhcpRequestLen (udpOf frame))).optByte behind i = 0 :=
  optByte_parse_eq_zero (h.field ▸ hi) hin

include hshort

/-- A type that has arrived is read, whatever stands behind the array. -/
theorem Extends.msgType_of_found {length type : UInt8} {data : List UInt8}
    (hlookup : lookup dhcpOptMessageType (receivedOptions received) =
      .found length (type :: data)) (hlen : length ≠ 0) (behind : ℕ → UInt8) :
    dhcpGetMessageType (hdrToMsg (dhcpOf frame) (dhcpRequestLen (udpOf frame))) behind = type :=
  dhcpGetMessageType_of_found (h.holds_options hshort behind) (length_receivedOptions_le hshort)
    hlookup hlen

/-- It stands among the bytes that are copied. -/
theorem Extends.place_of_found {length type : UInt8} {data : List UInt8}
    (hlookup : lookup dhcpOptMessageType (receivedOptions received) =
      .found length (type :: data)) :
    ∀ ptr length, typeOptionOf env frame = some (ptr, length) →
      ptr < copiedOptions (lengthField frame) := by
  intro ptr length' hget
  obtain ⟨ptr', hfound, hptr, -⟩ := findFrom_of_found (h.holds_options hshort env.behindMsg)
    (length_receivedOptions_le hshort) hlookup
  obtain ⟨rfl, -⟩ : ptr = ptr' ∧ length' = length :=
    Prod.mk.injEq .. ▸ Option.some.inj (hget.symm.trans hfound)
  rw [List.length_cons] at hptr
  rw [h.field]
  omega

/-- The fixed part of the frame has arrived with it. -/
theorem Extends.le_length_of_found {length type : UInt8} {data : List UInt8}
    (hlookup : lookup dhcpOptMessageType (receivedOptions received) =
      .found length (type :: data)) : 282 ≤ received.length := by
  obtain ⟨ptr, -, hptr, -⟩ := findFrom_of_found (h.holds_options hshort fun _ => 0)
    (length_receivedOptions_le hshort) hlookup
  rw [List.length_cons, receivedOptions, List.length_drop] at hptr
  omega

/-- An END marker, an empty type option, or no room for one: the frame asks for nothing. -/
theorem Extends.not_asks_of_no_type
    (hsettled : match lookup dhcpOptMessageType (receivedOptions received) with
      | .absent => True
      | .found length _ => length = 0
      | .unfinished start => ¬ Room (copiedOptions (receivedLength received)) start 3) :
    ¬ Asks env frame := by
  have hopts := h.holds_options hshort env.behindMsg
  have hfit := length_receivedOptions_le hshort
  refine not_asks_of_type_zero ?_
  cases hlookup : lookup dhcpOptMessageType (receivedOptions received) with
  | absent =>
      rw [dhcpGetMessageType, dhcpGetOption_eq_findFrom, findFrom_of_absent hopts hfit hlookup]
  | found length data =>
      rw [hlookup] at hsettled
      obtain rfl : length = 0 := hsettled
      obtain ⟨ptr, hfound, -⟩ := findFrom_of_found hopts hfit hlookup
      rw [dhcpGetMessageType, dhcpGetOption_eq_findFrom, hfound]
      rfl
  | unfinished start =>
      rw [hlookup] at hsettled
      exact dhcpGetMessageType_of_no_room _ start (fun _ => h.optByte_eq_zero env.behindMsg)
        (fun found hfound => exists_start_of_unfinished hopts hfit hlookup hfound) hsettled

/-- A REQUEST without an option of four bytes for its address, and without room for one, asks for
nothing. -/
theorem Extends.not_asks_of_no_address
    (htypes : ∀ behind, dhcpGetMessageType (hdrToMsg (dhcpOf frame)
      (dhcpRequestLen (udpOf frame))) behind = dhcpRequest)
    (hsettled : match lookup dhcpOptRequestedIp (receivedOptions received) with
      | .absent => True
      | .found length _ => length ≠ 4
      | .unfinished start => ¬ Room (copiedOptions (receivedLength received)) start 2) :
    ¬ Asks env frame := by
  have hopts := h.holds_options hshort env.behindReq
  have hfit := length_receivedOptions_le hshort
  refine BaremetalDhcp.not_asks_of_no_address htypes ?_
  cases hlookup : lookup dhcpOptRequestedIp (receivedOptions received) with
  | absent => exact optionWord_of_absent hopts hfit hlookup
  | found length data =>
      rw [hlookup] at hsettled
      obtain ⟨ptr, -, -, hword⟩ := optionWord_of_found hopts hfit hlookup
      exact hword.trans (if_neg hsettled)
  | unfinished start =>
      rw [hlookup] at hsettled
      exact optionWord_of_no_room _ start (by decide)
        (fun _ => h.optByte_eq_zero env.behindReq)
        (fun found hfound => exists_start_of_unfinished hopts hfit hlookup hfound) hsettled

/-- An address of which four bytes have arrived is read. -/
theorem Extends.requestedIp_of_found {data : List UInt8}
    (hlookup : lookup dhcpOptRequestedIp (receivedOptions received) = .found 4 data)
    (harrived : 4 ≤ data.length) :
    (arrivalOf env (dhcpOf frame) (dhcpRequestLen (udpOf frame))).requestedIp =
      some (ipToUint32 (data.getD 0 0) (data.getD 1 0) (data.getD 2 0) (data.getD 3 0)) := by
  obtain ⟨ptr, -, hdata, hword⟩ := optionWord_of_found (h.holds_options hshort env.behindReq)
    (length_receivedOptions_le hshort) hlookup
  rw [if_pos rfl, ← Nat.add_zero ptr, Nat.add_assoc ptr 0 1, Nat.add_assoc ptr 0 2,
    Nat.add_assoc ptr 0 3, hdata 0 (by omega), hdata (0 + 1) (by omega),
    hdata (0 + 2) (by omega), hdata (0 + 3) (by omega)] at hword
  exact hword

include h'

/-- **The type has arrived**, and a REQUEST gets the same answer. -/
theorem runIteration_eq_of_found (mode : LeaseMode) (server : DhcpServer mode.Pool)
    (hpass : HeadersPass received) {length type : UInt8} {data : List UInt8}
    (hlookup : lookup dhcpOptMessageType (receivedOptions received) =
      .found length (type :: data)) (hlen : length ≠ 0) (htype : type ≠ 0)
    (hack : type = dhcpRequest →
      craftDHCPAck mode.adapter env server (dhcpOf frame) (dhcpRequestLen (udpOf frame)) =
        craftDHCPAck mode.adapter env server (dhcpOf frame') (dhcpRequestLen (udpOf frame')))
    (n : ℕ) : runIteration mode.adapter env server frame n =
      runIteration mode.adapter env server frame' n := by
  have hlong := h.le_length_of_found hshort hlookup
  exact runIteration_eq_of_type mode server (hasHeaders_of_pass h.holds hlong hpass)
    (hasHeaders_of_pass h'.holds hlong hpass) (sameFixed_of_holds h.holds h'.holds hlong) htype
    (h.msgType_of_found hshort hlookup hlen _) (h'.msgType_of_found hshort hlookup hlen _)
    (h.place_of_found hshort hlookup) (h'.place_of_found hshort hlookup) hack n n

/-- **The options that have arrived end the lookups**, or leave no room: the two turns are the
same. -/
theorem runIteration_eq_of_settlesType (mode : LeaseMode) (server : DhcpServer mode.Pool)
    (hpass : HeadersPass received)
    (hsettles : SettlesType (copiedOptions (receivedLength received))
      (lookup dhcpOptRequestedIp (receivedOptions received))
      (lookup dhcpOptMessageType (receivedOptions received)))
    (n : ℕ) : runIteration mode.adapter env server frame n =
      runIteration mode.adapter env server frame' n := by
  have hidle : (∀ f, Extends received f → ¬ Asks env f) →
      runIteration mode.adapter env server frame n =
        runIteration mode.adapter env server frame' n := by
    intro hnot
    rw [runIteration_of_not_asks (hnot _ h), runIteration_of_not_asks (hnot _ h')]
  unfold SettlesType at hsettles
  split at hsettles
  · next hlookup =>
      exact hidle fun f hf => hf.not_asks_of_no_type hshort (by rw [hlookup]; trivial)
  · next length hlookup =>
      exact hidle fun f hf => hf.not_asks_of_no_type hshort (by rw [hlookup]; exact hsettles)
  · next length type data hlookup =>
      by_cases hlen : length = 0
      · exact hidle fun f hf => hf.not_asks_of_no_type hshort (by rw [hlookup]; exact hlen)
      by_cases htype : type = 0
      · exact hidle fun f hf => not_asks_of_type_zero
          ((hf.msgType_of_found hshort hlookup hlen _).trans htype)
      by_cases hr : type = dhcpRequest
      swap
      · exact runIteration_eq_of_found h h' hshort mode server hpass hlookup hlen htype
          (fun hrequest => absurd hrequest hr) n
      subst hr
      have htypes : ∀ {f}, Extends received f → ∀ behind, dhcpGetMessageType
          (hdrToMsg (dhcpOf f) (dhcpRequestLen (udpOf f))) behind = dhcpRequest :=
        fun hf => hf.msgType_of_found hshort hlookup hlen
      have haddress := (hsettles.resolve_left hlen).resolve_left (not_not.mpr rfl)
      unfold SettlesAddress at haddress
      split at haddress
      · next hlookup' =>
          exact hidle fun f hf => hf.not_asks_of_no_address hshort (htypes hf)
            (by rw [hlookup']; trivial)
      · next length' data' hlookup' =>
          by_cases hfour : length' = 4
          · -- the four bytes of the address have arrived
            subst hfour
            have harrived := haddress.resolve_left (not_not.mpr rfl)
            have hfixed := sameFixed_of_holds h.holds h'.holds
              (h.le_length_of_found hshort hlookup)
            exact runIteration_eq_of_found h h' hshort mode server hpass hlookup hlen htype
              (fun _ => hfixed.craftDHCPAck _ _ rfl mode server (htypes h env.behindReq)
                (h.requestedIp_of_found hshort hlookup' harrived) (htypes h' env.behindReq)
                (h'.requestedIp_of_found hshort hlookup' harrived)) n
          · exact hidle fun f hf => hf.not_asks_of_no_address hshort (htypes hf)
              (by rw [hlookup']; exact hfour)
      · next start hlookup' =>
          exact hidle fun f hf => hf.not_asks_of_no_address hshort (htypes hf)
            (by rw [hlookup']; exact haddress)
  · next start hlookup =>
      exact hidle fun f hf => hf.not_asks_of_no_type hshort (by rw [hlookup]; exact hsettles)

end Ended

section Decided

variable {received : List UInt8}

/-- **Settled bytes decide the turn.** -/
theorem decides_of_settles (h : Settles received) : Decides received := by
  intro mode env server frame frame' hold hold'
  suffices hsame : runIteration mode.adapter env server frame received.length =
      runIteration mode.adapter env server frame' received.length by
    rw [hsame]
    exact ⟨rfl, rfl⟩
  by_cases hpass : HeadersPass received
  · have hsettled := h hpass
    have hlen := le_length_of_settled hsettled
    have hfield := lengthField_of_holds hold hlen
    have hfield' := lengthField_of_holds hold' hlen
    obtain hall | hshort := Nat.lt_or_ge (receivedOptions received).length
      (copiedOptions (receivedLength received)) |>.symm
    · exact runIteration_eq_of_copied mode server hold hold' hpass hfield hfield' hall _
    · exact runIteration_eq_of_settlesType ⟨hold, hfield⟩ ⟨hold', hfield'⟩ hshort mode server hpass
        (hsettled.resolve_left (Nat.not_le.mpr hshort)) _
  · have hnot : ∀ f : ℕ → UInt8, Holds f 0 received → ¬ Asks env f := fun f hf hasks =>
      hpass (headersPass_of_hasHeaders hf (makesRequest_of_asks hasks).1)
    rw [runIteration_of_not_asks (hnot _ hold), runIteration_of_not_asks (hnot _ hold')]

end Decided

/-! ## Open bytes do not decide -/

/-- What stands at an offset before the options in a frame for the server. -/
def headerDefault (i : ℕ) : UInt8 :=
  if i = 38 ∨ i = 39 then 0xFF else (headerBytes.lookup i).getD 0

/-- The received bytes, completed to a frame for the server: `fill` gives the options that have
not arrived. -/
def completed (received : List UInt8) (fill : ℕ → UInt8) (i : ℕ) : UInt8 :=
  if i < received.length then received.getD i 0
  else if i < 282 then headerDefault i
  else fill (i - 282)

/-- The message that is parsed from it. -/
abbrev completedMsg (received : List UInt8) (fill : ℕ → UInt8) : DhcpMessage :=
  hdrToMsg (dhcpOf (completed received fill)) (dhcpRequestLen (udpOf (completed received fill)))

/-- The message that a REQUEST hands to the library. -/
abbrev completedArrival (env : Surroundings) (received : List UInt8) (fill : ℕ → UInt8) : Arrival :=
  arrivalOf env (dhcpOf (completed received fill))
    (dhcpRequestLen (udpOf (completed received fill)))

/-- The option from an index on: zeros, its code, and then one byte over and over, which is its
length and all of its data. -/
def optionFrom (option byte : UInt8) (start i : ℕ) : UInt8 :=
  if i < start then 0 else if i = start then option else byte

/-- Surroundings in which the option array goes on with `fill`. -/
def filled (fill : ℕ → UInt8) : Surroundings where
  mac := fun _ => 0
  micros := 0
  behindMsg := fun k => fill (308 + k)
  behindReq := fun k => fill (308 + k)

section Necessary

variable {received : List UInt8} {fill : ℕ → UInt8}

theorem holds_completed : Holds (completed received fill) 0 received := by
  intro i hi
  rw [Nat.zero_add, completed, if_pos hi]

theorem hasHeaders_completed (h : HeadersPass received) :
    HasHeaders (completed received fill) := by
  intro e he
  have hplace : ∀ e ∈ headerBytes, e.1 < 282 ∧ headerDefault e.1 = e.2 := by decide
  obtain ⟨hlt, hdefault⟩ := hplace e he
  have hpass := h e he
  by_cases hin : e.1 < received.length
  · rw [completed, if_pos hin, ← hpass, List.getD_eq_getElem _ _ hin, List.getD_eq_getElem _ _ hin]
  · rw [completed, if_neg hin, if_pos hlt, hdefault]

theorem lengthField_completed :
    lengthField (completed received fill) = receivedLength received := by
  have hbyte : ∀ i, i = 38 ∨ i = 39 → completed received fill i = received.getD i 0xFF := by
    intro i hi
    by_cases hin : i < received.length
    · rw [completed, if_pos hin, List.getD_eq_getElem _ _ hin, List.getD_eq_getElem _ _ hin]
    · rw [completed, if_neg hin, if_pos (by omega), headerDefault, if_pos hi,
        List.getD_eq_default _ _ (Nat.not_lt.mp hin)]
  rw [lengthField, receivedLength, hbyte 38 (Or.inl rfl), hbyte 39 (Or.inr rfl)]

/-- The option bytes that are parsed, behind those received. -/
theorem optByte_completed (behind : ℕ → UInt8) {i : ℕ}
    (hi : (receivedOptions received).length ≤ i)
    (hin : i < copiedOptions (receivedLength received)) :
    (completedMsg received fill).optByte behind i = fill i := by
  have harray := hin.trans_le (copiedOptions_le _)
  have hout : ¬ 282 + i < received.length := by
    rw [receivedOptions, List.length_drop] at hi
    omega
  rw [optByte_parse harray, lengthField_completed, if_pos hin, completed, if_neg hout,
    if_neg (by omega), Nat.add_sub_cancel_left]

/-- In the surroundings made for it, the same bytes stand behind the array. -/
theorem optByte_filled {i : ℕ} (hi : (receivedOptions received).length ≤ i)
    (hin : i < copiedOptions (receivedLength received) ∨ 308 ≤ i) :
    (completedMsg received fill).optByte (filled fill).behindMsg i =
        fill i := by
  by_cases harray : i < 308
  · exact optByte_completed _ hi (hin.resolve_right (Nat.not_le.mpr harray))
  · rw [DhcpMessage.optByte, dif_neg harray]
    change fill (308 + (i - 308)) = fill i
    rw [Nat.add_sub_cancel' (Nat.not_lt.mp harray)]

/-- Completed with zeros, the frame has no options but those received. -/
theorem optByte_zeros (behind : ℕ → UInt8) {i : ℕ}
    (hi : (receivedOptions received).length ≤ i) (hin : i < 308) :
    (completedMsg received fun _ => 0).optByte behind i = 0 := by
  rw [optByte_parse hin]
  split_ifs
  · rw [completed, if_neg (by rw [receivedOptions, List.length_drop] at hi; omega),
      if_neg (by omega)]
  · rfl

theorem holds_completedOptions (fill behind : ℕ → UInt8)
    (hshort : (receivedOptions received).length < copiedOptions (receivedLength received)) :
    Holds ((completedMsg received fill).optByte behind) 0
        (receivedOptions received) :=
  holds_receivedOptions holds_completed behind (by rw [lengthField_completed]; exact hshort.le)

/-- Bytes behind which one frame asks and another does not decide nothing. -/
theorem not_decides_of_asks {env : Surroundings} {frame frame' : ℕ → UInt8}
    (hold : Holds frame 0 received) (hold' : Holds frame' 0 received) (hasks : Asks env frame)
    (hnot : ¬ Asks env frame') : ¬ Decides received := by
  intro hdecides
  obtain ⟨mode, server, hacts⟩ := exists_acts_of_asks hasks received.length
  obtain ⟨hreply, hpool⟩ := hdecides mode env server frame frame' hold hold'
  unfold Acts at hacts
  rw [hreply, hpool, runIteration_of_not_asks hnot] at hacts
  exact hacts.elim (fun h => h rfl) fun h => h rfl

end Necessary

/-! ### The three open cases -/

section Open

variable {received : List UInt8} {option : UInt8} {start size : ℕ}

/-- **An option that fits is found**, in the frame and the surroundings made for it. -/
theorem findFrom_optionFrom (byte : UInt8) (hend : option ≠ dhcpOptEnd)
    (hshort : (receivedOptions received).length < copiedOptions (receivedLength received))
    (hlookup : lookup option (receivedOptions received) = .unfinished start)
    (hroom : Room (copiedOptions (receivedLength received)) start size) (hsize : 2 ≤ size) :
    let fill := optionFrom option byte start
    let mem := (completedMsg received fill).optByte (filled fill).behindMsg
    findFrom mem option 0 = some (start + 2, byte) ∧
      ∀ j, 1 ≤ j → j < size → mem (start + j) = byte := by
  intro fill mem
  have hcopied := copiedOptions_le (receivedLength received)
  have hfit : (receivedOptions received).length ≤ 308 := by omega
  -- a start among the received bytes is the last of them
  have hpast : (receivedOptions received).length ≤ start + 1 := by
    by_contra hlt
    have hstart := start_of_cut hfit hlookup (by omega)
    omega
  have hbytes : ∀ j, 1 ≤ j → j < size → mem (start + j) = byte := by
    intro j hj hlt
    have hparsed : start + j < copiedOptions (receivedLength received) ∨ 308 ≤ start + j := by
      by_cases hall : copiedOptions (receivedLength received) < 308
      · have hends := hroom.2 hall
        omega
      · omega
    rw [show mem (start + j) = fill (start + j) from optByte_filled (by omega) hparsed]
    exact (if_neg (by omega)).trans (if_neg (by omega))
  refine ⟨?_, hbytes⟩
  have hfound := findFrom_of_completed hend (holds_completedOptions fill _ hshort :
      Holds mem 0 _) hfit hlookup (hroom.1.trans_le hcopied) (fun i hi hlt => ?_) (fun hle => ?_)
  · rw [← hbytes 1 le_rfl hsize]
    exact hfound
  · rw [optByte_filled hi (Or.inl (hlt.trans hroom.1))]
    exact if_pos hlt
  · rw [optByte_filled hle (Or.inl hroom.1)]
    exact (if_neg (lt_irrefl _)).trans (if_pos rfl)

/-- **The type has not arrived**, and there is room for it: the frame may be a DISCOVER. -/
theorem not_decides_of_open_type (hpass : HeadersPass received)
    (hshort : (receivedOptions received).length < copiedOptions (receivedLength received))
    (hlookup : lookup dhcpOptMessageType (receivedOptions received) = .unfinished start)
    (hroom : Room (copiedOptions (receivedLength received)) start 3) : ¬ Decides received := by
  have hfit := hshort.trans_le (copiedOptions_le _)
  obtain ⟨hfound, hbytes⟩ := findFrom_optionFrom dhcpDiscover (by decide) hshort hlookup hroom
    (by decide)
  set fill := optionFrom dhcpOptMessageType dhcpDiscover start
  have hdiscover : dhcpGetMessageType (completedMsg received fill) (filled fill).behindMsg =
      dhcpDiscover :=
    (dhcpGetMessageType_eq_iff (by decide)).mpr
      ⟨start + 2, dhcpDiscover, hfound, by decide, hbytes 2 (by decide) (by decide)⟩
  have hnone : dhcpGetMessageType (completedMsg received fun _ => 0) (filled fill).behindMsg = 0 :=
    dhcpGetMessageType_of_no_room _ start (fun _ => optByte_zeros _)
      (fun found hget => exists_start_of_unfinished (holds_completedOptions _ _ hshort) hfit.le
        hlookup hget) (not_room_of_unfinished (by decide) hfit hlookup)
  exact not_decides_of_asks holds_completed holds_completed
    (asks_of_type (hasHeaders_completed hpass) rfl hdiscover (Or.inl rfl))
    (not_asks_of_type_zero hnone)

/-- **The length of the type option has arrived, the type has not.** -/
theorem not_decides_of_cut_type {length : UInt8} (hpass : HeadersPass received)
    (hshort : (receivedOptions received).length < copiedOptions (receivedLength received))
    (hlookup : lookup dhcpOptMessageType (receivedOptions received) = .found length [])
    (hlen : length ≠ 0) : ¬ Decides received := by
  have hfit := hshort.trans_le (copiedOptions_le _)
  -- the type is the next byte
  have htypes : ∀ (type : UInt8) (behind : ℕ → UInt8),
      dhcpGetMessageType (completedMsg received fun _ => type) behind = type := by
    intro type behind
    obtain ⟨ptr, hfound, hptr, -⟩ :=
      findFrom_of_found (holds_completedOptions (fun _ => type) behind hshort) hfit.le hlookup
    obtain rfl : ptr = (receivedOptions received).length := hptr
    rw [dhcpGetMessageType, dhcpGetOption_eq_findFrom, hfound]
    exact (if_pos (one_le_of_ne_zero hlen)).trans (optByte_completed _ le_rfl hshort)
  have hasks : Asks (filled fun _ => 0) (completed received fun _ => dhcpDiscover) :=
    asks_of_type (hasHeaders_completed hpass) rfl (htypes dhcpDiscover _) (Or.inl rfl)
  exact not_decides_of_asks holds_completed holds_completed hasks
    (not_asks_of_type_zero (htypes 0 _))

section Request

variable {length : UInt8} {data : List UInt8}
  (hpass : HeadersPass received)
  (hshort : (receivedOptions received).length < copiedOptions (receivedLength received))
  (htype : lookup dhcpOptMessageType (receivedOptions received) =
    .found length (dhcpRequest :: data))
  (hlen : length ≠ 0)

include hshort htype hlen

/-- Every completion is a REQUEST. -/
theorem completed_request (fill behind : ℕ → UInt8) :
    dhcpGetMessageType (completedMsg received fill) behind = dhcpRequest :=
  dhcpGetMessageType_of_found (holds_completedOptions _ behind hshort)
    (hshort.trans_le (copiedOptions_le _)).le htype hlen

include hpass

theorem turnArrival_completed (env : Surroundings) (fill : ℕ → UInt8) :
    turnArrival env (dhcpOf (completed received fill))
        (dhcpRequestLen (udpOf (completed received fill))) =
      some (completedArrival env received fill) := by
  have hprocess := processDHCPHdr_of_type (hasHeaders_iff.mp (hasHeaders_completed hpass)).2
    (by decide) (completed_request hshort htype hlen fill env.behindMsg)
  simp only [turnArrival, hprocess]
  rfl

/-- **The address of a REQUEST has not arrived**, and there is room for it. -/
theorem not_decides_of_open_address
    (hlookup : lookup dhcpOptRequestedIp (receivedOptions received) = .unfinished start)
    (hroom : Room (copiedOptions (receivedLength received)) start 2) : ¬ Decides received := by
  have hfit := hshort.trans_le (copiedOptions_le _)
  have hrequest := completed_request hshort htype hlen
  obtain ⟨hfound, -⟩ := findFrom_optionFrom 4 (by decide) hshort hlookup hroom le_rfl
  set fill := optionFrom dhcpOptRequestedIp 4 start
  have haddress : optionWord (completedMsg received fill) (filled fill).behindReq
      dhcpOptRequestedIp ≠ none := by
    have hget : dhcpGetOption (completedMsg received fill) (filled fill).behindReq
        dhcpOptRequestedIp = some (start + 2, 4) := hfound
    rw [optionWord, hget]
    exact Option.some_ne_none _
  have hnone : optionWord (completedMsg received fun _ => 0) (filled fill).behindReq
      dhcpOptRequestedIp = none :=
    optionWord_of_no_room _ start (by decide) (fun _ => optByte_zeros _)
      (fun found hget => exists_start_of_unfinished (holds_completedOptions _ _ hshort) hfit.le
        hlookup hget) (not_room_of_unfinished le_rfl hfit hlookup)
  exact not_decides_of_asks holds_completed holds_completed
    (asks_of_type (hasHeaders_completed hpass) rfl (hrequest _ _)
      (Or.inr (Or.inr ⟨rfl, haddress⟩)))
    (not_asks_of_no_address (hrequest _) hnone)

omit hpass htype hlen in
/-- Two completions of an address that differ in its next byte name two addresses. -/
theorem requestedIp_completed (env : Surroundings) (fill fill' : ℕ → UInt8) {data' : List UInt8}
    (hlookup : lookup dhcpOptRequestedIp (receivedOptions received) = .found 4 data')
    (hcut : data'.length < 4)
    (hne : fill (receivedOptions received).length ≠ fill' (receivedOptions received).length) :
    ∃ ip ip', ip ≠ ip' ∧ (completedArrival env received fill).requestedIp = some ip ∧
      (completedArrival env received fill').requestedIp = some ip' := by
  have hfit := (hshort.trans_le (copiedOptions_le _)).le
  obtain ⟨ptr, hptr, -, hword⟩ :=
    optionWord_of_found (holds_completedOptions fill env.behindReq hshort) hfit hlookup
  obtain ⟨ptr', hptr', -, hword'⟩ :=
    optionWord_of_found (holds_completedOptions fill' env.behindReq hshort) hfit hlookup
  obtain rfl : ptr = ptr' := by omega
  refine ⟨_, _, fun hsame => hne ?_, hword, hword'⟩
  have hlists := congrArg uint32ToIp hsame
  rw [uint32ToIp_ipToUint32, uint32ToIp_ipToUint32] at hlists
  simp only [List.cons.injEq, and_true] at hlists
  obtain ⟨h0, h1, h2, h3⟩ := hlists
  have hbytes : ∀ j < 4, (completedMsg received fill).optByte env.behindReq (ptr + j) =
      (completedMsg received fill').optByte env.behindReq (ptr + j) := by
    intro j hj
    interval_cases j
    · exact h0
    · exact h1
    · exact h2
    · exact h3
  have hnext := hbytes _ hcut
  rw [hptr, optByte_completed _ le_rfl hshort, optByte_completed _ le_rfl hshort] at hnext
  exact hnext

/-- **The address of a REQUEST has arrived in part**: it may be that of the only address in the
pool, and it may be another. -/
theorem not_decides_of_cut_address {data' : List UInt8}
    (hlookup : lookup dhcpOptRequestedIp (receivedOptions received) = .found 4 data')
    (hcut : data'.length < 4) : ¬ Decides received := by
  intro hdecides
  have hrequest := completed_request hshort htype hlen
  have hfor : ∀ fill : ℕ → UInt8, ForServer (completed received fill) :=
    fun fill => (hasHeaders_iff.mp (hasHeaders_completed hpass)).1
  have harrival := turnArrival_completed hpass hshort htype hlen (filled fun _ => 0)
  obtain ⟨ip, ip', hne, hip, hip'⟩ := requestedIp_completed hshort (filled fun _ => 0)
    (fun _ => 0) (fun _ => 1) hlookup hcut (by decide)
  set a := completedArrival (filled fun _ => 0) received fun _ => 0
  set a' := completedArrival (filled fun _ => 0) received fun _ => 1
  -- the server has the one address, and a lease to clean up
  let server : DhcpServer (ArrayPool 1) :=
    ⟨poolConfig ip ip (1 - a.curTime), (expiredServer a).pool⟩
  obtain ⟨-, hpool⟩ := hdecides (.array 1) (filled fun _ => 0) server
    (completed received fun _ => 0) (completed received fun _ => 1) holds_completed holds_completed
  have hturn := runIteration_array_pool server (hfor fun _ => 0) (harrival fun _ => 0)
    received.length
  have hturn' := runIteration_array_pool server (hfor fun _ => 1) (harrival fun _ => 1)
    received.length
  have htype : a.msgType = dhcpRequest := hrequest _ _
  have htype' : a'.msgType = dhcpRequest := hrequest _ _
  rw [processMessage_request htype hip] at hturn
  rw [processMessage_request htype' hip',
    LeaseOps.calls_request_of_not_inPool _ fun hin =>
      hne (UInt32.le_antisymm hin.1 hin.2)] at hturn'
  refine expiredServer_request_ne server.config ⟨UInt32.le_refl ip, UInt32.le_refl ip⟩ rfl ?_
  have hchanged := congrArg DhcpServer.pool hturn
  have hkept := congrArg DhcpServer.pool hturn'
  exact hchanged.symm.trans (hpool.trans hkept)

end Request

end Open

/-- **Bytes that decide the turn settle it.** -/
theorem settles_of_decides {received : List UInt8} (h : Decides received) : Settles received := by
  intro hpass copied options
  by_contra hopen
  rw [not_or, Nat.not_le] at hopen
  obtain ⟨hshort, hopen⟩ := hopen
  refine hopen ?_
  unfold SettlesType
  split
  · trivial
  · next length hlookup =>
      by_contra hlen
      exact not_decides_of_cut_type hpass hshort hlookup hlen h
  · next length type data hlookup =>
      by_contra hnot
      rw [not_or, not_or, not_not] at hnot
      obtain ⟨hlen, rfl, haddress⟩ := hnot
      refine haddress ?_
      unfold SettlesAddress
      split
      · trivial
      · next length' data' hlookup' =>
          by_contra hcut
          rw [not_or, not_not, Nat.not_le] at hcut
          obtain ⟨rfl, hcut⟩ := hcut
          exact not_decides_of_cut_address hpass hshort hlookup hlen hlookup' hcut h
      · next start hlookup' =>
          exact fun hroom =>
            not_decides_of_open_address hpass hshort hlookup hlen hlookup' hroom h
  · next start hlookup =>
      exact fun hroom => not_decides_of_open_type hpass hshort hlookup hroom h

/-- **When the answer depends on received bytes only.**  The stale bytes behind the received ones
never matter, for no backend, no state of the server and no surroundings, exactly when the
received bytes settle the turn: one of them keeps the frame from the server; or all options have
arrived that the length field of the UDP header lets in; or those that have arrived end the
lookup of the type, and for a REQUEST that of the address, or leave no room for what is looked
up.  The number of received bytes is not looked at, so a frame that is cut off earlier is
completed with the bytes of an earlier one. -/
theorem run_reads_iff (received : List UInt8) : Decides received ↔ Settles received :=
  ⟨settles_of_decides, decides_of_settles⟩

/-! ## A frame whose last byte decides -/

/-- An option of the given size that the server skips. -/
def clientId (size : ℕ) (h : size < 256) : OptionRecord where
  code := 61
  data := List.replicate size 0
  code_ne_pad := by decide
  code_ne_end := by decide
  length_lt := by simpa using h

/-- The options before the message type: the requested address, and what fills the array up
to its last three bytes. -/
def earlyOptions : List OptionRecord :=
  [wordOption dhcpOptRequestedIp dhcpOptRequestedIp_ne_pad dhcpOptRequestedIp_ne_end 0,
    clientId 255 (by decide), clientId 40 (by decide)]

/-- The options of a datagram with the message type in the last three bytes of the array. -/
def lateOptions (type : UInt8) : List OptionRecord := earlyOptions ++ [typeOption type]

/-- Everything of the frame but the message type itself. -/
def lateHeaders : List UInt8 :=
  let eth : EthernetHdr :=
    { dstMAC := fun _ => 0xFF, srcMAC := fun _ => 0, etherType := be16 0x800 }
  let ipv4 : IPv4Hdr :=
    { versionIhl := 0x45, tos := 0, totalLen := be16 576, ident := 0, flags := 0, ttl := 64,
      protocol := 17, checksum := 0, srcIP := fun _ => 0, dstIP := fun _ => 0xFF }
  let udp : UDPHdr :=
    { srcPort := be16 68, dstPort := be16 67, totalLen := be16 556, checksum := 0 }
  eth.bytes ++ (ipv4.bytes ++ (udp.bytes ++ (List.replicate 236 0 ++
    bytes32 (be32 dhcpMagicCookie))))

/-- A datagram of 590 bytes whose last byte is its message type. -/
def lateFrame (type : UInt8) : List UInt8 := lateHeaders ++ encodeAll (lateOptions type)

theorem length_encodeAll_earlyOptions : (encodeAll earlyOptions).length = 305 := by
  simp only [earlyOptions, encodeAll_cons, encodeAll_nil, List.length_append,
    OptionRecord.length_encode, wordOption, clientId, length_uint32ToIp, List.length_replicate,
    List.length_nil]

theorem length_encodeAll_lateOptions (type : UInt8) :
    (encodeAll (lateOptions type)).length = 308 := by
  rw [lateOptions, encodeAll_append, List.length_append, length_encodeAll_earlyOptions]
  rfl

theorem length_lateHeaders : lateHeaders.length = 282 := by
  simp only [lateHeaders, List.length_append, EthernetHdr.length_bytes, IPv4Hdr.length_bytes,
    UDPHdr.length_bytes, List.length_replicate, length_bytes32]
  rfl

/-- Two of these frames differ in their last byte only. -/
theorem lateFrame_agree (type type' : UInt8) {i : ℕ} (hi : i < 589) :
    bytesAt (lateFrame type) i = bytesAt (lateFrame type') i := by
  have hsplit : ∀ type, lateFrame type =
      (lateHeaders ++ (encodeAll earlyOptions ++ [dhcpOptMessageType, 1])) ++ [type] := by
    intro type
    rw [lateFrame, lateOptions, encodeAll_append, List.append_assoc, List.append_assoc]
    rfl
  have hlen : i < (lateHeaders ++ (encodeAll earlyOptions ++ [dhcpOptMessageType, 1])).length := by
    rw [List.length_append, List.length_append, length_lateHeaders,
      length_encodeAll_earlyOptions]
    exact hi
  rw [bytesAt, bytesAt, hsplit type, hsplit type', List.getD_append _ _ _ _ hlen,
    List.getD_append _ _ _ _ hlen]

/-- The parts of the frame, at the offsets the kernel reads. -/
theorem lateFrame_spec {mem : ℕ → UInt8} {type : UInt8} (h : Holds mem 0 (lateFrame type)) :
    ForServer mem ∧ dhcpRequestLen (UDPHdr.load mem (etherLen + ipv4Len)) = 548 ∧
      be32 (DhcpHdr.load mem (etherLen + ipv4Len + udpLen)).magic = dhcpMagicCookie ∧
      Holds mem (etherLen + ipv4Len + udpLen + dhcpFixedLen) (encodeAll (lateOptions type)) := by
  rw [lateFrame, holds_append, length_lateHeaders] at h
  obtain ⟨hheaders, hoptions⟩ := h
  simp only [lateHeaders, holds_append, EthernetHdr.length_bytes, IPv4Hdr.length_bytes,
    UDPHdr.length_bytes, List.length_replicate, Nat.zero_add] at hheaders
  obtain ⟨heth, hip, hudp, -, hmagic⟩ := hheaders
  have hword : load32 mem (etherLen + ipv4Len + udpLen + 236) = be32 dhcpMagicCookie :=
    load32_of_reads hmagic
  refine ⟨⟨?_, ?_, ?_⟩, ?_, ?_, hoptions⟩
  · rw [EthernetHdr.load_of_holds heth]
  · rw [IPv4Hdr.load_of_holds hip]
  · rw [UDPHdr.load_of_holds hudp]
    decide
  · rw [UDPHdr.load_of_holds hudp]
    decide
  · rw [DhcpHdr.load, hword, be32_be32]

/-- The library reads the options off the frame. -/
theorem readOption_lateFrame {mem : ℕ → UInt8} {type : UInt8} (h : Holds mem 0 (lateFrame type))
    (behind : ℕ → UInt8) {option : UInt8} (hoption : option ≠ dhcpOptPad) :
    readOption (hdrToMsg (DhcpHdr.load mem (etherLen + ipv4Len + udpLen)) 548) behind option =
      ((lateOptions type).find? fun o => o.code = option).map OptionRecord.data := by
  obtain ⟨-, -, -, hoptions⟩ := lateFrame_spec h
  have hlen := length_encodeAll_lateOptions type
  refine readOption_of_holds (fun i hi => ?_) hlen.le (Or.inr fun i hi hi' => ?_) hoption
  · rw [Nat.zero_add, optByte_hdrToMsg_load le_rfl (by omega)]
    exact hoptions i hi
  · omega

/-- The type of the message is the last byte. -/
theorem processDHCPHdr_lateFrame {mem : ℕ → UInt8} {type : UInt8}
    (h : Holds mem 0 (lateFrame type)) (behind : ℕ → UInt8) :
    processDHCPHdr (DhcpHdr.load mem (etherLen + ipv4Len + udpLen)) 548 behind = type := by
  obtain ⟨-, -, hmagic, -⟩ := lateFrame_spec h
  have htype : dhcpGetMessageType (hdrToMsg (DhcpHdr.load mem (etherLen + ipv4Len + udpLen)) 548)
      behind = type := by
    refine dhcpGetMessageType_of_readOption ?_
    rw [readOption_lateFrame h behind (by decide)]
    rfl
  rw [processDHCPHdr, if_neg (by decide), if_neg (not_not.mpr hmagic), htype]

section Turns

variable {P : Type} (adapter : Adapter P) (env : Surroundings) (server : DhcpServer P) (n : ℕ)

/-- With type REQUEST the frame is answered, whatever the pool says. -/
theorem runIteration_lateFrame_request :
    ∃ reply, (runIteration adapter env server (bytesAt (lateFrame dhcpRequest)) n).2 =
      some reply := by
  have hold := holds_bytesAt (lateFrame dhcpRequest)
  obtain ⟨hfor, hlen, -, -⟩ := lateFrame_spec hold
  set dhcp := DhcpHdr.load (bytesAt (lateFrame dhcpRequest)) (etherLen + ipv4Len + udpLen)
    with hdhcp
  have htype : (arrivalOf env dhcp 548).msgType = dhcpRequest := by
    refine dhcpGetMessageType_of_readOption ?_
    rw [arrivalOf, hdhcp, readOption_lateFrame hold _ (by decide)]
    rfl
  have hip : (arrivalOf env dhcp 548).requestedIp = some 0 := by
    refine optionWord_of_readOption ?_
    rw [arrivalOf, hdhcp, readOption_lateFrame hold _ (by decide)]
    rfl
  rw [runIteration_of_forServer adapter env server n hfor, hlen, ← hdhcp, switchOnType, hdhcp,
    processDHCPHdr_lateFrame hold, ← hdhcp, if_neg (by decide), if_pos rfl, craftDHCPAck,
    craftDHCP_eq, processMessage_request htype hip]
  exact ⟨_, rfl⟩

/-- With type 0 it is not. -/
theorem runIteration_lateFrame_zero :
    (runIteration adapter env server (bytesAt (lateFrame 0)) n).2 = none := by
  have hold := holds_bytesAt (lateFrame 0)
  obtain ⟨hfor, hlen, -, -⟩ := lateFrame_spec hold
  rw [runIteration_of_forServer adapter env server n hfor, hlen]
  simp only [switchOnType, processDHCPHdr_lateFrame hold]
  rfl

end Turns

/-- A frame of 60 bytes is taken for a datagram of 548, and the message type lies among the
bytes of an earlier frame.  A server of 2048 leases that has seen nothing yet refuses a
REQUEST in one case and stays silent in the other. -/
theorem stale_type_answered :
    let server : DhcpServer (ArrayPool 2048) :=
      dhcpInitServerArray circleConfig fun _ => ⟨⟨fun _ => 0, 0, 0⟩, false⟩
    let env : Surroundings := ⟨fun _ => 2, 0, fun _ => 0, fun _ => 0⟩
    (∀ i < 60, bytesAt (lateFrame dhcpRequest) i = bytesAt (lateFrame 0) i) ∧
      (runIteration (arrayAdapter 2048) env server (bytesAt (lateFrame dhcpRequest)) 60).2 ≠
        (runIteration (arrayAdapter 2048) env server (bytesAt (lateFrame 0)) 60).2 := by
  intro server env
  refine ⟨fun i hi => lateFrame_agree _ _ (by omega), ?_⟩
  obtain ⟨reply, hsent⟩ := runIteration_lateFrame_request (arrayAdapter 2048) env server 60
  rw [hsent, runIteration_lateFrame_zero]
  simp

/-- Its first 60 bytes leave the type open; a DISCOVER whose type has arrived is settled, though
its length field lets in more. -/
example : ¬ Settles ((lateFrame dhcpRequest).take 60) ∧ Settles runtFrame := by
  decide +kernel

end BaremetalDhcp
