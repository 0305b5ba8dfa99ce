import BaremetalDhcp.DeclaredPayload
import BaremetalDhcp.OptionLookup

/-!
# Runt datagrams

`CKernel::Run` takes the length of the DHCP payload from the UDP header, as the `unsigned`
difference `BE(udp->totalLen) - sizeof(UDPHdr)`.  `ProcessDHCPHdr` rejects a payload below
240 bytes, so a datagram that declares 8 to 247 bytes is ignored.  A datagram that
declares less than its own header is not: the difference wraps, passes for a payload of
almost 2³² bytes, and the whole option array is parsed.  Nor is the length byte of the
message type option compared with what is left of the payload, or its place with the end of
the option array.

* `Acts` — a turn of the loop transmits a frame or changes the pool;
* `Asks` — the frame makes the turn hand a message to the library that the library does
  not ignore; this is when some build in some state acts (`exists_acts_of_asks`,
  `asks_of_acts`);
* `headerBytes`, `optionBytes`, `MakesRequest` — when a frame asks, read off its bytes;
* `acts_declared_iff` — whatever the server and the memory around its messages, a frame acts
  only from within its declared payload exactly when its bytes make no request, or it
  declares at least the UDP header and all data of its type option.
-/

namespace BaremetalDhcp

open LittleEndian

/-! ## Frames -/

/-- The UDP header of a frame. -/
def udpOf (frameBuffer : ℕ → UInt8) : UDPHdr := UDPHdr.load frameBuffer (etherLen + ipv4Len)

/-- The DHCP header of a frame. -/
def dhcpOf (frameBuffer : ℕ → UInt8) : DhcpHdr :=
  DhcpHdr.load frameBuffer (etherLen + ipv4Len + udpLen)

/-- The length field of the UDP header. -/
def udpLength (frameBuffer : ℕ → UInt8) : ℕ := (be16 (udpOf frameBuffer).totalLen).toNat

/-- The message type option as `ProcessDHCPHdr` finds it: the index of its data in the
option array, and its length byte. -/
def typeOptionOf (env : Surroundings) (frameBuffer : ℕ → UInt8) : Option (ℕ × UInt8) :=
  dhcpGetOption (hdrToMsg (dhcpOf frameBuffer) (dhcpRequestLen (udpOf frameBuffer)))
    env.behindMsg dhcpOptMessageType

/-- A turn of the loop sends a reply or changes the lease pool. -/
def Acts (mode : LeaseMode) (env : Surroundings) (server : DhcpServer mode.Pool)
    (frameBuffer : ℕ → UInt8) (nFrameLength : ℕ) : Prop :=
  (runIteration mode.adapter env server frameBuffer nFrameLength).2 ≠ none ∨
    (runIteration mode.adapter env server frameBuffer nFrameLength).1.pool ≠ server.pool

/-- The UDP header declares a whole DHCP header, and the message type option lies in the
payload that it declares: its type in the option array, which holds the first bytes of the
payload, and the data that its length byte announces before the end. -/
def TypeDeclared (env : Surroundings) (frameBuffer : ℕ → UInt8) : Prop :=
  udpLen + dhcpFixedLen ≤ udpLength frameBuffer ∧
    ∃ ptr length, typeOptionOf env frameBuffer = some (ptr, length) ∧ ptr < 308 ∧
      udpLen + dhcpFixedLen + (ptr + length.toNat) ≤ udpLength frameBuffer

/-- The message that a turn hands to the library. -/
def turnArrival (env : Surroundings) (dhcp : DhcpHdr) (requestLen : ℕ) : Option Arrival :=
  let msgType := processDHCPHdr dhcp requestLen env.behindMsg
  if msgType = dhcpDiscover then some (arrivalOf env dhcp dhcpLen)
  else if msgType = dhcpRequest then some (arrivalOf env dhcp requestLen)
  else if msgType = dhcpDecline then some (arrivalOf env dhcp dhcpLen)
  else none

/-- The frame is a DISCOVER, a REQUEST for an address, or a DECLINE. -/
def Asks (env : Surroundings) (frameBuffer : ℕ → UInt8) : Prop :=
  ForServer frameBuffer ∧ ∃ a,
    turnArrival env (dhcpOf frameBuffer) (dhcpRequestLen (udpOf frameBuffer)) = some a ∧
      ¬ a.Ignored

section Turn

variable {P : Type} (adapter : Adapter P) (env : Surroundings) (server : DhcpServer P)

/-- **What the switch does with the message**: nothing, or what the library does; only an
unhandled DECLINE is dropped. -/
theorem switchOnType_cases (etherType : UInt16) (dhcp : DhcpHdr) (requestLen : ℕ) :
    let done := switchOnType adapter env server etherType dhcp requestLen
    (turnArrival env dhcp requestLen = none ∧ done = (server, none)) ∨
      ∃ a, turnArrival env dhcp requestLen = some a ∧
        (done.1 = (processMessage adapter.calls server a).1 ∨
          adapter.handlesDecline = false ∧ done.1 = server) ∧
        ((processMessage adapter.calls server a).2 = none → done.2 = none) := by
  simp only [switchOnType, turnArrival, craftDHCPOffer, craftDHCPAck, craftDHCP_eq,
    handleDHCPDecline]
  split_ifs with hd hr hc hhandles
  · exact Or.inr ⟨_, rfl, Or.inl rfl, fun hnone => by rw [hnone]; rfl⟩
  · exact Or.inr ⟨_, rfl, Or.inl rfl, fun hnone => by rw [hnone]; rfl⟩
  · exact Or.inr ⟨_, rfl, Or.inl rfl, fun _ => rfl⟩
  · exact Or.inr ⟨_, rfl, Or.inr ⟨Bool.eq_false_iff.mpr hhandles, rfl⟩, fun _ => rfl⟩
  · exact Or.inl ⟨rfl, rfl⟩

variable {env}

/-- A header that has a type has passed the two checks before it. -/
theorem processDHCPHdr_ne_zero {hdr : DhcpHdr} {n : ℕ} {behind : ℕ → UInt8}
    (h : processDHCPHdr hdr n behind ≠ 0) :
    dhcpFixedLen ≤ n ∧ be32 hdr.magic = dhcpMagicCookie ∧
      dhcpGetMessageType (hdrToMsg hdr n) behind = processDHCPHdr hdr n behind := by
  rw [processDHCPHdr] at h ⊢
  split_ifs at h ⊢ with hshort hcookie
  · exact absurd rfl h
  · exact absurd rfl h
  · exact ⟨Nat.not_lt.mp hshort, not_not.mp hcookie, rfl⟩

/-- The message that is handed to the library comes from one of the two parses, depending on
the type. -/
theorem turnArrival_cases {dhcp : DhcpHdr} {requestLen : ℕ} {a : Arrival}
    (h : turnArrival env dhcp requestLen = some a) :
    let type := processDHCPHdr dhcp requestLen env.behindMsg
    (type = dhcpDiscover ∨ type = dhcpDecline) ∧ a = arrivalOf env dhcp dhcpLen ∨
      type = dhcpRequest ∧ a = arrivalOf env dhcp requestLen := by
  simp only [turnArrival] at h
  split_ifs at h with hd hr hc
  · exact Or.inl ⟨Or.inl hd, (Option.some.inj h).symm⟩
  · exact Or.inr ⟨hr, (Option.some.inj h).symm⟩
  · exact Or.inl ⟨Or.inr hc, (Option.some.inj h).symm⟩

/-- Only a message with a type is handed to the library. -/
theorem type_ne_zero_of_arrival {dhcp : DhcpHdr} {requestLen : ℕ} {a : Arrival}
    (h : turnArrival env dhcp requestLen = some a) :
    processDHCPHdr dhcp requestLen env.behindMsg ≠ 0 := by
  rcases turnArrival_cases h with ⟨hd | hc, -⟩ | ⟨hr, -⟩
  · rw [hd]; decide
  · rw [hc]; decide
  · rw [hr]; decide

end Turn

/-- **A turn that is not asked does nothing.** -/
theorem runIteration_of_not_asks {mode : LeaseMode} {env : Surroundings}
    {frameBuffer : ℕ → UInt8} (h : ¬ Asks env frameBuffer) (server : DhcpServer mode.Pool)
    (n : ℕ) : runIteration mode.adapter env server frameBuffer n = (server, none) := by
  by_cases hfor : ForServer frameBuffer
  · rw [runIteration_of_forServer _ _ _ _ hfor]
    obtain ⟨-, hdone⟩ | ⟨a, harrival, hserver, hreply⟩ := switchOnType_cases mode.adapter env
      server (be16 0x800) (dhcpOf frameBuffer) (dhcpRequestLen (udpOf frameBuffer))
    · exact hdone
    · have hignored : a.Ignored := by_contra fun hasks => h ⟨hfor, a, harrival, hasks⟩
      rw [processMessage_ignored hignored] at hserver hreply
      refine Prod.ext ?_ (hreply rfl)
      obtain hsame | ⟨-, hsame⟩ := hserver
      · exact hsame
      · exact hsame
  · exact runIteration_of_not_forServer _ _ _ _ hfor

/-- **A turn that acts was asked to.** -/
theorem asks_of_acts {mode : LeaseMode} {env : Surroundings} {server : DhcpServer mode.Pool}
    {frameBuffer : ℕ → UInt8} {n : ℕ} (h : Acts mode env server frameBuffer n) :
    Asks env frameBuffer := by
  by_contra hno
  unfold Acts at h
  rw [runIteration_of_not_asks hno] at h
  exact h.elim (fun hreply => hreply rfl) fun hpool => hpool rfl

/-! ## A server that reacts to everything -/

section Reacts

variable {maxLeases : UInt16} (pool : ArrayPool maxLeases)

/-- A search changes no lease but by the clean-up it starts with. -/
theorem dhcpArraypoolFindAvailableIp_leases (poolStart poolEnd : UInt32) (mac : Mac)
    (curTime : UInt32) :
    (dhcpArraypoolFindAvailableIp pool poolStart poolEnd mac curTime).1.leases =
      (pool.purge curTime).leases := by
  simp only [dhcpArraypoolFindAvailableIp]
  split
  · rfl
  · split_ifs <;> rfl

/-- A commit changes no other lease than the one it renews. -/
theorem dhcpArraypoolAllocLease_leases (ip : UInt32) (mac : Mac) (leaseTime curTime : UInt32)
    (i : Fin maxLeases.toNat) :
    let after := (dhcpArraypoolAllocLease pool ip mac leaseTime curTime).1
    after.leases i = (pool.purge curTime).leases i ∨
      (after.leases i).expireTime = curTime + leaseTime := by
  intro after
  have hupdate : ∀ (leases : Fin maxLeases.toNat → DhcpLease) (j : Fin maxLeases.toNat)
      (lease : DhcpLease), lease.expireTime = curTime + leaseTime →
      Function.update leases j lease i = leases i ∨
        (Function.update leases j lease i).expireTime = curTime + leaseTime := by
    intro leases j lease hexpire
    by_cases hi : i = j
    · subst hi
      rw [Function.update_self]
      exact Or.inr hexpire
    · rw [Function.update_of_ne hi]
      exact Or.inl rfl
  simp only [after, dhcpArraypoolAllocLease]
  split
  · split_ifs
    · exact Or.inl rfl
    · exact hupdate _ _ _ rfl
  · split
    · exact Or.inl rfl
    · split
      · exact Or.inl rfl
      · exact hupdate _ _ _ rfl

end Reacts

/-- A server of the ARRAY build with one lease, which belongs to the client of the message
and has run out. -/
def expiredServer (a : Arrival) : DhcpServer (ArrayPool 1) where
  config := poolConfig 0 0xFFFFFFFF (1 - a.curTime)
  pool :=
    { leases := fun _ => ⟨⟨a.mac, 0, 0⟩, true⟩
      leaseCount := 1
      nextIp := 0 }

/-- The only slot of the server. -/
def onlySlot : Fin (1 : UInt16).toNat := ⟨0, by decide⟩

theorem finRange_onlySlot : List.finRange (1 : UInt16).toNat = [onlySlot] := by
  decide

/-- The lease of `expiredServer` is removed by the clean-up. -/
theorem expiredServer_purge (a : Arrival) :
    (((expiredServer a).pool.purge a.curTime).leases onlySlot).inUse = false := by
  have hle : (0 : UInt32) ≤ a.curTime := UInt32.le_iff_toNat_le.mpr (Nat.zero_le _)
  have hfull : (expiredServer a).pool.leaseCount ≥ 1 := show (1 : UInt16) ≥ 1 by decide
  rw [ArrayPool.purge, if_pos hfull, dhcpArraypoolCleanupExpireLease, finRange_onlySlot,
    List.foldl_cons, List.foldl_nil, cleanupSlot, if_pos ⟨rfl, hle⟩]
  simp only [Function.update_self]

/-- A REQUEST for an address of the pool changes it, when the lease ends at time 1. -/
theorem expiredServer_request_ne {a : Arrival} {ip : UInt32} (config : DhcpConfig)
    (hin : InPool config.poolStart config.poolEnd ip) (hends : config.leaseTime = 1 - a.curTime) :
    ((arrayOps 1).calls.request ⟨config, (expiredServer a).pool⟩ ip a).1.pool ≠
      (expiredServer a).pool := by
  intro hsame
  have hslot : ((arrayOps 1).calls.request ⟨config, (expiredServer a).pool⟩ ip a).1.pool.leases
      onlySlot = ⟨⟨a.mac, 0, 0⟩, true⟩ := by rw [hsame]; rfl
  rw [LeaseOps.calls_request_of_inPool (arrayOps 1) hin] at hslot
  obtain hkept | hrenewed := dhcpArraypoolAllocLease_leases (expiredServer a).pool ip a.mac
    config.leaseTime a.curTime onlySlot
  · have hpurge := expiredServer_purge a
    rw [← hkept] at hpurge
    exact Bool.noConfusion ((congrArg DhcpLease.inUse hslot).symm.trans hpurge)
  · have hone : a.curTime + config.leaseTime = 1 := by
      rw [hends, UInt32.add_comm, UInt32.sub_add_cancel]
    rw [hone] at hrenewed
    have hzero := (congrArg (fun lease : DhcpLease => lease.expireTime) hslot).symm.trans hrenewed
    exact absurd hzero (show (0 : UInt32) ≠ 1 by decide)

/-- **Every message that is not ignored changes its pool.** -/
theorem expiredServer_pool_ne {a : Arrival} (h : ¬ a.Ignored) :
    (processMessage (arrayOps 1).calls (expiredServer a) a).1.pool ≠ (expiredServer a).pool := by
  intro hsame
  have hslot : (processMessage (arrayOps 1).calls (expiredServer a) a).1.pool.leases onlySlot =
      ⟨⟨a.mac, 0, 0⟩, true⟩ := by rw [hsame]; rfl
  obtain hd | ⟨hr, ip, hip⟩ | hc | hi := a.cases
  · have hpurge := expiredServer_purge a
    have hleases : (processMessage (arrayOps 1).calls (expiredServer a) a).1.pool.leases =
        ((expiredServer a).pool.purge a.curTime).leases := by
      rw [processMessage_discover hd]
      exact dhcpArraypoolFindAvailableIp_leases _ _ _ _ _
    rw [← hleases, hslot] at hpurge
    exact Bool.noConfusion hpurge
  · have hin : InPool (expiredServer a).config.poolStart (expiredServer a).config.poolEnd ip := by
      have hmax := ip.toNat_lt
      refine ⟨UInt32.le_iff_toNat_le.mpr (Nat.zero_le _), UInt32.le_iff_toNat_le.mpr ?_⟩
      show ip.toNat ≤ 4294967295
      omega
    rw [processMessage_request hr hip] at hsame
    exact expiredServer_request_ne (expiredServer a).config hin rfl hsame
  · rw [processMessage_decline hc] at hslot
    have hslot' : (dhcpArraypoolDeclineLease (expiredServer a).pool a.mac).leases onlySlot =
        ⟨⟨a.mac, 0, 0⟩, true⟩ := hslot
    have hfind : dhcpArraypoolFindLease (expiredServer a).pool a.mac = some onlySlot := by
      rw [dhcpArraypoolFindLease, finRange_onlySlot,
        List.find?_cons_of_pos]
      exact decide_eq_true ⟨rfl, rfl⟩
    rw [dhcpArraypoolDeclineLease, hfind] at hslot'
    simp only [Function.update_self] at hslot'
    exact Bool.noConfusion (congrArg DhcpLease.inUse hslot')
  · exact h hi

/-- A turn of the ARRAY build does to the pool what the library does with its message. -/
theorem runIteration_array_pool {maxLeases : UInt16} {env : Surroundings}
    {frameBuffer : ℕ → UInt8} {a : Arrival} (server : DhcpServer (ArrayPool maxLeases))
    (hfor : ForServer frameBuffer)
    (harrival : turnArrival env (dhcpOf frameBuffer) (dhcpRequestLen (udpOf frameBuffer)) =
      some a) (n : ℕ) :
    (runIteration (arrayAdapter maxLeases) env server frameBuffer n).1 =
      (processMessage (arrayOps maxLeases).calls server a).1 := by
  rw [runIteration_of_forServer _ _ _ _ hfor]
  obtain ⟨hnone, -⟩ | ⟨a', harrival', hserver, -⟩ := switchOnType_cases (arrayAdapter maxLeases)
    env server (be16 0x800) (dhcpOf frameBuffer) (dhcpRequestLen (udpOf frameBuffer))
  · rw [harrival] at hnone
    simp at hnone
  · obtain rfl : a = a' := Option.some.inj (harrival.symm.trans harrival')
    obtain hsame | ⟨hdrops, -⟩ := hserver
    · exact hsame
    · exact Bool.noConfusion hdrops

/-- **Whoever is asked may act.** -/
theorem exists_acts_of_asks {env : Surroundings} {frameBuffer : ℕ → UInt8}
    (h : Asks env frameBuffer) (n : ℕ) :
    ∃ (mode : LeaseMode) (server : DhcpServer mode.Pool), Acts mode env server frameBuffer n := by
  obtain ⟨hfor, a, harrival, hasks⟩ := h
  refine ⟨.array 1, expiredServer a, Or.inr fun hpool => expiredServer_pool_ne hasks ?_⟩
  rw [← runIteration_array_pool (expiredServer a) hfor harrival n]
  exact hpool

/-! ## What the bytes of a frame ask for -/

/-- The bytes by which a frame is taken for a DHCP datagram, with their offsets: the Ethernet
type, the IPv4 protocol, the UDP port and the magic cookie. -/
def headerBytes : List (ℕ × UInt8) :=
  [(12, 0x08), (13, 0x00), (23, 17), (36, 0), (37, 67),
    (278, 0x63), (279, 0x82), (280, 0x53), (281, 0x63)]

/-- The frame has these bytes. -/
def HasHeaders (frame : ℕ → UInt8) : Prop := ∀ e ∈ headerBytes, frame e.1 = e.2

/-- The length field of the UDP header. -/
def lengthField (frame : ℕ → UInt8) : ℕ := 256 * (frame 38).toNat + (frame 39).toNat

/-- How many option bytes are taken from a payload with this length field: as many as it
declares and the array can hold, or all of them when it does not count the UDP header. -/
def copiedOptions (length : ℕ) : ℕ :=
  if length < udpLen then 308 else min 308 (length - (udpLen + dhcpFixedLen))

/-- The option array of a frame: the bytes taken from it, and zeros. -/
def optionBytes (frame : ℕ → UInt8) : List UInt8 :=
  (List.range 308).map fun i =>
    if i < copiedOptions (lengthField frame) then frame (282 + i) else 0

/-- The option array names an address, with some memory behind it. -/
def NamesAddress (bytes : List UInt8) : Prop :=
  match lookup dhcpOptRequestedIp bytes with
  | .absent => False
  | .found length _ => length = 4
  | .unfinished start => start < 308

/-- **The option array makes a request**, with some memory behind it: a DISCOVER, a DECLINE,
or a REQUEST for an address. -/
def MakesRequest (bytes : List UInt8) : Prop :=
  match lookup dhcpOptMessageType bytes with
  | .absent => False
  | .found length [] => length ≠ 0
  | .found length (type :: _) => length ≠ 0 ∧
      (type = dhcpDiscover ∨ type = dhcpDecline ∨ type = dhcpRequest ∧ NamesAddress bytes)
  | .unfinished start => start < 308

/-- **The type option closes in the payload**: its type stands in the option array, and the
data that its length byte announces end before the declared payload does. -/
def TypeCloses (frame : ℕ → UInt8) : Prop :=
  match lookup dhcpOptMessageType (optionBytes frame) with
  | .found length (_ :: data) =>
      udpLen + dhcpFixedLen + (308 - (data.length + 1) + length.toNat) ≤ lengthField frame
  | _ => False

@[simp] theorem length_optionBytes (frame : ℕ → UInt8) : (optionBytes frame).length = 308 := by
  rw [optionBytes, List.length_map, List.length_range]

theorem udpLength_eq (frame : ℕ → UInt8) : udpLength frame = lengthField frame :=
  toNat_be16_load16 frame 38

theorem hasHeaders_iff {frame : ℕ → UInt8} :
    HasHeaders frame ↔
      ForServer frame ∧ be32 (dhcpOf frame).magic = dhcpMagicCookie := by
  have htype : (EthernetHdr.load frame 0).etherType = be16 0x800 ↔
      [frame 12, frame 13] = [0x08, 0x00] := load16_eq_iff
  have hport : be16 (UDPHdr.load frame (etherLen + ipv4Len)).dstPort = 67 ↔
      frame 36 = 0 ∧ frame 37 = 67 := by
    have hvalue : (be16 (UDPHdr.load frame (etherLen + ipv4Len)).dstPort).toNat =
        256 * (frame 36).toNat + (frame 37).toNat := toNat_be16_load16 frame 36
    have hlow := (frame 37).toNat_lt
    rw [← UInt16.toNat_inj, hvalue, ← UInt8.toNat_inj, ← UInt8.toNat_inj]
    change 256 * (frame 36).toNat + (frame 37).toNat = 67 ↔
      (frame 36).toNat = 0 ∧ (frame 37).toNat = 67
    omega
  have hmagic : be32 (dhcpOf frame).magic = dhcpMagicCookie ↔
      [frame 278, frame 279, frame 280, frame 281] = [0x63, 0x82, 0x53, 0x63] := by
    have hswap : be32 (dhcpOf frame).magic = dhcpMagicCookie ↔
        load32 frame 278 = be32 dhcpMagicCookie := by
      constructor
      · intro h
        rw [← h, be32_be32]
        rfl
      · intro h
        rw [show (dhcpOf frame).magic = load32 frame 278 from rfl, h, be32_be32]
    exact hswap.trans load32_eq_iff
  rw [ForServer, htype, hport, hmagic]
  simp only [HasHeaders, headerBytes, List.forall_mem_cons, List.not_mem_nil, false_implies,
    implies_true, and_true, List.cons.injEq, and_assoc]
  rfl

section Frame

variable {env : Surroundings} {frame : ℕ → UInt8} {behind : ℕ → UInt8} {type : UInt8}

/-- How far the length that the kernel computes reaches into the options. -/
theorem lt_dhcpRequestLen_iff {i : ℕ} (hi : i < 308) :
    dhcpFixedLen + i < dhcpRequestLen (udpOf frame) ↔ i < copiedOptions (lengthField frame) := by
  have hfield : (be16 (udpOf frame).totalLen).toNat = lengthField frame := udpLength_eq frame
  have hlt := (be16 (udpOf frame).totalLen).toNat_lt
  have hlen : dhcpRequestLen (udpOf frame) =
      (2 ^ 32 - 8 + lengthField frame) % 2 ^ 32 := by
    rw [dhcpRequestLen, UInt32.toNat_sub, UInt16.toNat_toUInt32, hfield]
    rfl
  rw [hfield] at hlt
  rw [hlen, copiedOptions]
  unfold dhcpFixedLen udpLen
  split_ifs
  · omega
  · omega

/-- The option array that is parsed for the type. -/
theorem optByte_parse {i : ℕ} (hi : i < 308) :
    (hdrToMsg (dhcpOf frame) (dhcpRequestLen (udpOf frame))).optByte behind i =
      if i < copiedOptions (lengthField frame) then frame (282 + i) else 0 := by
  rw [optByte_hdrToMsg _ _ _ hi]
  exact if_congr (lt_dhcpRequestLen_iff hi) rfl rfl

/-- The option array that `CraftDHCPOffer` and `HandleDHCPDecline` parse. -/
theorem optByte_reparse {i : ℕ} (hi : i < 308) :
    (hdrToMsg (dhcpOf frame) dhcpLen).optByte behind i = frame (282 + i) := by
  have hin : dhcpFixedLen + i < dhcpLen := by
    unfold dhcpFixedLen dhcpLen
    omega
  rw [optByte_hdrToMsg _ _ _ hi, if_pos hin]
  rfl

theorem optByte_parse_eq_zero {i : ℕ} (hi : copiedOptions (lengthField frame) ≤ i)
    (hi' : i < 308) :
    (hdrToMsg (dhcpOf frame) (dhcpRequestLen (udpOf frame))).optByte behind i = 0 := by
  rw [optByte_parse hi', if_neg (Nat.not_lt.mpr hi)]

theorem holds_optionBytes :
    Holds ((hdrToMsg (dhcpOf frame) (dhcpRequestLen (udpOf frame))).optByte behind) 0
      (optionBytes frame) := by
  intro i hi
  have hin : i < 308 := by
    rw [length_optionBytes] at hi
    exact hi
  rw [Nat.zero_add, optByte_parse hin, List.getD_eq_getElem _ _ hi]
  simp [optionBytes]

/-- **A type that was found is found again** in the whole array, if it was found in the bytes
copied, or all of the array was copied and the memory behind it is the same. -/
theorem msgType_reparse (htype : type ≠ 0)
    (hfound : dhcpGetMessageType (hdrToMsg (dhcpOf frame) (dhcpRequestLen (udpOf frame)))
      env.behindMsg = type)
    (hplace : env.behindMsg = env.behindReq ∨ ∀ ptr length, typeOptionOf env frame =
      some (ptr, length) → ptr < copiedOptions (lengthField frame)) :
    (arrivalOf env (dhcpOf frame) dhcpLen).msgType = type := by
  obtain ⟨ptr, length, hget, hlen, hbyte⟩ := (dhcpGetMessageType_eq_iff htype).mp hfound
  have hcopied : copiedOptions (lengthField frame) ≤ 308 := by
    unfold copiedOptions
    split_ifs <;> omega
  have hagree : ∀ i ≤ ptr,
      (hdrToMsg (dhcpOf frame) (dhcpRequestLen (udpOf frame))).optByte env.behindMsg i =
        (hdrToMsg (dhcpOf frame) dhcpLen).optByte env.behindReq i := by
    intro i hi
    by_cases hptr : ptr < copiedOptions (lengthField frame)
    · rw [optByte_parse (by omega), optByte_reparse (by omega), if_pos (by omega)]
    · -- the type lies behind the bytes copied, so there is no gap of zeros before it
      have hbehind := hplace.resolve_right fun h => hptr (h ptr length hget)
      have hall : copiedOptions (lengthField frame) = 308 := by
        by_contra hne
        exact hptr (lt_copied_of_type (fun i hi hi' => optByte_parse_eq_zero hi hi') hget hlen
          (hbyte ▸ htype) (by omega))
      by_cases hin : i < 308
      · rw [optByte_parse hin, optByte_reparse hin, if_pos (by omega)]
      · rw [DhcpMessage.optByte, DhcpMessage.optByte, dif_neg hin, dif_neg hin, hbehind]
  exact ((dhcpGetMessageType_of_agree hget hagree).2).trans hfound

/-- A type is found only in a payload of 240 bytes and more. -/
theorem le_dhcpRequestLen_of_type (htype : type ≠ 0)
    (hfound : dhcpGetMessageType (hdrToMsg (dhcpOf frame) (dhcpRequestLen (udpOf frame)))
      behind = type) : dhcpFixedLen ≤ dhcpRequestLen (udpOf frame) := by
  by_contra hshort
  refine htype (hfound.symm.trans ?_)
  have hnone : copiedOptions (lengthField frame) = 0 := by
    by_contra hpos
    have hlt := (lt_dhcpRequestLen_iff (by omega)).mpr (Nat.pos_of_ne_zero hpos)
    omega
  have hempty : dhcpGetOption (hdrToMsg (dhcpOf frame) (dhcpRequestLen (udpOf frame))) behind
      dhcpOptMessageType = none := by
    rw [dhcpGetOption_eq_findFrom]
    exact findFrom_pads (by decide) fun i _ hi => optByte_parse_eq_zero (by omega) hi
  rw [dhcpGetMessageType, hempty]

/-- A datagram with a type has that type. -/
theorem processDHCPHdr_of_type (hmagic : be32 (dhcpOf frame).magic = dhcpMagicCookie)
    (htype : type ≠ 0)
    (hfound : dhcpGetMessageType (hdrToMsg (dhcpOf frame) (dhcpRequestLen (udpOf frame)))
      behind = type) :
    processDHCPHdr (dhcpOf frame) (dhcpRequestLen (udpOf frame)) behind = type := by
  rw [processDHCPHdr, if_neg (Nat.not_lt.mpr (le_dhcpRequestLen_of_type htype hfound)),
    if_neg (not_not.mpr hmagic), hfound]

/-- **When a frame asks**, for surroundings in which the memory behind both messages is the
same. -/
theorem asks_of_type (hheaders : HasHeaders frame) (hbehind : env.behindMsg = env.behindReq)
    (hfound : dhcpGetMessageType (hdrToMsg (dhcpOf frame) (dhcpRequestLen (udpOf frame)))
      env.behindMsg = type)
    (hkind : type = dhcpDiscover ∨ type = dhcpDecline ∨ type = dhcpRequest ∧
      optionWord (hdrToMsg (dhcpOf frame) (dhcpRequestLen (udpOf frame))) env.behindReq
        dhcpOptRequestedIp ≠ none) : Asks env frame := by
  obtain ⟨hfor, hmagic⟩ := hasHeaders_iff.mp hheaders
  have htype : type ≠ 0 := by
    rcases hkind with rfl | rfl | ⟨rfl, -⟩ <;> decide
  have hreparse := msgType_reparse htype hfound (Or.inl hbehind)
  have hprocess := processDHCPHdr_of_type hmagic htype hfound
  refine ⟨hfor, ?_⟩
  simp only [turnArrival, hprocess]
  rcases hkind with rfl | rfl | ⟨rfl, haddress⟩
  · exact ⟨_, rfl, fun hignored => hignored.1 hreparse⟩
  · exact ⟨_, rfl, fun hignored => hignored.2.1 hreparse⟩
  · refine ⟨_, rfl, fun hignored => haddress (hignored.2.2 ?_)⟩
    rw [← hfound, hbehind]
    rfl

/-- A message that names an address has an option array that does. -/
theorem namesAddress_of_optionWord {msg : DhcpMessage} {bytes : List UInt8}
    (hold : Holds (msg.optByte behind) 0 bytes) (hfit : bytes.length ≤ 308)
    (h : optionWord msg behind dhcpOptRequestedIp ≠ none) : NamesAddress bytes := by
  unfold NamesAddress
  cases hlookup : lookup dhcpOptRequestedIp bytes with
  | absent => exact h (optionWord_of_absent hold hfit hlookup)
  | found length data =>
      obtain ⟨ptr, -, -, hword⟩ := optionWord_of_found hold hfit hlookup
      by_contra hne
      exact h (hword.trans (if_neg hne))
  | unfinished start =>
      by_contra hout
      refine h (optionWord_of_no_room 308 start (by decide)
        (fun i hi hi' => absurd hi (by omega)) (fun found hfound => ?_) fun hroom => hout hroom.1)
      exact exists_start_of_unfinished hold hfit hlookup hfound

/-- **Only a frame that makes a request asks.** -/
theorem makesRequest_of_asks (h : Asks env frame) :
    HasHeaders frame ∧ MakesRequest (optionBytes frame) := by
  obtain ⟨hfor, a, harrival, hasks⟩ := h
  have hkind := turnArrival_cases harrival
  have hne := type_ne_zero_of_arrival harrival
  obtain ⟨-, hmagic, hmsg⟩ := processDHCPHdr_ne_zero hne
  refine ⟨hasHeaders_iff.mpr ⟨hfor, hmagic⟩, ?_⟩
  generalize processDHCPHdr (dhcpOf frame) (dhcpRequestLen (udpOf frame)) env.behindMsg = type
    at hkind hne hmsg
  obtain ⟨ptr, length, hget, hlen, -⟩ := (dhcpGetMessageType_eq_iff hne).mp hmsg
  have hlen' : length ≠ 0 := by
    rintro rfl
    exact absurd hlen (by decide)
  have hfit := (length_optionBytes frame).le
  rw [dhcpGetOption_eq_findFrom] at hget
  unfold MakesRequest
  cases hlookup : lookup dhcpOptMessageType (optionBytes frame) with
  | absent =>
      rw [findFrom_of_absent holds_optionBytes hfit hlookup] at hget
      simp at hget
  | unfinished start =>
      obtain ⟨ptr', hle, hin, -⟩ :=
        exists_start_of_unfinished holds_optionBytes hfit hlookup hget
      exact hle.trans_lt hin
  | found length' data =>
      obtain ⟨ptr', hfound, -, -⟩ := findFrom_of_found holds_optionBytes hfit hlookup
      obtain ⟨rfl, rfl⟩ : ptr = ptr' ∧ length = length' :=
        Prod.mk.injEq .. ▸ Option.some.inj (hget.symm.trans hfound)
      cases data with
      | nil => exact hlen'
      | cons byte data =>
          have htypes : ∀ behind, dhcpGetMessageType (hdrToMsg (dhcpOf frame)
              (dhcpRequestLen (udpOf frame))) behind = byte :=
            fun behind => dhcpGetMessageType_of_found holds_optionBytes hfit hlookup hlen'
          obtain rfl : type = byte := hmsg.symm.trans (htypes _)
          refine ⟨hlen', ?_⟩
          rcases hkind with ⟨hkind, -⟩ | ⟨rfl, rfl⟩
          · exact hkind.imp_right Or.inl
          · have hr : (arrivalOf env (dhcpOf frame) (dhcpRequestLen (udpOf frame))).msgType =
                dhcpRequest := htypes env.behindReq
            have haddress : optionWord (hdrToMsg (dhcpOf frame) (dhcpRequestLen (udpOf frame)))
                env.behindReq dhcpOptRequestedIp ≠ none := by
              refine fun hnone => hasks ⟨?_, ?_, fun _ => hnone⟩
              · rw [hr]; decide
              · rw [hr]; decide
            exact Or.inr (Or.inr ⟨rfl, namesAddress_of_optionWord holds_optionBytes hfit haddress⟩)

/-- An option array that names an address does so before the byte 4. -/
theorem optionWord_of_namesAddress {msg : DhcpMessage} {bytes : List UInt8}
    (hold : Holds (msg.optByte fun _ => 4) 0 bytes) (hlen : bytes.length = 308)
    (h : NamesAddress bytes) : optionWord msg (fun _ => 4) dhcpOptRequestedIp ≠ none := by
  unfold NamesAddress at h
  cases hlookup : lookup dhcpOptRequestedIp bytes with
  | absent =>
      rw [hlookup] at h
      exact h.elim
  | found length data =>
      rw [hlookup] at h
      obtain ⟨ptr, -, -, hword⟩ := optionWord_of_found hold hlen.le hlookup
      rw [hword, if_pos h]
      simp
  | unfinished start =>
      -- the length stands behind the array
      rw [hlookup] at h
      have hstart := start_of_cut hlen.le hlookup (hlen ▸ h)
      obtain rfl : start = 307 := by omega
      have hfound := findFrom_of_completed (by decide) hold hlen.le hlookup (by decide)
        (fun i hi hi' => absurd hi (by omega)) (fun hle => absurd hle (by omega))
      rw [optionWord, dhcpGetOption_eq_findFrom, hfound]
      exact Option.some_ne_none _

/-- **A frame that makes a request asks**, in some surroundings. -/
theorem exists_asks_of_makesRequest (hheaders : HasHeaders frame)
    (h : MakesRequest (optionBytes frame)) : ∃ env : Surroundings, Asks env frame := by
  have hfit := (length_optionBytes frame).le
  have hbehind : ∀ {msg : DhcpMessage} {behind : ℕ → UInt8}, msg.optByte behind 308 = behind 0 ∧
      msg.optByte behind 309 = behind 1 := fun {_ _} => ⟨rfl, rfl⟩
  unfold MakesRequest at h
  cases hlookup : lookup dhcpOptMessageType (optionBytes frame) with
  | absent =>
      rw [hlookup] at h
      exact h.elim
  | unfinished start =>
      -- the length and the type stand behind the array
      rw [hlookup] at h
      have hstart := start_of_cut hfit hlookup (by rw [length_optionBytes]; exact h)
      rw [length_optionBytes] at hstart
      obtain rfl : start = 307 := by omega
      refine ⟨⟨fun _ => 0, 0, fun _ => dhcpDiscover, fun _ => dhcpDiscover⟩,
        asks_of_type hheaders rfl ?_ (Or.inl rfl)⟩
      rw [dhcpGetMessageType_eq_iff (by decide), dhcpGetOption_eq_findFrom]
      refine ⟨309, dhcpDiscover, ?_, by decide, hbehind.2⟩
      rw [findFrom_of_completed (by decide) holds_optionBytes hfit hlookup (by decide)
        (fun i hi hi' => absurd hi (by rw [length_optionBytes]; omega))
        (fun hle => absurd hle (by rw [length_optionBytes]; decide)), hbehind.1]
  | found length data =>
      rw [hlookup] at h
      cases data with
      | nil =>
          -- the type stands behind the array
          refine ⟨⟨fun _ => 0, 0, fun _ => dhcpDiscover, fun _ => dhcpDiscover⟩,
            asks_of_type hheaders rfl ?_ (Or.inl rfl)⟩
          obtain ⟨ptr, hfound, hptr, -⟩ := findFrom_of_found holds_optionBytes hfit hlookup
          rw [List.length_nil, length_optionBytes] at hptr
          obtain rfl : ptr = 308 := hptr
          rw [dhcpGetMessageType_eq_iff (by decide), dhcpGetOption_eq_findFrom]
          exact ⟨308, length, hfound, one_le_of_ne_zero h, hbehind.1⟩
      | cons type data =>
          obtain ⟨hlen, hkind⟩ := h
          refine ⟨⟨fun _ => 0, 0, fun _ => 4, fun _ => 4⟩, asks_of_type hheaders rfl
            (dhcpGetMessageType_of_found holds_optionBytes hfit hlookup hlen) ?_⟩
          exact hkind.imp_right (Or.imp_right fun ⟨hr, haddress⟩ => ⟨hr,
            optionWord_of_namesAddress holds_optionBytes (length_optionBytes frame) haddress⟩)

end Frame

/-- **When a frame acts from within its declared payload.**  Whatever the build, the state of
the server and the memory around its messages, a frame that makes a turn send a reply or change
the pool declares a UDP length of at least 248 and a payload that holds its message type option.
This is so exactly for the frames without the headers of a DHCP datagram, for those whose option
array makes no request, and for those whose type option closes in the payload: not for a request
with a length field below 8, which lets in the whole array, nor for one whose type option
announces more data than are left of the payload or has its type behind the array. -/
theorem acts_declared_iff (frame : ℕ → UInt8) :
    (∀ (mode : LeaseMode) (env : Surroundings) (server : DhcpServer mode.Pool)
      (nFrameLength : ℕ), Acts mode env server frame nFrameLength → TypeDeclared env frame) ↔
    (HasHeaders frame → MakesRequest (optionBytes frame) → TypeCloses frame) := by
  have hfit := (length_optionBytes frame).le
  constructor
  · intro hdeclared hheaders hrequest
    obtain ⟨env, hasks⟩ := exists_asks_of_makesRequest hheaders hrequest
    obtain ⟨mode, server, hacts⟩ := exists_acts_of_asks hasks 0
    obtain ⟨-, ptr, length, hoption, hin, hend⟩ := hdeclared mode env server 0 hacts
    have hget : findFrom _ dhcpOptMessageType 0 = some (ptr, length) := hoption
    unfold TypeCloses
    cases hlookup : lookup dhcpOptMessageType (optionBytes frame) with
    | absent =>
        rw [findFrom_of_absent holds_optionBytes hfit hlookup] at hget
        simp at hget
    | unfinished start =>
        -- a type found behind the array would be in it
        obtain ⟨ptr', hle, -, -, hfound⟩ :=
          exists_start_of_unfinished holds_optionBytes hfit hlookup hget
        obtain ⟨rfl, -⟩ : ptr = ptr' + 2 ∧ _ := Prod.mk.injEq .. ▸ hfound
        unfold MakesRequest at hrequest
        rw [hlookup] at hrequest
        have hstart := start_of_cut hfit hlookup (by rw [length_optionBytes]; exact hrequest)
        rw [length_optionBytes] at hstart
        omega
    | found length' data =>
        obtain ⟨ptr', hfound, hptr, -⟩ := findFrom_of_found holds_optionBytes hfit hlookup
        obtain ⟨rfl, rfl⟩ : ptr = ptr' ∧ length = length' :=
          Prod.mk.injEq .. ▸ Option.some.inj (hget.symm.trans hfound)
        rw [length_optionBytes] at hptr
        cases data with
        | nil =>
            rw [List.length_nil] at hptr
            omega
        | cons type data =>
            rw [List.length_cons] at hptr
            rw [udpLength_eq] at hend
            have hplace : 308 - (data.length + 1) = ptr := by omega
            change udpLen + dhcpFixedLen + (308 - (data.length + 1) + length.toNat) ≤ _
            rw [hplace]
            exact hend
  · intro hcond mode env server n hacts
    obtain ⟨hheaders, hrequest⟩ := makesRequest_of_asks (asks_of_acts hacts)
    have hcloses := hcond hheaders hrequest
    unfold TypeCloses at hcloses
    split at hcloses
    · next length type data hlookup =>
        obtain ⟨ptr, hfound, hptr, -⟩ := findFrom_of_found holds_optionBytes hfit hlookup
        rw [List.length_cons, length_optionBytes] at hptr
        have hplace : 308 - (data.length + 1) = ptr := by omega
        rw [hplace, ← udpLength_eq] at hcloses
        exact ⟨Nat.le_of_add_right_le hcloses, ptr, length, hfound, by omega, hcloses⟩
    · exact hcloses.elim

/-- A DISCOVER whose UDP header declares a length of 0. -/
def runtFrame : List UInt8 :=
  let eth : EthernetHdr :=
    { dstMAC := fun _ => 0xFF, srcMAC := fun _ => 0, etherType := be16 0x800 }
  let ipv4 : IPv4Hdr :=
    { versionIhl := 0x45, tos := 0, totalLen := be16 271, ident := 0, flags := 0, ttl := 64,
      protocol := 17, checksum := 0, srcIP := fun _ => 0, dstIP := fun _ => 0xFF }
  let udp : UDPHdr := { srcPort := be16 68, dstPort := be16 67, totalLen := 0, checksum := 0 }
  eth.bytes ++ (ipv4.bytes ++ (udp.bytes ++ cutDiscover))

/-- It is answered with an OFFER. -/
theorem runtFrame_answered :
    let mode := LeaseMode.nprc 64
    let server : DhcpServer mode.Pool := dhcpInitServerNprc 64 (poolConfig 100 103 10)
    let env : Surroundings := ⟨fun _ => 2, 0, fun _ => 0, fun _ => 0⟩
    ForServer (bytesAt runtFrame) ∧ Acts mode env server (bytesAt runtFrame) 285 ∧
      udpLength (bytesAt runtFrame) = 0 ∧ ¬ TypeDeclared env (bytesAt runtFrame) := by
  intro mode server env
  have hlength : udpLength (bytesAt runtFrame) = 0 := by decide +kernel
  have hreply : (runIteration (nprcAdapter 64) env server (bytesAt runtFrame) 285).2.isSome =
      true := by
    decide +kernel
  refine ⟨?_, Or.inl ?_, hlength, fun hdeclared => ?_⟩
  · unfold ForServer
    decide +kernel
  · exact Option.isSome_iff_ne_none.mp hreply
  · have hlong := hdeclared.1
    rw [hlength] at hlong
    exact absurd hlong (by decide)

end BaremetalDhcp
