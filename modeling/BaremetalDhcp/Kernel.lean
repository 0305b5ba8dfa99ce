import BaremetalDhcp.Frame
import BaremetalDhcp.Clock
import BaremetalDhcp.Nprc

/-!
# The receive loop of the kernel

`CKernel::Run` takes a frame from the network device, casts its buffer to the four headers,
asks `CDHCPServer` for the message type and sends what `CraftDHCPOffer` or `CraftDHCPAck`
build.  `runIteration` is one turn of the loop: the server after it, and the frame that is
transmitted, if any.

## Reading conventions

* The frame buffer is a memory: a function from indices to bytes.  The loop reuses one buffer,
  so the bytes behind the received frame are those of earlier frames.
* `Surroundings` is everything a turn reads besides the buffer and the server: the MAC address
  of the device, the clock, and the memory behind the two local messages, into which
  `dhcp_get_option` can run.
* The memory of the reply, `ResponseFrameBuffer`, is cleared in every turn; `responseFrame` is
  its contents when it is sent.

`runIteration_congr` says how far into the buffer a turn reads.
-/

namespace BaremetalDhcp

open LittleEndian

/-! ## The adapter -/

/-- A build of `CDHCPServer`: the pool calls of its lease mode, and whether
`HandleDHCPDecline` hands the message to the library. -/
structure Adapter (P : Type) where
  calls : PoolCalls P
  handlesDecline : Bool

/-- `DHCP_LEASE_MODE_ARRAY`. -/
def arrayAdapter (maxLeases : UInt16) : Adapter (ArrayPool maxLeases) :=
  ⟨(arrayOps maxLeases).calls, true⟩

/-- `DHCP_LEASE_MODE_BMVAR`. -/
def bmvarAdapter : Adapter BmPoolVar := ⟨bmvarCalls, false⟩

/-- `DHCP_LEASE_MODE_BMUNI`. -/
def bmuniAdapter : Adapter BmPoolUni := ⟨bmuniCalls, false⟩

/-- `DHCP_LEASE_MODE_NPRC`. -/
def nprcAdapter (W : ℕ) : Adapter (NprcPool W) := ⟨nprcCalls, false⟩

/-- `DHCP_LEASE_MODE_HASHMAP`. -/
def hashmapAdapter : Adapter HashPool := ⟨hashOps.calls, true⟩

/-- What a turn of the loop reads besides the frame and the server. -/
structure Surroundings where
  /-- `GetMACAddress` of the device. -/
  mac : Bytes 6
  /-- The time since the counter was at zero. -/
  micros : ℕ
  /-- The memory behind the message of `ProcessDHCPHdr`. -/
  behindMsg : ℕ → UInt8
  /-- The memory behind the request of the function called next. -/
  behindReq : ℕ → UInt8

/-- `CDHCPServer::ProcessDHCPHdr`: the message type, 0 on error. -/
def processDHCPHdr (hdr : DhcpHdr) (nLength : ℕ) (behind : ℕ → UInt8) : UInt8 :=
  if nLength < dhcpFixedLen then 0
  else if be32 hdr.magic ≠ dhcpMagicCookie then 0
  else dhcpGetMessageType (hdrToMsg hdr nLength) behind

/-- A request as the library receives it. -/
def arrivalOf (env : Surroundings) (request : DhcpHdr) (requestLen : ℕ) : Arrival where
  request := hdrToMsg request requestLen
  behind := env.behindReq
  curTime := tsInSec env.micros

section Server

variable {P : Type} (adapter : Adapter P) (env : Surroundings) (server : DhcpServer P)

/-- The common body of `CraftDHCPOffer` and `CraftDHCPAck`: the response header and the
length returned, or `none` for length 0. -/
def craftDHCP (request : DhcpHdr) (requestLen : ℕ) : DhcpServer P × Option (DhcpHdr × ℕ) :=
  let done := processMessage adapter.calls server (arrivalOf env request requestLen)
  let resp := done.2.getD DhcpMessage.zero
  -- no response was built
  (done.1, if resp.op = 0 then none else some (msgToHdr resp))

/-- `CDHCPServer::CraftDHCPOffer`: the length of the request is that of the whole struct. -/
def craftDHCPOffer (request : DhcpHdr) : DhcpServer P × Option (DhcpHdr × ℕ) :=
  craftDHCP adapter env server request dhcpLen

/-- `CDHCPServer::CraftDHCPAck`. -/
def craftDHCPAck (request : DhcpHdr) (requestLen : ℕ) : DhcpServer P × Option (DhcpHdr × ℕ) :=
  craftDHCP adapter env server request requestLen

/-- `CDHCPServer::HandleDHCPDecline`. -/
def handleDHCPDecline (request : DhcpHdr) : DhcpServer P :=
  if adapter.handlesDecline then
    (processMessage adapter.calls server (arrivalOf env request dhcpLen)).1
  else server

end Server

/-! ## The loop -/

/-- The IPv4 header of a reply, before its checksum is computed. -/
def responseIPv4 (dhcpRes : DhcpHdr) : IPv4Hdr where
  versionIhl := 0x45
  tos := 0
  totalLen := be16 (UInt16.ofNat (ipv4Len + udpLen + dhcpLen))
  ident := 0
  flags := 0
  ttl := 64
  protocol := 17
  checksum := 0
  srcIP := dhcpRes.siaddr
  dstIP := fun _ => 0xFF

/-- The UDP header of a reply. -/
def responseUDP : UDPHdr where
  srcPort := be16 67
  dstPort := be16 68
  totalLen := be16 (UInt16.ofNat (udpLen + dhcpLen))
  checksum := 0

/-- The response buffer when it is sent: a broadcast that carries the DHCP header. -/
def responseFrame (mac : Bytes 6) (etherType : UInt16) (dhcpRes : DhcpHdr) : List UInt8 :=
  let eth : EthernetHdr := { dstMAC := fun _ => 0xFF, srcMAC := mac, etherType := etherType }
  let ipv4 := responseIPv4 dhcpRes
  let ipv4 := { ipv4 with checksum := ipChecksum (bytesAt ipv4.bytes) 0 }
  eth.bytes ++ (ipv4.bytes ++ (responseUDP.bytes ++ dhcpRes.bytes))

/-- `DHCPRequestLen`: the payload length that the UDP header declares, in `unsigned`
arithmetic. -/
def dhcpRequestLen (udp : UDPHdr) : ℕ := ((be16 udp.totalLen).toUInt32 - 8).toNat

section Run

variable {P : Type} (adapter : Adapter P) (env : Surroundings) (server : DhcpServer P)

/-- The switch on the message type. -/
def switchOnType (etherType : UInt16) (dhcp : DhcpHdr) (requestLen : ℕ) :
    DhcpServer P × Option (List UInt8) :=
  let send (crafted : DhcpServer P × Option (DhcpHdr × ℕ)) :=
    (crafted.1, crafted.2.map fun res => responseFrame env.mac etherType res.1)
  let msgType := processDHCPHdr dhcp requestLen env.behindMsg
  if msgType = dhcpDiscover then send (craftDHCPOffer adapter env server dhcp)
  else if msgType = dhcpRequest then send (craftDHCPAck adapter env server dhcp requestLen)
  else if msgType = dhcpDecline then (handleDHCPDecline adapter env server dhcp, none)
  else (server, none)

/-- One turn of the loop of `CKernel::Run` after `ReceiveFrame` has filled the buffer.  The
length it reports, `nFrameLength`, is not looked at. -/
def runIteration (frameBuffer : ℕ → UInt8) (_nFrameLength : ℕ) :
    DhcpServer P × Option (List UInt8) :=
  let eth := EthernetHdr.load frameBuffer 0
  if eth.etherType = be16 0x800 then
    let ipv4 := IPv4Hdr.load frameBuffer etherLen
    if ipv4.protocol = 17 then
      let udp := UDPHdr.load frameBuffer (etherLen + ipv4Len)
      if be16 udp.dstPort = 67 then
        let dhcp := DhcpHdr.load frameBuffer (etherLen + ipv4Len + udpLen)
        switchOnType adapter env server eth.etherType dhcp (dhcpRequestLen udp)
      else (server, none)
    else (server, none)
  else (server, none)

/-- The frame is a DHCP datagram for the server: the checks that come before the DHCP header
is looked at. -/
def ForServer (frameBuffer : ℕ → UInt8) : Prop :=
  (EthernetHdr.load frameBuffer 0).etherType = be16 0x800 ∧
    (IPv4Hdr.load frameBuffer etherLen).protocol = 17 ∧
    be16 (UDPHdr.load frameBuffer (etherLen + ipv4Len)).dstPort = 67

variable {frameBuffer frameBuffer' : ℕ → UInt8} (n : ℕ)

theorem runIteration_of_forServer (h : ForServer frameBuffer) :
    runIteration adapter env server frameBuffer n =
      switchOnType adapter env server (be16 0x800)
        (DhcpHdr.load frameBuffer (etherLen + ipv4Len + udpLen))
        (dhcpRequestLen (UDPHdr.load frameBuffer (etherLen + ipv4Len))) := by
  obtain ⟨htype, hprotocol, hport⟩ := h
  rw [runIteration, if_pos htype, if_pos hprotocol, if_pos hport, htype]

theorem runIteration_of_not_forServer (h : ¬ ForServer frameBuffer) :
    runIteration adapter env server frameBuffer n = (server, none) := by
  simp only [runIteration]
  split_ifs with htype hprotocol hport
  · exact absurd ⟨htype, hprotocol, hport⟩ h
  · rfl
  · rfl
  · rfl

/-- Crafting is converting what the library answers: a response always has `op` 2. -/
theorem craftDHCP_eq (request : DhcpHdr) (requestLen : ℕ) :
    craftDHCP adapter env server request requestLen =
      ((processMessage adapter.calls server (arrivalOf env request requestLen)).1,
        (processMessage adapter.calls server (arrivalOf env request requestLen)).2.map
          msgToHdr) := by
  simp only [craftDHCP]
  cases hdone : (processMessage adapter.calls server (arrivalOf env request requestLen)).2 with
  | none => rfl
  | some response =>
      have hop : response.op ≠ 0 := by
        rw [(answers_of_processMessage hdone).op_eq]
        decide
      rw [Option.getD_some, if_neg hop, Option.map_some]

/-- What the library answers in a turn. -/
def turnResponse (dhcp : DhcpHdr) (requestLen : ℕ) : Option DhcpMessage :=
  let msgType := processDHCPHdr dhcp requestLen env.behindMsg
  if msgType = dhcpDiscover then
    (processMessage adapter.calls server (arrivalOf env dhcp dhcpLen)).2
  else if msgType = dhcpRequest then
    (processMessage adapter.calls server (arrivalOf env dhcp requestLen)).2
  else none

/-- A turn transmits the frame of what the library answers. -/
theorem switchOnType_snd (etherType : UInt16) (dhcp : DhcpHdr) (requestLen : ℕ) :
    (switchOnType adapter env server etherType dhcp requestLen).2 =
      (turnResponse adapter env server dhcp requestLen).map fun response =>
        responseFrame env.mac etherType (msgToHdr response).1 := by
  simp only [switchOnType, turnResponse, craftDHCPOffer, craftDHCPAck, craftDHCP_eq]
  split_ifs
  · rw [Option.map_map]
    rfl
  · rw [Option.map_map]
    rfl
  · rfl
  · rfl

/-- **What is transmitted.**  A frame is sent exactly for a datagram that the library
answers. -/
theorem runIteration_transmits_iff {reply : List UInt8} :
    (runIteration adapter env server frameBuffer n).2 = some reply ↔
      ForServer frameBuffer ∧ ∃ response,
        turnResponse adapter env server
            (DhcpHdr.load frameBuffer (etherLen + ipv4Len + udpLen))
            (dhcpRequestLen (UDPHdr.load frameBuffer (etherLen + ipv4Len))) = some response ∧
          responseFrame env.mac (be16 0x800) (msgToHdr response).1 = reply := by
  by_cases hfor : ForServer frameBuffer
  · rw [runIteration_of_forServer adapter env server n hfor, switchOnType_snd,
      Option.map_eq_some_iff]
    exact ⟨fun h => ⟨hfor, h⟩, fun h => h.2⟩
  · rw [runIteration_of_not_forServer adapter env server n hfor]
    exact iff_of_false (by simp) fun h => hfor h.1

/-- The answer of a turn answers its request. -/
theorem answers_of_turnResponse {dhcp : DhcpHdr} {requestLen : ℕ} {response : DhcpMessage}
    (h : turnResponse adapter env server dhcp requestLen = some response) :
    ∃ nLength, Answers (hdrToMsg dhcp nLength) response := by
  simp only [turnResponse] at h
  split_ifs at h
  · exact ⟨_, answers_of_processMessage h⟩
  · exact ⟨_, answers_of_processMessage h⟩

/-! ## What a turn reads -/

section Reads

variable {mem mem' : ℕ → UInt8} {p : ℕ}

/-- The fixed part of the header decides everything of the message but its options. -/
theorem fixed_load_congr (h : ∀ i < dhcpFixedLen, mem (p + i) = mem' (p + i)) (nLength : ℕ)
    (options : Bytes 308) :
    { hdrToMsg (DhcpHdr.load mem p) nLength with options := options } =
      { hdrToMsg (DhcpHdr.load mem' p) nLength with options := options } := by
  unfold dhcpFixedLen at h
  have hbytes : ∀ k n, k + n ≤ 240 → loadBytes mem (p + k) n = loadBytes mem' (p + k) n :=
    fun k n hk => loadBytes_congr (agree_shift h hk)
  have h16 : ∀ k, k + 2 ≤ 240 → load16 mem (p + k) = load16 mem' (p + k) :=
    fun k hk => load16_congr (agree_shift h hk)
  have h32 : ∀ k, k + 4 ≤ 240 → load32 mem (p + k) = load32 mem' (p + k) :=
    fun k hk => load32_congr (agree_shift h hk)
  have hop : mem p = mem' p := h 0 (by omega)
  simp only [hdrToMsg, DhcpHdr.load, hop, h 1 (by omega), h 2 (by omega), h 3 (by omega),
    h32 4 (by omega), h16 8 (by omega), h16 10 (by omega), hbytes 12 4 (by omega),
    hbytes 16 4 (by omega), hbytes 20 4 (by omega), hbytes 24 4 (by omega),
    hbytes 28 16 (by omega), h32 236 (by omega)]

/-- The option bytes of a converted message: those of the declared payload, and zeros. -/
theorem options_hdrToMsg (hdr : DhcpHdr) (nLength : ℕ) (i : Fin 308) :
    (hdrToMsg hdr nLength).options i =
      if dhcpFixedLen + i.val < nLength then hdr.options ⟨i.val, optionByte_lt i⟩ else 0 := by
  simp only [hdrToMsg]
  refine if_congr ?_ rfl rfl
  unfold dhcpFixedLen
  split_ifs <;> omega

/-- A conversion reads the bytes that it is told of, the fixed part and what fits the option
array. -/
theorem hdrToMsg_load_agree {nLength : ℕ}
    (hfixed : ∀ i < dhcpFixedLen, mem (p + i) = mem' (p + i))
    (hoptions : ∀ i < 308, dhcpFixedLen + i < nLength →
      mem (p + (dhcpFixedLen + i)) = mem' (p + (dhcpFixedLen + i))) :
    hdrToMsg (DhcpHdr.load mem p) nLength = hdrToMsg (DhcpHdr.load mem' p) nLength := by
  have hsame : (hdrToMsg (DhcpHdr.load mem p) nLength).options =
      (hdrToMsg (DhcpHdr.load mem' p) nLength).options := by
    funext i
    rw [options_hdrToMsg, options_hdrToMsg]
    split_ifs with hin
    · have hbyte := hoptions i.val i.isLt hin
      rw [← Nat.add_assoc] at hbyte
      exact hbyte
    · rfl
  have hrest := fixed_load_congr hfixed nLength (hdrToMsg (DhcpHdr.load mem p) nLength).options
  exact hrest.trans (by rw [hsame])

/-- The last four bytes of the option array are never copied. -/
theorem hdrToMsg_load_congr (h : ∀ i < 548, mem (p + i) = mem' (p + i)) (nLength : ℕ) :
    hdrToMsg (DhcpHdr.load mem p) nLength = hdrToMsg (DhcpHdr.load mem' p) nLength := by
  exact hdrToMsg_load_agree (fun i hi => h i (by unfold dhcpFixedLen at hi; omega))
    fun i hi _ => h _ (by unfold dhcpFixedLen; omega)

/-- The bytes of the options as the library sees them. -/
theorem optByte_hdrToMsg_load {nLength i : ℕ} (hlen : 548 ≤ nLength) (hi : i < 308)
    (behind : ℕ → UInt8) :
    (hdrToMsg (DhcpHdr.load mem p) nLength).optByte behind i = mem (p + dhcpFixedLen + i) := by
  have hin : dhcpFixedLen + i < nLength := by
    unfold dhcpFixedLen
    omega
  rw [DhcpMessage.optByte, dif_pos hi, options_hdrToMsg, if_pos hin]
  rfl

end Reads

/-- The switch depends on the header only through the messages it converts to. -/
theorem switchOnType_congr {dhcp dhcp' : DhcpHdr}
    (h : ∀ nLength, hdrToMsg dhcp nLength = hdrToMsg dhcp' nLength) (etherType : UInt16)
    (requestLen : ℕ) :
    switchOnType adapter env server etherType dhcp requestLen =
      switchOnType adapter env server etherType dhcp' requestLen := by
  have hmagic : be32 dhcp.magic = be32 dhcp'.magic :=
    congrArg DhcpMessage.magicCookie (h requestLen)
  have harrival : ∀ nLength, arrivalOf env dhcp nLength = arrivalOf env dhcp' nLength := by
    intro nLength
    rw [arrivalOf, arrivalOf, h]
  have htype : processDHCPHdr dhcp requestLen env.behindMsg =
      processDHCPHdr dhcp' requestLen env.behindMsg := by
    rw [processDHCPHdr, processDHCPHdr, hmagic, h]
  have hcraft : ∀ nLength, craftDHCP adapter env server dhcp nLength =
      craftDHCP adapter env server dhcp' nLength := by
    intro nLength
    rw [craftDHCP, craftDHCP, harrival]
  have hdecline : handleDHCPDecline adapter env server dhcp =
      handleDHCPDecline adapter env server dhcp' := by
    rw [handleDHCPDecline, handleDHCPDecline, harrival]
  simp only [switchOnType, htype, craftDHCPOffer, craftDHCPAck, hcraft, hdecline]

/-- A turn reads the first 590 bytes of the buffer only. -/
theorem runIteration_congr (h : ∀ i < 590, frameBuffer i = frameBuffer' i) (n' : ℕ) :
    runIteration adapter env server frameBuffer n =
      runIteration adapter env server frameBuffer' n' := by
  have htype : (EthernetHdr.load frameBuffer 0).etherType =
      (EthernetHdr.load frameBuffer' 0).etherType :=
    load16_congr fun i hi => h _ (by omega)
  have hprotocol : (IPv4Hdr.load frameBuffer etherLen).protocol =
      (IPv4Hdr.load frameBuffer' etherLen).protocol := h 23 (by omega)
  have hudp : UDPHdr.load frameBuffer (etherLen + ipv4Len) =
      UDPHdr.load frameBuffer' (etherLen + ipv4Len) :=
    UDPHdr.load_congr fun i hi => h _ (by unfold etherLen ipv4Len; unfold udpLen at hi; omega)
  have hmsg : ∀ nLength,
      hdrToMsg (DhcpHdr.load frameBuffer (etherLen + ipv4Len + udpLen)) nLength =
        hdrToMsg (DhcpHdr.load frameBuffer' (etherLen + ipv4Len + udpLen)) nLength :=
    hdrToMsg_load_congr fun i hi => h _ (by unfold etherLen ipv4Len udpLen; omega)
  simp only [runIteration, htype, hprotocol, hudp, switchOnType_congr adapter env server hmsg]

end Run

end BaremetalDhcp
