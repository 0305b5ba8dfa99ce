import BaremetalDhcp.BenchFrame
import BaremetalDhcp.Kernel

/-!
# Client and server on one wire

The benchmark client and the kernel were written separately: each has its own structs, its own
byte-order helpers, its own checksum and its own walk over the options.  This module shows that
they understand each other.

* `buildFrame_understood` — what `build_frame` writes passes the checks of the kernel, and the
  library finds the message type, the MAC and the requested address in it.
* `reply_accepted` — what the kernel transmits passes the checks of `parse_xid` and
  `parse_frame`, which report the `xid` of the request, the type of the reply and its address.

The option area of a reply can be cut short on the way (see `Wire`); the message type comes
first and survives.
-/

namespace BaremetalDhcp

/-! ## From the client to the server -/

namespace BuildMeta

variable (m : BuildMeta)

/-- The options of the frame as records. -/
def records : List OptionRecord :=
  typeOption m.dhcpType ::
    if m.dhcpType = dhcpRequest then
      [wordOption dhcpOptRequestedIp dhcpOptRequestedIp_ne_pad dhcpOptRequestedIp_ne_end
          (unpackIP m.requestedIp),
        wordOption dhcpOptServerId dhcpOptServerId_ne_pad dhcpOptServerId_ne_end
          (unpackIP m.serverIp)]
    else []

theorem optionBytes_eq : m.optionBytes = encodeAll m.records ++ [dhcpOptEnd] := by
  have hword : ∀ (code : UInt8) (hpad : code ≠ dhcpOptPad) (hend : code ≠ dhcpOptEnd)
      (ip : Bytes 4),
      (wordOption code hpad hend (unpackIP ip)).encode = [code, 4] ++ List.ofFn ip := by
    intro code hpad hend ip
    rw [← uint32ToIp_unpackIP]
    rfl
  rw [optionBytes, records, encodeAll_cons]
  split_ifs with hrequest
  · rw [encodeAll_cons, encodeAll_cons, encodeAll_nil, hword, hword, List.append_nil]
    simp only [List.append_assoc]
    rfl
  · rfl

theorem length_records_le : (encodeAll m.records).length ≤ 15 := by
  rw [records]
  split_ifs <;> simp [typeOption, wordOption]

theorem length_frameBytes : m.frameBytes.length = minSendLen := by
  simp only [frameBytes, List.length_append, EthernetHdr.length_bytes, IPv4Hdr.length_bytes,
    UDPHdr.length_bytes, DhcpHdr.length_bytes]
  rfl

end BuildMeta

section Request

variable {m : BuildMeta} {frameBuffer : ℕ → UInt8}

/-- The headers that the kernel reads are those that the client wrote. -/
theorem loads_of_frameBytes (h : Holds frameBuffer 0 m.frameBytes) :
    ForServer frameBuffer ∧
      UDPHdr.load frameBuffer (etherLen + ipv4Len) = BuildMeta.udpHdr ∧
      DhcpHdr.load frameBuffer (etherLen + ipv4Len + udpLen) = m.dhcp := by
  simp only [BuildMeta.frameBytes, holds_append, EthernetHdr.length_bytes, IPv4Hdr.length_bytes,
    UDPHdr.length_bytes, Nat.zero_add] at h
  obtain ⟨heth, hip, hudp, hdhcp⟩ := h
  have hport := UDPHdr.load_of_holds hudp
  refine ⟨⟨?_, ?_, ?_⟩, hport, DhcpHdr.load_of_holds hdhcp⟩
  · rw [EthernetHdr.load_of_holds heth]
    rfl
  · rw [IPv4Hdr.load_of_holds hip]
    rfl
  · rw [hport]
    decide

/-- The library reads the records that the client wrote. -/
theorem readOption_frameBytes (behind : ℕ → UInt8) (option : UInt8) :
    readOption (hdrToMsg m.dhcp dhcpLen) behind option =
      (m.records.find? fun o => o.code = option).map OptionRecord.data := by
  have hlen := m.length_records_le
  refine readOption_optionArea (funext fun i => ?_) behind (by omega) option
  simp only [hdrToMsg, BuildMeta.dhcp, optionArea, ← m.optionBytes_eq]
  exact if_pos i.isLt

theorem dhcpGetMessageType_frameBytes (behind : ℕ → UInt8) :
    dhcpGetMessageType (hdrToMsg m.dhcp dhcpLen) behind = m.dhcpType := by
  refine dhcpGetMessageType_of_readOption ?_
  rw [readOption_frameBytes behind]
  rfl

theorem processDHCPHdr_frameBytes (behind : ℕ → UInt8) :
    processDHCPHdr m.dhcp dhcpLen behind = m.dhcpType := by
  have hmagic : be32 m.dhcp.magic = dhcpMagicCookie := be32_be32 dhcpMagicCookie
  rw [processDHCPHdr, if_neg (by decide), if_neg (not_not.mpr hmagic),
    dhcpGetMessageType_frameBytes]

end Request

/-- **Client frames are understood by the server.**  Whatever a buffer of sufficient size held
before, and whatever follows the frame in the buffer of the kernel. -/
theorem buildFrame_understood (m : BuildMeta) (buf : ℕ → UInt8) (buflen : ℕ)
    (hlen : minSendLen ≤ buflen) (frameBuffer : ℕ → UInt8)
    (hreceived : ∀ i < minSendLen, frameBuffer i = (buildFrame buf buflen m).1 i)
    (env : Surroundings) :
    let dhcp := DhcpHdr.load frameBuffer (etherLen + ipv4Len + udpLen)
    let requestLen := dhcpRequestLen (UDPHdr.load frameBuffer (etherLen + ipv4Len))
    let request := hdrToMsg dhcp requestLen
    (buildFrame buf buflen m).2 = minSendLen ∧ ForServer frameBuffer ∧ requestLen = dhcpLen ∧
      processDHCPHdr dhcp requestLen env.behindMsg = m.dhcpType ∧
      (∀ i : Fin 6, request.chaddr (i.castLE (by decide)) = m.clientMac i) ∧
      (m.dhcpType = dhcpRequest →
        (∃ ptr, dhcpGetOption request env.behindReq dhcpOptRequestedIp = some (ptr, 4)) ∧
          (arrivalOf env dhcp requestLen).requestedIp = some (unpackIP m.requestedIp)) := by
  intro dhcp requestLen request
  have hbuilt : buildFrame buf buflen m =
      (fun i => if i < buflen then m.frameBytes.getD i 0 else buf i, minSendLen) := by
    rw [buildFrame, if_neg (not_lt.mpr hlen)]
  have hold : Holds frameBuffer 0 m.frameBytes := by
    intro i hi
    rw [m.length_frameBytes] at hi
    rw [Nat.zero_add, hreceived i hi, hbuilt]
    exact if_pos (by omega)
  obtain ⟨hfor, hudp, hdhcp⟩ := loads_of_frameBytes hold
  have hrequestLen : requestLen = dhcpLen := by
    show dhcpRequestLen (UDPHdr.load frameBuffer (etherLen + ipv4Len)) = dhcpLen
    rw [hudp]
    decide
  have hrequest : request = hdrToMsg m.dhcp dhcpLen := by
    show hdrToMsg (DhcpHdr.load frameBuffer _) requestLen = _
    rw [hdhcp, hrequestLen]
  refine ⟨by rw [hbuilt], hfor, hrequestLen, ?_, ?_, ?_⟩
  · show processDHCPHdr (DhcpHdr.load frameBuffer _) requestLen _ = _
    rw [hdhcp, hrequestLen, processDHCPHdr_frameBytes]
  · intro i
    rw [hrequest]
    exact dif_pos i.isLt
  · intro htype
    have hread : readOption request env.behindReq dhcpOptRequestedIp =
        some (uint32ToIp (unpackIP m.requestedIp)) := by
      rw [hrequest, readOption_frameBytes _, BuildMeta.records, if_pos htype]
      rfl
    obtain ⟨ptr, hget, -⟩ := dhcpGetOption_of_readOption hread
    exact ⟨⟨ptr, hget⟩, optionWord_of_readOption hread⟩

/-- A REQUEST of a client for 192.168.4.100. -/
theorem buildFrame_understood_request :
    let m : BuildMeta := ⟨![2, 0, 0, 255, 53, 50], ![192, 168, 4, 100], ![192, 168, 4, 1],
      dhcpRequest, 7⟩
    let env : Surroundings := ⟨fun _ => 2, 0, fun _ => 53, fun _ => 53⟩
    let frame := (buildFrame (fun _ => 0xFF) 1514 m).1
    ForServer frame ∧
      (arrivalOf env (DhcpHdr.load frame (etherLen + ipv4Len + udpLen))
        (dhcpRequestLen (UDPHdr.load frame (etherLen + ipv4Len)))).requestedIp =
          some 0xC0A80464 := by
  intro m env frame
  obtain ⟨-, hfor, -, -, -, hrequest⟩ :=
    buildFrame_understood m (fun _ => 0xFF) 1514 (by decide) frame (fun _ _ => rfl) env
  have hip : unpackIP ![192, 168, 4, 100] = 0xC0A80464 := by decide
  exact ⟨hfor, (hrequest rfl).2.trans (congrArg some hip)⟩

/-! ## From the server to the client -/

section Reply

variable {mac : Bytes 6} {dhcpRes : DhcpHdr} {buf : ℕ → UInt8}

theorem length_responseFrame (etherType : UInt16) :
    (responseFrame mac etherType dhcpRes).length = minSendLen := by
  simp only [responseFrame, List.length_append, EthernetHdr.length_bytes, IPv4Hdr.length_bytes,
    UDPHdr.length_bytes, DhcpHdr.length_bytes]
  rfl

/-- The client recomputes the checksum that the kernel computed. -/
theorem checksum_of_responseIPv4
    (h : Holds buf etherLen { responseIPv4 dhcpRes with
      checksum := ipChecksum (bytesAt (responseIPv4 dhcpRes).bytes) 0 }.bytes) :
    ipCksum (clearChecksum buf) etherLen ipv4Len =
      ipChecksum (bytesAt (responseIPv4 dhcpRes).bytes) 0 := by
  have hcleared : Holds (clearChecksum buf) etherLen (responseIPv4 dhcpRes).bytes :=
    IPv4Hdr.holds_store_checksum h 0
  rw [ipCksum_eq_ipChecksum]
  refine ipChecksum_congr fun i hi => ?_
  rw [hcleared i (by rwa [IPv4Hdr.length_bytes]), Nat.zero_add, bytesAt]

/-- A transmitted frame passes the header checks of the client. -/
theorem passesChecks_of_responseFrame (h : Holds buf 0 (responseFrame mac (be16 0x800) dhcpRes)) :
    PassesChecks buf minSendLen ∧
      DhcpHdr.load buf (etherLen + ipv4Len + udpLen) = dhcpRes := by
  simp only [responseFrame, holds_append, EthernetHdr.length_bytes, IPv4Hdr.length_bytes,
    UDPHdr.length_bytes, Nat.zero_add] at h
  obtain ⟨heth, hip, hudp, hdhcp⟩ := h
  have hheth := EthernetHdr.load_of_holds heth
  have hhip := IPv4Hdr.load_of_holds hip
  have hhudp := UDPHdr.load_of_holds hudp
  refine ⟨?_, DhcpHdr.load_of_holds hdhcp⟩
  constructor
  case length_le => decide
  case etherType_eq => rw [hheth]; rfl
  case protocol_eq => rw [hhip]; rfl
  case totalLen_eq => rw [hhip]; rfl
  case checksum_eq => rw [hhip, checksum_of_responseIPv4 hip]
  case srcPort_eq => rw [hhudp]; rfl
  case dstPort_eq => rw [hhudp]; rfl
  case udpLen_eq => rw [hhudp]; rfl

end Reply

/-! ### The options of a reply -/

/-- No option sets the offered address. -/
theorem offeredIp_foldl_take (os : List OptionRecord) (m : ParseMeta) :
    (os.foldl ParseMeta.take m).offeredIp = m.offeredIp := by
  induction os generalizing m with
  | nil => rfl
  | cons o os ih =>
      rw [List.foldl_cons, ih]
      unfold ParseMeta.take ParseMeta.takeOption
      split_ifs <;> rfl

/-- Only option 53 sets the message type. -/
theorem dhcpType_foldl_take {os : List OptionRecord}
    (h : optMsgType ∉ os.map OptionRecord.code) (m : ParseMeta) :
    (os.foldl ParseMeta.take m).dhcpType = m.dhcpType := by
  induction os generalizing m with
  | nil => rfl
  | cons o os ih =>
      rw [List.map_cons, List.mem_cons, not_or] at h
      rw [List.foldl_cons, ih h.2]
      unfold ParseMeta.take ParseMeta.takeOption
      rw [if_neg (Ne.symm h.1)]
      split_ifs <;> rfl

/-- On the options of a message that starts with its type, the client takes the type and some
of the records behind it. -/
theorem parseOptions_msgToHdr {msg : DhcpMessage} {type : UInt8} {os : List OptionRecord}
    (h : msg.options = optionArea (typeOption type :: os)) (htype : type ≠ 0xFF)
    (hfit : (encodeAll (typeOption type :: os)).length < 308)
    (hlen : ∀ r ∈ os, r.data.length < 255) {dhcpOptions : ℕ → UInt8}
    (hread : ∀ i : Fin 312, dhcpOptions i.val = (msgToHdr msg).1.options i) (m : ParseMeta) :
    ∃ kept : List OptionRecord, kept.map OptionRecord.code <+: os.map OptionRecord.code ∧
      parseOptions dhcpOptions 312 312 0 m =
        kept.foldl ParseMeta.take { m with dhcpType := type } := by
  obtain ⟨kept, tail, hcut, hcodes, htail⟩ := exists_cutAfterMarker_eq hlen
  obtain ⟨-, hoptions⟩ := msgToHdr_optionArea h hfit
  have hclean : (0xFF : UInt8) ∉ (typeOption type).encode := by
    simp [typeOption, OptionRecord.encode, OptionRecord.lengthByte, dhcpOptMessageType,
      htype.symm]
  -- the area on the wire: the type, the kept records, and what ends them
  have harea : cutAfterMarker (encodeAll (typeOption type :: os) ++ [dhcpOptEnd]) =
      encodeAll (typeOption type :: kept) ++ tail := by
    rw [encodeAll_cons, List.append_assoc, cutAfterMarker_append_of_notMem hclean, hcut,
      encodeAll_cons, List.append_assoc]
  have hbyte : ∀ i < 312,
      dhcpOptions i = (encodeAll (typeOption type :: kept) ++ tail).getD i 0 := by
    intro i hi
    rw [← harea, ← hoptions ⟨i, hi⟩]
    exact hread ⟨i, hi⟩
  have hsize : (encodeAll (typeOption type :: kept)).length + tail.length ≤ 308 := by
    rw [← List.length_append, ← harea, length_cutAfterMarker, List.length_append,
      List.length_singleton]
    omega
  have hcount := two_mul_length_le (typeOption type :: kept)
  have hold : Holds dhcpOptions 0 (encodeAll (typeOption type :: kept)) := by
    intro i hi
    rw [Nat.zero_add, hbyte i (by omega), List.getD_append _ _ _ _ hi]
  have hbehind : ∀ i < 312, (encodeAll (typeOption type :: kept)).length ≤ i →
      dhcpOptions i = tail.getD (i - (encodeAll (typeOption type :: kept)).length) 0 := by
    intro i hi hle
    rw [hbyte i hi, List.getD_append_right _ _ _ _ hle]
  have hfuel : (typeOption type :: kept).length + (312 - (typeOption type :: kept).length) =
      312 := by omega
  have hwalk := parseOptions_records (typeOption type :: kept) 0
    (312 - (typeOption type :: kept).length) m hold (show _ ≤ 312 by omega)
  rw [hfuel, Nat.zero_add] at hwalk
  refine ⟨kept, hcodes, ?_⟩
  rw [hwalk]
  rcases htail with rfl | ⟨k, rfl⟩
  · rw [parseOptions_end]
    · rfl
    · rw [hbehind _ (by omega) le_rfl, Nat.sub_self]
      rfl
  · rw [parseOptions_pads]
    · rfl
    · intro i hi hi'
      rw [hbehind i hi' hi]
      simp [dhcpOptPad, optPad]

/-- The options of a response: its type, and short records of other codes. -/
theorem Answers.exists_records {request response : DhcpMessage} (h : Answers request response) :
    ∃ type os, response.options = optionArea (typeOption type :: os) ∧ type ≠ 0xFF ∧
      (encodeAll (typeOption type :: os)).length < 308 ∧ (∀ r ∈ os, r.data.length < 255) ∧
      optMsgType ∉ os.map OptionRecord.code := by
  obtain ⟨type, os, hoptions, htype, hos⟩ := h.options_eq
  refine ⟨type, os, hoptions, ?_, ?_⟩
  · rcases htype with rfl | rfl | rfl <;> decide
  · rcases hos with rfl | ⟨config, rfl⟩
    · simp [typeOption]
    · refine ⟨by simp [configOptions, typeOption, wordOption],
        by simp [configOptions, wordOption], ?_⟩
      show optMsgType ∉ [dhcpOptServerId, dhcpOptSubnetMask, dhcpOptRouter, dhcpOptDnsServer,
        dhcpOptLeaseTime]
      decide

/-- What the client reports of a response that arrives in the option bytes of a frame. -/
theorem parseOptions_of_answers {request response : DhcpMessage} (h : Answers request response)
    (dhcpOptions : ℕ → UInt8)
    (hread : ∀ i : Fin 312, dhcpOptions i.val = (msgToHdr response).1.options i)
    (m : ParseMeta) :
    (parseOptions dhcpOptions 312 312 0 m).dhcpType =
        dhcpGetMessageType response (fun _ => 0) ∧
      (parseOptions dhcpOptions 312 312 0 m).offeredIp = m.offeredIp := by
  obtain ⟨type, os, hoptions, htype, hfit, hlen, hcodes⟩ := h.exists_records
  obtain ⟨kept, hkept, hparse⟩ := parseOptions_msgToHdr hoptions htype hfit hlen hread m
  have hother : optMsgType ∉ kept.map OptionRecord.code := fun hmem => hcodes (hkept.subset hmem)
  rw [hparse, dhcpType_foldl_take hother, offeredIp_foldl_take,
    dhcpGetMessageType_optionArea hoptions]
  exact ⟨rfl, rfl⟩

/-- A response in a frame is what the client reads. -/
theorem Answers.responseFrame_accepted {request response : DhcpMessage}
    (h : Answers request response) {mac : Bytes 6} {buf : ℕ → UInt8}
    (hreceived : Holds buf 0 (responseFrame mac (be16 0x800) (msgToHdr response).1))
    (m : ParseMeta) :
    parseXid buf minSendLen = (buf, some (htonl request.xid)) ∧
      (m.xid = htonl request.xid →
        PassesChecks buf minSendLen ∧
          (parseFrame buf minSendLen m).2.dhcpType =
            dhcpGetMessageType response (fun _ => 0) ∧
          (parseFrame buf minSendLen m).2.offeredIp = packIP response.yiaddr) := by
  obtain ⟨hpasses, hload⟩ := passesChecks_of_responseFrame hreceived
  have hxid : (msgToHdr response).1.xid = request.xid := h.xid_eq
  refine ⟨?_, fun hm => ?_⟩
  · rw [parseXid_of_passes hpasses, hload, hxid]
  have hexpected : (DhcpHdr.load buf (etherLen + ipv4Len + udpLen)).xid = htonl m.xid := by
    rw [hload, hxid, hm]
    exact (be32_be32 _).symm
  refine ⟨hpasses, ?_⟩
  have hread : ∀ i : Fin 312, buf (minRecvLen + i.val) = (msgToHdr response).1.options i :=
    fun i => congrFun (congrArg DhcpHdr.options hload) i
  rw [parseFrame_of_passes hpasses hexpected]
  have hparsed := parseOptions_of_answers h (fun i => buf (minRecvLen + i)) hread
    { m.reset with
      serverMac := (EthernetHdr.load buf 0).srcMAC
      serverIp := (DhcpHdr.load buf (etherLen + ipv4Len + udpLen)).siaddr
      offeredIp := (DhcpHdr.load buf (etherLen + ipv4Len + udpLen)).yiaddr }
  refine ⟨hparsed.1, hparsed.2.trans ?_⟩
  rw [hload]
  rfl

/-- **Server frames are accepted by the client.**  For every turn of the kernel that transmits
a frame, whatever the backend, the configuration and the request, and for every buffer that
the frame is received into. -/
theorem reply_accepted {P : Type} (adapter : Adapter P) (env : Surroundings)
    (server : DhcpServer P) (frameBuffer : ℕ → UInt8) (nFrameLength : ℕ) (reply : List UInt8)
    (hsent : (runIteration adapter env server frameBuffer nFrameLength).2 = some reply)
    (buf : ℕ → UInt8) (hreceived : Holds buf 0 reply) (m : ParseMeta) :
    let request := DhcpHdr.load frameBuffer (etherLen + ipv4Len + udpLen)
    let requestLen := dhcpRequestLen (UDPHdr.load frameBuffer (etherLen + ipv4Len))
    ∃ response, turnResponse adapter env server request requestLen = some response ∧
      parseXid buf reply.length = (buf, some (htonl request.xid)) ∧
      (m.xid = htonl request.xid →
        PassesChecks buf reply.length ∧
          (parseFrame buf reply.length m).2.dhcpType =
            dhcpGetMessageType response (fun _ => 0) ∧
          (parseFrame buf reply.length m).2.offeredIp = packIP response.yiaddr) := by
  intro request requestLen
  obtain ⟨-, response, hresponse, rfl⟩ :=
    (runIteration_transmits_iff adapter env server nFrameLength).mp hsent
  obtain ⟨nLength, hanswers⟩ := answers_of_turnResponse adapter env server hresponse
  rw [length_responseFrame]
  exact ⟨response, hresponse, hanswers.responseFrame_accepted hreceived m⟩

/-- A client asks a server that has just started, and is offered the first address. -/
theorem reply_accepted_offer :
    let m : BuildMeta := ⟨![2, 0, 0, 255, 53, 50], fun _ => 0, fun _ => 0, dhcpDiscover, 7⟩
    let env : Surroundings := ⟨fun _ => 2, 0, fun _ => 0, fun _ => 0⟩
    let expected : ParseMeta :=
      ⟨fun _ => 9, fun _ => 9, fun _ => 9, fun _ => 9, dhcpNak, 9, 7⟩
    ∃ reply, (runIteration (nprcAdapter 32) env (dhcpInitServerNprc 32 circleConfig)
        (bytesAt m.frameBytes) minSendLen).2 = some reply ∧
      (parseXid (bytesAt reply) reply.length).2 = some 7 ∧
      (parseFrame (bytesAt reply) reply.length expected).2.dhcpType = dhcpOffer ∧
      (parseFrame (bytesAt reply) reply.length expected).2.offeredIp = ![192, 168, 4, 100] := by
  intro m env expected
  set server := dhcpInitServerNprc 32 circleConfig
  obtain ⟨hfor, hudp, hdhcp⟩ := loads_of_frameBytes (holds_bytesAt m.frameBytes)
  have htype : (arrivalOf env m.dhcp dhcpLen).msgType = dhcpDiscover :=
    dhcpGetMessageType_frameBytes env.behindReq
  have hfound : ((nprcAdapter 32).calls.discover server (arrivalOf env m.dhcp dhcpLen)).2 =
      0xC0A80464 := by
    decide +kernel
  set offering := ((nprcAdapter 32).calls.discover server (arrivalOf env m.dhcp dhcpLen)).1
  have hresponse : turnResponse (nprcAdapter 32) env server m.dhcp dhcpLen =
      some (dhcpBuildOffer offering (hdrToMsg m.dhcp dhcpLen) 0xC0A80464) := by
    rw [turnResponse, processDHCPHdr_frameBytes, if_pos rfl, processMessage_discover htype]
    dsimp only
    rw [hfound, if_pos (by decide)]
    rfl
  have hturn : turnResponse (nprcAdapter 32) env server
      (DhcpHdr.load (bytesAt m.frameBytes) (etherLen + ipv4Len + udpLen))
      (dhcpRequestLen (UDPHdr.load (bytesAt m.frameBytes) (etherLen + ipv4Len))) =
        some (dhcpBuildOffer offering (hdrToMsg m.dhcp dhcpLen) 0xC0A80464) := by
    rw [hdhcp, hudp]
    exact hresponse
  have hsent := (runIteration_transmits_iff (nprcAdapter 32) env server minSendLen).mpr
    ⟨hfor, _, hturn, rfl⟩
  obtain ⟨response, hsame, hxid, hparse⟩ := reply_accepted (nprcAdapter 32) env server
    (bytesAt m.frameBytes) minSendLen _ hsent _ (holds_bytesAt _) expected
  obtain rfl : _ = response := Option.some.inj (hturn.symm.trans hsame)
  have hseven : htonl (DhcpHdr.load (bytesAt m.frameBytes) (etherLen + ipv4Len + udpLen)).xid =
      7 := by
    rw [hdhcp]
    exact be32_be32 7
  obtain ⟨hoptions, hyiaddr, -⟩ :=
    dhcpBuildOffer_spec offering (hdrToMsg m.dhcp dhcpLen) 0xC0A80464
  obtain ⟨-, htypeOf, hoffered⟩ := hparse hseven.symm
  refine ⟨_, hsent, ?_, ?_, ?_⟩
  · rw [hxid, hseven]
  · rw [htypeOf, dhcpGetMessageType_optionArea hoptions]
  · rw [hoffered, hyiaddr]
    decide

end BaremetalDhcp
