import BaremetalDhcp.Frame

/-!
# The frames of the benchmark client

`bench-live/frame.c`: `build_frame` writes a DISCOVER or a REQUEST into a buffer,
`parse_frame` reads a reply, and `parse_xid` finds out for which client a reply is.

## Reading conventions

* A buffer is a memory, and the functions that write to it return it.  `parse_xid` and
  `parse_frame` both clear the checksum of the IPv4 header to recompute it; only the first one
  puts it back.
* `enum dhcp_msg_type` is kept as the byte that is sent and received; a reply may carry any.
* `struct DHCP` of the client, a header and 312 bytes of options, has the layout of the
  kernel's `DHCPHdr`.
* The option loop moves on by at least one byte per iteration, so as many iterations as there
  are option bytes always suffice.

`parseOptions_records` says what the option loop does on a sequence of records,
`parseFrame_of_passes` what `parse_frame` reports when the header checks pass, and
`parseFrame_congr` that it reads the received bytes only.
-/

namespace BaremetalDhcp

open LittleEndian

/-! ## Constants -/

def optPad : UInt8 := 0
def optSubnetMask : UInt8 := 1
def optRequestIp : UInt8 := 50
def optLeaseTime : UInt8 := 51
def optMsgType : UInt8 := 53
def optServerIp : UInt8 := 54
def optEnd : UInt8 := 255

/-- `MIN_RECV_LEN`: a received frame does not need to have options. -/
def minRecvLen : ℕ := etherLen + ipv4Len + udpLen + dhcpFixedLen

/-- `MIN_SEND_LEN`. -/
def minSendLen : ℕ := etherLen + ipv4Len + udpLen + dhcpLen

/-! ## Building -/

/-- `struct build_meta`. -/
structure BuildMeta where
  clientMac : Bytes 6
  requestedIp : Bytes 4
  serverIp : Bytes 4
  dhcpType : UInt8
  xid : UInt32

namespace BuildMeta

variable (m : BuildMeta)

def ethernetHdr : EthernetHdr where
  dstMAC := fun _ => 0xFF
  srcMAC := m.clientMac
  etherType := htons 0x0800

/-- The IPv4 header while its checksum is computed. -/
def ipv4Hdr : IPv4Hdr where
  versionIhl := 0x45
  tos := 0
  totalLen := htons (UInt16.ofNat (ipv4Len + (udpLen + dhcpLen)))
  ident := 0
  flags := htons 0x4000
  ttl := 64
  protocol := 17
  checksum := 0
  srcIP := fun _ => 0
  dstIP := fun _ => 0xFF

def udpHdr : UDPHdr where
  srcPort := htons 68
  dstPort := htons 67
  totalLen := htons (UInt16.ofNat (udpLen + dhcpLen))
  checksum := 0

/-- The option bytes that are written. -/
def optionBytes : List UInt8 :=
  [optMsgType, 1, m.dhcpType] ++
    ((if m.dhcpType = dhcpRequest then
        [optRequestIp, 4] ++ (List.ofFn m.requestedIp ++
          ([optServerIp, 4] ++ List.ofFn m.serverIp))
      else []) ++ [optEnd])

def dhcp : DhcpHdr where
  op := 1
  htype := 1
  hlen := 6
  hops := 0
  xid := htonl m.xid
  secs := 0
  flags := htons 0x8000
  ciaddr := fun _ => 0
  yiaddr := fun _ => 0
  siaddr := fun _ => 0
  giaddr := fun _ => 0
  chaddr := fun i => if h : i.val < 6 then m.clientMac ⟨i.val, h⟩ else 0
  sname := fun _ => 0
  file := fun _ => 0
  magic := htonl 0x63825363
  options := fun i => m.optionBytes.getD i.val 0

/-- The bytes of the frame. -/
def frameBytes : List UInt8 :=
  let ip := ipv4Hdr
  let ip := { ip with checksum := ipCksum (bytesAt ip.bytes) 0 ipv4Len }
  m.ethernetHdr.bytes ++ (ip.bytes ++ (udpHdr.bytes ++ m.dhcp.bytes))

end BuildMeta

/-- `build_frame`: the buffer, and the length of the frame or 0. -/
def buildFrame (buf : ℕ → UInt8) (buflen : ℕ) (m : BuildMeta) : (ℕ → UInt8) × ℕ :=
  if buflen < minSendLen then (buf, 0)
  else (fun i => if i < buflen then m.frameBytes.getD i 0 else buf i, minSendLen)

/-! ## Parsing -/

/-- `struct parse_meta`; `lease_time` and `xid` are the bits of an `int`. -/
structure ParseMeta where
  serverMac : Bytes 6
  offeredIp : Bytes 4
  serverIp : Bytes 4
  subnetMask : Bytes 4
  dhcpType : UInt8
  leaseTime : UInt32
  xid : UInt32

/-- The first lines of `parse_frame`: everything but the expected `xid` is reset. -/
def ParseMeta.reset (m : ParseMeta) : ParseMeta where
  serverMac := fun _ => 0
  offeredIp := fun _ => 0
  serverIp := fun _ => 0
  subnetMask := fun _ => 0
  dhcpType := 0
  leaseTime := 0
  xid := m.xid

/-- The `switch` on the type of an option of `optLen` bytes at `optIdx`: the meta data and the
index that the loop goes on with. -/
def ParseMeta.switchOption (m : ParseMeta) (dhcpOptions : ℕ → UInt8) (optType : UInt8)
    (optLen optIdx : ℕ) : ParseMeta × ℕ :=
  if optType = optMsgType then
    if optLen ≠ 1 then (m, optIdx + optLen)
    else ({ m with dhcpType := dhcpOptions optIdx }, optIdx + 1)
  else if optType = optServerIp then
    if optLen ≠ 4 then (m, optIdx + optLen)
    else ({ m with serverIp := loadBytes dhcpOptions optIdx 4 }, optIdx + 4)
  else if optType = optLeaseTime then
    if optLen ≠ 4 then (m, optIdx + optLen)
    else ({ m with leaseTime := htonl (load32 dhcpOptions optIdx) }, optIdx + 4)
  else if optType = optSubnetMask then
    if optLen ≠ 4 then (m, optIdx + optLen)
    else ({ m with subnetMask := loadBytes dhcpOptions optIdx 4 }, optIdx + 4)
  else (m, optIdx + optLen)

/-- The option loop of `parse_frame` from `optIdx` on. -/
def parseOptions (dhcpOptions : ℕ → UInt8) (optsLen : ℕ) : ℕ → ℕ → ParseMeta → ParseMeta
  | 0, _, m => m
  | fuel + 1, optIdx, m =>
      if optIdx < optsLen then
        let optType := dhcpOptions optIdx
        let optIdx := optIdx + 1
        if optType = optPad then parseOptions dhcpOptions optsLen fuel optIdx m
        else if optType = optEnd ∨ optIdx ≥ optsLen then m
        else
          let optLen := (dhcpOptions optIdx).toNat
          let optIdx := optIdx + 1
          if optIdx + optLen > optsLen then m
          else
            let done := m.switchOption dhcpOptions optType optLen optIdx
            parseOptions dhcpOptions optsLen fuel done.2 done.1
      else m

/-- The length of the UDP datagram in a frame of `buflen` bytes. -/
def udpLenOf (buflen : ℕ) : ℕ := udpLen + dhcpFixedLen + (buflen - minRecvLen)

/-- The buffer with the checksum of its IPv4 header cleared. -/
def clearChecksum (buf : ℕ → UInt8) : ℕ → UInt8 := store16 buf (etherLen + 10) 0

/-- `parse_frame`: the buffer and the updated meta data. -/
def parseFrame (buf : ℕ → UInt8) (buflen : ℕ) (m : ParseMeta) : (ℕ → UInt8) × ParseMeta :=
  let m := m.reset
  if buflen < minRecvLen then (buf, m)
  else
    let eth := EthernetHdr.load buf 0
    if eth.etherType ≠ htons 0x0800 then (buf, m)
    else
      let ip := IPv4Hdr.load buf etherLen
      if ip.protocol ≠ 17 ∨ ip.totalLen ≠ htons (UInt16.ofNat (ipv4Len + udpLenOf buflen)) then
        (buf, m)
      else
        let buf := clearChecksum buf
        if ip.checksum ≠ ipCksum buf etherLen ipv4Len then (buf, m)
        else
          let udp := UDPHdr.load buf (etherLen + ipv4Len)
          if udp.srcPort ≠ htons 67 ∨ udp.dstPort ≠ htons 68 ∨
              udp.totalLen ≠ htons (UInt16.ofNat (udpLenOf buflen)) then
            (buf, m)
          else
            let dhcpHdr := DhcpHdr.load buf (etherLen + ipv4Len + udpLen)
            if dhcpHdr.xid ≠ htonl m.xid then (buf, m)
            else
              let m := { m with
                serverMac := eth.srcMAC
                serverIp := dhcpHdr.siaddr
                offeredIp := dhcpHdr.yiaddr }
              let optsLen := buflen - minRecvLen
              (buf, parseOptions (fun i => buf (minRecvLen + i)) optsLen optsLen 0 m)

/-- `parse_xid`: the buffer, and the `xid` when it returns 1. -/
def parseXid (buf : ℕ → UInt8) (buflen : ℕ) : (ℕ → UInt8) × Option UInt32 :=
  if buflen < minRecvLen then (buf, none)
  else
    let eth := EthernetHdr.load buf 0
    if eth.etherType ≠ htons 0x0800 then (buf, none)
    else
      let ip := IPv4Hdr.load buf etherLen
      if ip.protocol ≠ 17 ∨ ip.totalLen ≠ htons (UInt16.ofNat (ipv4Len + udpLenOf buflen)) then
        (buf, none)
      else
        let cleared := clearChecksum buf
        -- the field is written back on both paths
        let buf := store16 cleared (etherLen + 10) ip.checksum
        if ip.checksum ≠ ipCksum cleared etherLen ipv4Len then (buf, none)
        else
          let udp := UDPHdr.load buf (etherLen + ipv4Len)
          if udp.srcPort ≠ htons 67 ∨ udp.dstPort ≠ htons 68 ∨
              udp.totalLen ≠ htons (UInt16.ofNat (udpLenOf buflen)) then
            (buf, none)
          else (buf, some (htonl (DhcpHdr.load buf (etherLen + ipv4Len + udpLen)).xid))

/-! ## The option loop on records -/

/-- What the `switch` notes of an option whose data are given. -/
def ParseMeta.takeOption (m : ParseMeta) (optType : UInt8) (optLen : ℕ) (data : ℕ → UInt8) :
    ParseMeta :=
  if optType = optMsgType then
    if optLen ≠ 1 then m else { m with dhcpType := data 0 }
  else if optType = optServerIp then
    if optLen ≠ 4 then m else { m with serverIp := loadBytes data 0 4 }
  else if optType = optLeaseTime then
    if optLen ≠ 4 then m else { m with leaseTime := htonl (load32 data 0) }
  else if optType = optSubnetMask then
    if optLen ≠ 4 then m else { m with subnetMask := loadBytes data 0 4 }
  else m

/-- **Every path moves on by the length of the option**, also those with a constant of their
own. -/
theorem ParseMeta.switchOption_eq (m : ParseMeta) (dhcpOptions : ℕ → UInt8) (optType : UInt8)
    (optLen optIdx : ℕ) :
    m.switchOption dhcpOptions optType optLen optIdx =
      (m.takeOption optType optLen fun i => dhcpOptions (optIdx + i), optIdx + optLen) := by
  have hbytes : loadBytes (fun i => dhcpOptions (optIdx + i)) 0 4 =
      loadBytes dhcpOptions optIdx 4 := by
    funext i
    rw [loadBytes, loadBytes, Nat.zero_add]
  have hword : load32 (fun i => dhcpOptions (optIdx + i)) 0 = load32 dhcpOptions optIdx :=
    load32_congr fun i _ => by rw [Nat.zero_add]
  unfold ParseMeta.switchOption ParseMeta.takeOption
  rw [hbytes, hword]
  split_ifs with htype hone hserver hfour hlease hfour hmask hfour
  · rfl
  · rw [not_not.mp hone]
    rfl
  · rfl
  · rw [not_not.mp hfour]
  · rfl
  · rw [not_not.mp hfour]
  · rfl
  · rw [not_not.mp hfour]
  · rfl

/-- One iteration of the loop. -/
theorem parseOptions_succ (dhcpOptions : ℕ → UInt8) (optsLen fuel optIdx : ℕ) (m : ParseMeta) :
    parseOptions dhcpOptions optsLen (fuel + 1) optIdx m =
      if optIdx < optsLen then
        if dhcpOptions optIdx = optPad then parseOptions dhcpOptions optsLen fuel (optIdx + 1) m
        else if dhcpOptions optIdx = optEnd ∨ optIdx + 1 ≥ optsLen then m
        else if optIdx + 2 + (dhcpOptions (optIdx + 1)).toNat > optsLen then m
        else
          parseOptions dhcpOptions optsLen fuel (optIdx + 2 + (dhcpOptions (optIdx + 1)).toNat)
            (m.takeOption (dhcpOptions optIdx) (dhcpOptions (optIdx + 1)).toNat
              fun i => dhcpOptions (optIdx + 2 + i))
      else m := by
  simp only [parseOptions, ParseMeta.switchOption_eq]

/-- What the loop does on one record. -/
def ParseMeta.take (m : ParseMeta) (o : OptionRecord) : ParseMeta :=
  m.takeOption o.code o.data.length (bytesAt o.data)

/-- The `switch` reads the data bytes of the option only. -/
theorem ParseMeta.takeOption_congr (m : ParseMeta) (optType : UInt8) {optLen : ℕ}
    {data data' : ℕ → UInt8} (h : ∀ i < optLen, data i = data' i) :
    m.takeOption optType optLen data = m.takeOption optType optLen data' := by
  have hbytes : optLen = 4 → loadBytes data 0 4 = loadBytes data' 0 4 := by
    rintro rfl
    exact loadBytes_congr fun i hi => by rw [Nat.zero_add, h i hi]
  have hword : optLen = 4 → load32 data 0 = load32 data' 0 := by
    rintro rfl
    exact load32_congr fun i hi => by rw [Nat.zero_add, h i hi]
  unfold ParseMeta.takeOption
  split_ifs with htype hone hserver hfour hlease hfour hmask hfour
  · rfl
  · rw [h 0 (by omega)]
  · rfl
  · rw [hbytes (not_not.mp hfour)]
  · rfl
  · rw [hword (not_not.mp hfour)]
  · rfl
  · rw [hbytes (not_not.mp hfour)]
  · rfl

section Loop

variable {dhcpOptions : ℕ → UInt8} {optsLen : ℕ}

theorem parseOptions_record {optIdx : ℕ} {o : OptionRecord}
    (h : Holds dhcpOptions optIdx o.encode) (hin : optIdx + o.encode.length ≤ optsLen)
    (fuel : ℕ) (m : ParseMeta) :
    parseOptions dhcpOptions optsLen (fuel + 1) optIdx m =
      parseOptions dhcpOptions optsLen fuel (optIdx + o.encode.length) (m.take o) := by
  have hlen := o.length_encode
  rw [OptionRecord.encode, holds_cons, holds_cons] at h
  obtain ⟨hcode, hlength, hdata⟩ := h
  have hnot : ¬ (o.code = optEnd ∨ optIdx + 1 ≥ optsLen) := by
    rintro (hend | hout)
    · exact o.code_ne_end hend
    · omega
  have htake : m.takeOption o.code o.data.length (fun i => dhcpOptions (optIdx + 2 + i)) =
      m.take o :=
    m.takeOption_congr o.code hdata
  rw [parseOptions_succ, if_pos (by omega)]
  simp only [hcode, hlength, o.toNat_lengthByte]
  rw [if_neg (show ¬ o.code = optPad from o.code_ne_pad), if_neg hnot, if_neg (by omega), htake,
    hlen, Nat.add_assoc]

/-- **Records are taken one after the other.** -/
theorem parseOptions_records :
    ∀ (os : List OptionRecord) (optIdx fuel : ℕ) (m : ParseMeta),
      Holds dhcpOptions optIdx (encodeAll os) → optIdx + (encodeAll os).length ≤ optsLen →
      parseOptions dhcpOptions optsLen (os.length + fuel) optIdx m =
        parseOptions dhcpOptions optsLen fuel (optIdx + (encodeAll os).length)
          (os.foldl ParseMeta.take m) := by
  intro os
  induction os with
  | nil =>
      intro optIdx fuel m _ _
      simp
  | cons o os ih =>
      intro optIdx fuel m hold hfit
      rw [encodeAll_cons, holds_append] at hold
      rw [encodeAll_cons, List.length_append, ← Nat.add_assoc] at hfit
      rw [List.length_cons, Nat.add_right_comm, parseOptions_record hold.1 (by omega),
        ih _ _ _ hold.2 hfit, encodeAll_cons, List.length_append, Nat.add_assoc,
        List.foldl_cons]

/-- Padding up to the end changes nothing. -/
theorem parseOptions_pads (m : ParseMeta) :
    ∀ (fuel optIdx : ℕ), (∀ i, optIdx ≤ i → i < optsLen → dhcpOptions i = optPad) →
      parseOptions dhcpOptions optsLen fuel optIdx m = m := by
  intro fuel
  induction fuel with
  | zero =>
      intro optIdx _
      rfl
  | succ fuel ih =>
      intro optIdx hpad
      rw [parseOptions_succ]
      by_cases hin : optIdx < optsLen
      · rw [if_pos hin, if_pos (hpad optIdx le_rfl hin)]
        exact ih (optIdx + 1) fun i hi => hpad i (by omega)
      · rw [if_neg hin]

/-- The loop ends at END. -/
theorem parseOptions_end {optIdx : ℕ} (h : dhcpOptions optIdx = optEnd) (fuel : ℕ)
    (m : ParseMeta) : parseOptions dhcpOptions optsLen fuel optIdx m = m := by
  cases fuel with
  | zero => rfl
  | succ fuel =>
      rw [parseOptions_succ]
      by_cases hin : optIdx < optsLen
      · rw [if_pos hin, h, if_neg (by decide), if_pos (Or.inl rfl)]
      · rw [if_neg hin]

end Loop

/-! ## The header checks -/

/-- The checks that `parse_frame` and `parse_xid` share. -/
structure PassesChecks (buf : ℕ → UInt8) (buflen : ℕ) : Prop where
  length_le : minRecvLen ≤ buflen
  etherType_eq : (EthernetHdr.load buf 0).etherType = htons 0x0800
  protocol_eq : (IPv4Hdr.load buf etherLen).protocol = 17
  totalLen_eq : (IPv4Hdr.load buf etherLen).totalLen =
    htons (UInt16.ofNat (ipv4Len + udpLenOf buflen))
  checksum_eq : (IPv4Hdr.load buf etherLen).checksum =
    ipCksum (clearChecksum buf) etherLen ipv4Len
  srcPort_eq : (UDPHdr.load buf (etherLen + ipv4Len)).srcPort = htons 67
  dstPort_eq : (UDPHdr.load buf (etherLen + ipv4Len)).dstPort = htons 68
  udpLen_eq : (UDPHdr.load buf (etherLen + ipv4Len)).totalLen =
    htons (UInt16.ofNat (udpLenOf buflen))

section Checks

variable {buf : ℕ → UInt8} {buflen : ℕ}

/-- The checks as the two functions write them. -/
theorem passesChecks_iff : PassesChecks buf buflen ↔
    ¬ buflen < minRecvLen ∧ ¬ (EthernetHdr.load buf 0).etherType ≠ htons 0x0800 ∧
      ¬ ((IPv4Hdr.load buf etherLen).protocol ≠ 17 ∨ (IPv4Hdr.load buf etherLen).totalLen ≠
        htons (UInt16.ofNat (ipv4Len + udpLenOf buflen))) ∧
      ¬ (IPv4Hdr.load buf etherLen).checksum ≠ ipCksum (clearChecksum buf) etherLen ipv4Len ∧
      ¬ ((UDPHdr.load buf (etherLen + ipv4Len)).srcPort ≠ htons 67 ∨
        (UDPHdr.load buf (etherLen + ipv4Len)).dstPort ≠ htons 68 ∨
        (UDPHdr.load buf (etherLen + ipv4Len)).totalLen ≠
          htons (UInt16.ofNat (udpLenOf buflen))) := by
  simp only [not_lt, not_or, not_not]
  constructor
  · intro h
    exact ⟨h.length_le, h.etherType_eq, ⟨h.protocol_eq, h.totalLen_eq⟩, h.checksum_eq,
      h.srcPort_eq, h.dstPort_eq, h.udpLen_eq⟩
  · rintro ⟨hlen, heth, ⟨hprotocol, htotal⟩, hsum, hsrc, hdst, hudp⟩
    exact ⟨hlen, heth, hprotocol, htotal, hsum, hsrc, hdst, hudp⟩

/-- The cleared checksum lies before the UDP header. -/
theorem clearChecksum_of_le {i : ℕ} (h : etherLen + ipv4Len ≤ i) :
    clearChecksum buf i = buf i := by
  refine store16_of_disjoint (Or.inr ?_)
  unfold etherLen ipv4Len at *
  omega

theorem udpHdr_load_clearChecksum :
    UDPHdr.load (clearChecksum buf) (etherLen + ipv4Len) =
      UDPHdr.load buf (etherLen + ipv4Len) :=
  UDPHdr.load_congr fun _ _ => clearChecksum_of_le (by omega)

theorem dhcpHdr_load_clearChecksum :
    DhcpHdr.load (clearChecksum buf) (etherLen + ipv4Len + udpLen) =
      DhcpHdr.load buf (etherLen + ipv4Len + udpLen) :=
  DhcpHdr.load_congr fun _ _ => clearChecksum_of_le (by omega)

/-- Writing the checksum back restores the buffer. -/
theorem restore_clearChecksum :
    store16 (clearChecksum buf) (etherLen + 10) (IPv4Hdr.load buf etherLen).checksum = buf :=
  store16_load16

theorem parseXid_of_passes (h : PassesChecks buf buflen) :
    parseXid buf buflen =
      (buf, some (htonl (DhcpHdr.load buf (etherLen + ipv4Len + udpLen)).xid)) := by
  obtain ⟨hlen, heth, hip, hsum, hudp⟩ := passesChecks_iff.mp h
  simp only [parseXid, restore_clearChecksum]
  rw [if_neg hlen, if_neg heth, if_neg hip, if_neg hsum, if_neg hudp]

/-- **What an accepted reply reports.** -/
theorem parseFrame_of_passes (h : PassesChecks buf buflen) {m : ParseMeta}
    (hxid : (DhcpHdr.load buf (etherLen + ipv4Len + udpLen)).xid = htonl m.xid) :
    parseFrame buf buflen m =
      (clearChecksum buf,
        parseOptions (fun i => buf (minRecvLen + i)) (buflen - minRecvLen)
          (buflen - minRecvLen) 0
          { m.reset with
            serverMac := (EthernetHdr.load buf 0).srcMAC
            serverIp := (DhcpHdr.load buf (etherLen + ipv4Len + udpLen)).siaddr
            offeredIp := (DhcpHdr.load buf (etherLen + ipv4Len + udpLen)).yiaddr }) := by
  obtain ⟨hlen, heth, hip, hsum, hudp⟩ := passesChecks_iff.mp h
  have hoptions : (fun i => clearChecksum buf (minRecvLen + i)) = fun i => buf (minRecvLen + i) :=
    funext fun i => clearChecksum_of_le (by unfold minRecvLen; omega)
  simp only [parseFrame, udpHdr_load_clearChecksum, dhcpHdr_load_clearChecksum, hoptions]
  rw [if_neg hlen, if_neg heth, if_neg hip, if_neg hsum, if_neg hudp,
    if_neg (not_not.mpr (show _ = htonl m.reset.xid from hxid))]

end Checks

/-! ## What a parse reads -/

section Reads

variable {buf buf' : ℕ → UInt8} {buflen : ℕ}

/-- The option loop reads the option bytes of the frame only. -/
theorem parseOptions_congr (opts opts' : ℕ → UInt8) {optsLen : ℕ}
    (h : ∀ i < optsLen, opts i = opts' i) :
    ∀ (fuel optIdx : ℕ) (m : ParseMeta),
      parseOptions opts optsLen fuel optIdx m = parseOptions opts' optsLen fuel optIdx m := by
  intro fuel
  induction fuel with
  | zero => intro optIdx m; rfl
  | succ fuel ih =>
      intro optIdx m
      simp only [parseOptions_succ]
      by_cases hin : optIdx < optsLen
      · rw [if_pos hin, if_pos hin, ← h optIdx hin]
        split_ifs with hpad hstop hlong hlong'
        · exact ih _ _
        · rfl
        · rfl
        · rw [h (optIdx + 1) (by omega)] at hlong
          exact absurd hlong hlong'
        · rw [h (optIdx + 1) (by omega)] at hlong
          exact absurd ‹_› hlong
        · have hlen : (opts (optIdx + 1)).toNat = (opts' (optIdx + 1)).toNat := by
            rw [h (optIdx + 1) (by omega)]
          rw [← hlen, ParseMeta.takeOption_congr m _ fun i hi => h (optIdx + 2 + i) (by omega)]
          exact ih _ _
      · rw [if_neg hin, if_neg hin]

/-- **A parse reads the received bytes only**, and none of the old meta data but `xid`. -/
theorem parseFrame_congr (h : ∀ i < buflen, buf i = buf' i) {m m' : ParseMeta}
    (hxid : m.xid = m'.xid) :
    (parseFrame buf buflen m).2 = (parseFrame buf' buflen m').2 := by
  have hreset : m.reset = m'.reset := by
    rw [ParseMeta.reset, ParseMeta.reset, hxid]
  by_cases hlen : buflen < minRecvLen
  · rw [parseFrame, parseFrame, hreset, if_pos hlen, if_pos hlen]
  have hlong : 282 ≤ buflen := Nat.le_of_not_lt hlen
  have heth : EthernetHdr.load buf 0 = EthernetHdr.load buf' 0 :=
    EthernetHdr.load_congr fun i hi => h _ (by unfold etherLen at hi; omega)
  have hip : IPv4Hdr.load buf etherLen = IPv4Hdr.load buf' etherLen :=
    IPv4Hdr.load_congr fun i hi => h _ (by unfold ipv4Len at hi; unfold etherLen; omega)
  have hcleared : ∀ i < buflen, clearChecksum buf i = clearChecksum buf' i := by
    intro i hi
    simp only [clearChecksum, store16]
    split_ifs
    all_goals first | rfl | exact h i hi
  have hcksum : ipCksum (clearChecksum buf) etherLen ipv4Len =
      ipCksum (clearChecksum buf') etherLen ipv4Len := by
    rw [ipCksum_eq_ipChecksum, ipCksum_eq_ipChecksum]
    exact ipChecksum_congr fun i hi =>
      hcleared _ (by unfold ipv4Len at hi; unfold etherLen; omega)
  have hudp : UDPHdr.load (clearChecksum buf) (etherLen + ipv4Len) =
      UDPHdr.load (clearChecksum buf') (etherLen + ipv4Len) :=
    UDPHdr.load_congr fun i hi =>
      hcleared _ (by unfold udpLen at hi; unfold etherLen ipv4Len; omega)
  have hfixed : ∀ i < 240, clearChecksum buf (etherLen + ipv4Len + udpLen + i) =
      clearChecksum buf' (etherLen + ipv4Len + udpLen + i) :=
    fun i hi => hcleared _ (by unfold etherLen ipv4Len udpLen; omega)
  have hid : (DhcpHdr.load (clearChecksum buf) (etherLen + ipv4Len + udpLen)).xid =
      (DhcpHdr.load (clearChecksum buf') (etherLen + ipv4Len + udpLen)).xid :=
    load32_congr (agree_shift hfixed (by decide))
  have hsiaddr : (DhcpHdr.load (clearChecksum buf) (etherLen + ipv4Len + udpLen)).siaddr =
      (DhcpHdr.load (clearChecksum buf') (etherLen + ipv4Len + udpLen)).siaddr :=
    loadBytes_congr (agree_shift hfixed (by decide))
  have hyiaddr : (DhcpHdr.load (clearChecksum buf) (etherLen + ipv4Len + udpLen)).yiaddr =
      (DhcpHdr.load (clearChecksum buf') (etherLen + ipv4Len + udpLen)).yiaddr :=
    loadBytes_congr (agree_shift hfixed (by decide))
  have hrest : ∀ i < buflen - minRecvLen, clearChecksum buf (minRecvLen + i) =
      clearChecksum buf' (minRecvLen + i) :=
    fun i hi => hcleared _ (by omega)
  have hoptions := parseOptions_congr (fun i => clearChecksum buf (minRecvLen + i))
    (fun i => clearChecksum buf' (minRecvLen + i)) hrest
  simp only [parseFrame, hreset, heth, hip, hcksum, hudp, hid, hsiaddr, hyiaddr, hoptions,
    if_neg hlen]
  split_ifs <;> rfl

end Reads

end BaremetalDhcp
