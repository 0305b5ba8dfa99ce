import BaremetalDhcp.BenchMailbox

/-!
# The dispatcher and the worker agree on a frame

The benchmark client looks at a received frame twice.  `recv_manager_thread` calls
`parse_xid` to find the client the frame is for, and the worker of that client calls
`parse_frame` on the bytes it was handed.  The two functions repeat the same tests without
sharing them.

* `parseFrameExit` — the `return` at which `parse_frame` ends.  It is the cascade of
  `parseFrame` with the results replaced by the names of the tests.
* `validators_agree` — `parse_xid` finds `xid` exactly when `parse_frame`, told to expect
  `xid`, gets past its header checks.
* `received_iff_parsed` — so a frame reaches a mailbox exactly when the worker behind it
  takes it.

Both functions overwrite the checksum of the buffer while they verify it.  `parse_xid` writes
it back on every path that has cleared it, which is why the worker still sees the checksum of
the sender.
-/

namespace BaremetalDhcp

/-! ## The ways out of `parse_frame` -/

/-- The `return` statements of `parse_frame`, by the test that leads there. -/
inductive ParseExit where
  | tooShort
  | notIPv4
  | notThisLength
  | badChecksum
  | notAReply
  | otherXid
  | parsed
  deriving DecidableEq, Repr

/-- Where `parse_frame` returns; `parsed` stands for the end of the function. -/
def parseFrameExit (buf : ℕ → UInt8) (buflen : ℕ) (m : ParseMeta) : ParseExit :=
  if buflen < minRecvLen then .tooShort
  else
    let eth := EthernetHdr.load buf 0
    if eth.etherType ≠ htons 0x0800 then .notIPv4
    else
      let ip := IPv4Hdr.load buf etherLen
      if ip.protocol ≠ 17 ∨ ip.totalLen ≠ htons (UInt16.ofNat (ipv4Len + udpLenOf buflen)) then
        .notThisLength
      else
        let buf := clearChecksum buf
        if ip.checksum ≠ ipCksum buf etherLen ipv4Len then .badChecksum
        else
          let udp := UDPHdr.load buf (etherLen + ipv4Len)
          if udp.srcPort ≠ htons 67 ∨ udp.dstPort ≠ htons 68 ∨
              udp.totalLen ≠ htons (UInt16.ofNat (udpLenOf buflen)) then
            .notAReply
          else
            let dhcpHdr := DhcpHdr.load buf (etherLen + ipv4Len + udpLen)
            if dhcpHdr.xid ≠ htonl m.xid then .otherXid else .parsed

section Exits

variable {buf : ℕ → UInt8} {buflen : ℕ} {m : ParseMeta}

/-- **What it takes to get past the header checks.** -/
theorem parseFrameExit_eq_parsed_iff :
    parseFrameExit buf buflen m = .parsed ↔
      PassesChecks buf buflen ∧
        (DhcpHdr.load buf (etherLen + ipv4Len + udpLen)).xid = htonl m.xid := by
  simp only [parseFrameExit, udpHdr_load_clearChecksum, dhcpHdr_load_clearChecksum]
  constructor
  · intro h
    split_ifs at h with hlen heth hip hsum hudp hxid
    exact ⟨passesChecks_iff.mpr ⟨hlen, heth, hip, hsum, hudp⟩, not_not.mp hxid⟩
  · rintro ⟨hpasses, hxid⟩
    obtain ⟨hlen, heth, hip, hsum, hudp⟩ := passesChecks_iff.mp hpasses
    rw [if_neg hlen, if_neg heth, if_neg hip, if_neg hsum, if_neg hudp,
      if_neg (not_not.mpr hxid)]

/-- **A frame that is turned away reports nothing**: only the reset of the first lines has
happened. -/
theorem parseFrame_of_exit_ne (h : parseFrameExit buf buflen m ≠ .parsed) :
    (parseFrame buf buflen m).2 = m.reset := by
  have hxid : m.reset.xid = m.xid := rfl
  simp only [parseFrameExit] at h
  simp only [parseFrame, hxid]
  split_ifs at h ⊢
  · rfl
  · rfl
  · rfl
  · rfl
  · rfl
  · rfl
  · exact absurd rfl h

end Exits

/-! ## The dispatcher -/

section Dispatcher

variable {buf : ℕ → UInt8} {buflen : ℕ}

/-- `parse_xid` gives the buffer back as it found it. -/
theorem parseXid_fst : (parseXid buf buflen).1 = buf := by
  simp only [parseXid, restore_clearChecksum]
  split_ifs
  all_goals rfl

/-- A frame that fails a test has no `xid`. -/
theorem parseXid_eq_none (h : ¬ PassesChecks buf buflen) : (parseXid buf buflen).2 = none := by
  simp only [parseXid, restore_clearChecksum]
  split_ifs with hlen heth hip hsum hudp
  · rfl
  · rfl
  · rfl
  · rfl
  · rfl
  · exact absurd (passesChecks_iff.mpr ⟨hlen, heth, hip, hsum, hudp⟩) h

theorem parseXid_eq_some_iff {xid : UInt32} :
    (parseXid buf buflen).2 = some xid ↔
      PassesChecks buf buflen ∧
        (DhcpHdr.load buf (etherLen + ipv4Len + udpLen)).xid = htonl xid := by
  by_cases hpasses : PassesChecks buf buflen
  · rw [parseXid_of_passes hpasses, Option.some.injEq, and_iff_right hpasses]
    constructor
    · rintro rfl
      exact (be32_be32 _).symm
    · intro hxid
      rw [hxid]
      exact be32_be32 xid
  · rw [parseXid_eq_none hpasses]
    constructor
    · intro hnone
      cases hnone
    · intro h
      exact absurd h.1 hpasses

end Dispatcher

/-! ## Agreement -/

/-- `yiaddr` and the source MAC of the frame. -/
structure ReportsHeaders (buf : ℕ → UInt8) (report : ParseMeta) : Prop where
  offeredIp_eq : report.offeredIp = (DhcpHdr.load buf (etherLen + ipv4Len + udpLen)).yiaddr
  serverMac_eq : report.serverMac = (EthernetHdr.load buf 0).srcMAC

/-- `DHCP_UNKNOWN` and zeroed addresses. -/
structure ReportsNothing (report : ParseMeta) : Prop where
  dhcpType_eq : report.dhcpType = 0
  leaseTime_eq : report.leaseTime = 0
  offeredIp_eq : report.offeredIp = fun _ => 0
  serverIp_eq : report.serverIp = fun _ => 0
  subnetMask_eq : report.subnetMask = fun _ => 0
  serverMac_eq : report.serverMac = fun _ => 0

theorem reportsNothing_reset (m : ParseMeta) : ReportsNothing m.reset :=
  ⟨rfl, rfl, rfl, rfl, rfl, rfl⟩

/-- The `switch` leaves what the headers reported alone. -/
theorem ParseMeta.takeOption_headers (m : ParseMeta) (optType : UInt8) (optLen : ℕ)
    (data : ℕ → UInt8) :
    (m.takeOption optType optLen data).offeredIp = m.offeredIp ∧
      (m.takeOption optType optLen data).serverMac = m.serverMac := by
  unfold ParseMeta.takeOption
  split_ifs
  all_goals exact ⟨rfl, rfl⟩

/-- And so does the option loop. -/
theorem parseOptions_headers (dhcpOptions : ℕ → UInt8) (optsLen : ℕ) :
    ∀ (fuel optIdx : ℕ) (m : ParseMeta),
      (parseOptions dhcpOptions optsLen fuel optIdx m).offeredIp = m.offeredIp ∧
        (parseOptions dhcpOptions optsLen fuel optIdx m).serverMac = m.serverMac := by
  intro fuel
  induction fuel with
  | zero =>
      intro optIdx m
      exact ⟨rfl, rfl⟩
  | succ fuel ih =>
      intro optIdx m
      simp only [parseOptions_succ]
      split_ifs
      · exact ih _ _
      · exact ⟨rfl, rfl⟩
      · exact ⟨rfl, rfl⟩
      · have htake := m.takeOption_headers (dhcpOptions optIdx)
          (dhcpOptions (optIdx + 1)).toNat fun i => dhcpOptions (optIdx + 2 + i)
        exact ⟨(ih _ _).1.trans htake.1, (ih _ _).2.trans htake.2⟩
      · exact ⟨rfl, rfl⟩

/-- **The dispatcher's and the worker's validators agree**, for every buffer and length:
`parse_xid` changes no byte of the buffer, it returns an `xid` exactly when `parse_frame`
gets past its header checks with that `xid` expected, and with any other one `parse_frame`
reports nothing. -/
theorem validators_agree (buf : ℕ → UInt8) (buflen : ℕ) :
    (parseXid buf buflen).1 = buf ∧
      ∀ m : ParseMeta,
        ((parseXid buf buflen).2 = some m.xid ↔ parseFrameExit buf buflen m = .parsed) ∧
        (parseFrameExit buf buflen m = .parsed →
          ReportsHeaders buf (parseFrame buf buflen m).2) ∧
        ((parseXid buf buflen).2 ≠ some m.xid →
          ReportsNothing (parseFrame buf buflen m).2) := by
  refine ⟨parseXid_fst, fun m => ?_⟩
  have hagree : (parseXid buf buflen).2 = some m.xid ↔
      parseFrameExit buf buflen m = .parsed := by
    rw [parseXid_eq_some_iff, parseFrameExit_eq_parsed_iff]
  refine ⟨hagree, fun hparsed => ?_, fun hother => ?_⟩
  · obtain ⟨hpasses, hxid⟩ := parseFrameExit_eq_parsed_iff.mp hparsed
    rw [parseFrame_of_passes hpasses hxid]
    have hheaders := parseOptions_headers (fun i => buf (minRecvLen + i)) (buflen - minRecvLen)
      (buflen - minRecvLen) 0
    refine ⟨?_, ?_⟩
    · rw [(hheaders _).1]
    · rw [(hheaders _).2]
  · rw [parseFrame_of_exit_ne fun hparsed => hother (hagree.mpr hparsed)]
    exact reportsNothing_reset m

/-- **A frame reaches a mailbox exactly when the worker behind it takes it.** -/
theorem received_iff_parsed (m : ParseMeta) (frame : List UInt8) :
    received m.xid frame = some (frame.take recvLen) ↔
      parseFrameExit (bytesAt (frame.take recvLen)) (frame.take recvLen).length m = .parsed := by
  rw [parseFrameExit_eq_parsed_iff, ← parseXid_eq_some_iff, received]
  simp only [ite_eq_left_iff, reduceCtorEq, imp_false, not_not]

/-- In particular a frame that arrives whole. -/
theorem parsed_of_received {m : ParseMeta} {frame : List UInt8}
    (h : received m.xid frame = some frame) :
    parseFrameExit (bytesAt frame) frame.length m = .parsed := by
  have htake : frame.take recvLen = frame := by
    simp only [received] at h
    split_ifs at h
    exact Option.some.inj h
  have hparsed := (received_iff_parsed m frame).mp (by rw [htake]; exact h)
  rwa [htake] at hparsed

end BaremetalDhcp
