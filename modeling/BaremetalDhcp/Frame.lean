import BaremetalDhcp.Wire
import BaremetalDhcp.Lib.LittleEndian

/-!
# Frames

The packed headers of an Ethernet frame with a DHCP datagram, as `headers.h` declares them
for the kernel and again for the benchmark client.  Both sides cast a byte buffer to these
structs, so each header comes with the bytes it takes in memory (`bytes`) and with the values
a cast pointer reads (`load`); `load_of_holds` says that the second undoes the first.

Both processors are little-endian: a 16-bit field holds its value in network order, and the
macro `BE` of the kernel and `htons` of the client swap its bytes.

The two checksum functions, `ipChecksum` of the kernel and `ip_cksum` of the client, are
written differently; `ipCksum_eq_ipChecksum` shows that they agree on a header.
-/

namespace BaremetalDhcp

open LittleEndian

/-! ## Byte order -/

/-- The byte swap `BE` for 16-bit values. -/
def be16 (x : UInt16) : UInt16 := ((x &&& 0xFF00) >>> 8) ||| ((x &&& 0x00FF) <<< 8)

/-- `htons` and `ntohs` on a little-endian host. -/
def htons (x : UInt16) : UInt16 := be16 x

/-- `htonl` and `ntohl` on a little-endian host. -/
def htonl (x : UInt32) : UInt32 := be32 x

/-- A swapped word has its bytes in the other order. -/
theorem be16_load16 (mem : ℕ → UInt8) (p : ℕ) :
    be16 (load16 mem p) = ((mem p).toUInt16 <<< 8) ||| (mem (p + 1)).toUInt16 := by
  have hmask : ∀ k, (0xFF#16).getLsbD k = decide (k < 8) := by
    intro k
    rw [show 0xFF#16 = BitVec.setWidth 16 (BitVec.allOnes 8) from rfl, BitVec.getLsbD_setWidth,
      BitVec.getLsbD_allOnes]
    grind
  have h0 : (0x00FF : UInt16).toBitVec = 0xFF#16 := rfl
  have h1 : (0xFF00 : UInt16).toBitVec = 0xFF#16 <<< 8 := rfl
  have h8 : (8 : UInt16).toBitVec % 16 = 8#16 := rfl
  apply UInt16.eq_of_toBitVec_eq
  apply BitVec.eq_of_getLsbD_eq
  intro i hi
  simp only [be16, load16, UInt16.toBitVec_or, UInt16.toBitVec_and, UInt16.toBitVec_shiftRight,
    UInt16.toBitVec_shiftLeft, UInt8.toBitVec_toUInt16, h0, h1, h8, BitVec.shiftLeft_eq',
    BitVec.ushiftRight_eq', BitVec.reduceToNat, BitVec.getLsbD_or, BitVec.getLsbD_and,
    BitVec.getLsbD_shiftLeft, BitVec.getLsbD_ushiftRight, BitVec.getLsbD_setWidth, hmask]
  grind

/-- A word in network order. -/
theorem toNat_be16_load16 (mem : ℕ → UInt8) (p : ℕ) :
    (be16 (load16 mem p)).toNat = 256 * (mem p).toNat + (mem (p + 1)).toNat := by
  have hlow := (mem (p + 1)).toNat_lt
  have hhigh := (mem p).toNat_lt
  rw [be16_load16, UInt16.toNat_or, UInt16.toNat_shiftLeft, UInt8.toNat_toUInt16,
    UInt8.toNat_toUInt16]
  have hshift : (mem p).toNat <<< ((8 : UInt16).toNat % 16) % 2 ^ 16 = (mem p).toNat <<< 8 := by
    rw [show (8 : UInt16).toNat % 16 = 8 from rfl, Nat.shiftLeft_eq]
    exact Nat.mod_eq_of_lt (by omega)
  rw [hshift, ← Nat.shiftLeft_add_eq_or_of_lt hlow, Nat.shiftLeft_eq]
  omega
/-! ## Headers -/

/-- The array of `n` bytes at an address. -/
def loadBytes (mem : ℕ → UInt8) (p n : ℕ) : Bytes n := fun i => mem (p + i.val)

/-- `EthernetHdr`. -/
structure EthernetHdr where
  dstMAC : Bytes 6
  srcMAC : Bytes 6
  etherType : UInt16

/-- `IPv4Hdr`. -/
structure IPv4Hdr where
  versionIhl : UInt8
  tos : UInt8
  totalLen : UInt16
  ident : UInt16
  flags : UInt16
  ttl : UInt8
  protocol : UInt8
  checksum : UInt16
  srcIP : Bytes 4
  dstIP : Bytes 4

/-- `UDPHdr`. -/
structure UDPHdr where
  srcPort : UInt16
  dstPort : UInt16
  totalLen : UInt16
  checksum : UInt16

/-- `sizeof(EthernetHdr)`. -/
def etherLen : ℕ := 14

/-- `sizeof(IPv4Hdr)`. -/
def ipv4Len : ℕ := 20

/-- `sizeof(UDPHdr)`. -/
def udpLen : ℕ := 8

/-- `sizeof(DHCPHdr)`, the option array included. -/
def dhcpLen : ℕ := 552

namespace EthernetHdr

def bytes (h : EthernetHdr) : List UInt8 :=
  List.ofFn h.dstMAC ++ (List.ofFn h.srcMAC ++ bytes16 h.etherType)

def load (mem : ℕ → UInt8) (p : ℕ) : EthernetHdr where
  dstMAC := loadBytes mem p 6
  srcMAC := loadBytes mem (p + 6) 6
  etherType := load16 mem (p + 12)

end EthernetHdr

namespace IPv4Hdr

def bytes (h : IPv4Hdr) : List UInt8 :=
  [h.versionIhl, h.tos] ++ (bytes16 h.totalLen ++ (bytes16 h.ident ++ (bytes16 h.flags ++
    ([h.ttl, h.protocol] ++ (bytes16 h.checksum ++ (List.ofFn h.srcIP ++ List.ofFn h.dstIP))))))

def load (mem : ℕ → UInt8) (p : ℕ) : IPv4Hdr where
  versionIhl := mem p
  tos := mem (p + 1)
  totalLen := load16 mem (p + 2)
  ident := load16 mem (p + 4)
  flags := load16 mem (p + 6)
  ttl := mem (p + 8)
  protocol := mem (p + 9)
  checksum := load16 mem (p + 10)
  srcIP := loadBytes mem (p + 12) 4
  dstIP := loadBytes mem (p + 16) 4

end IPv4Hdr

namespace UDPHdr

def bytes (h : UDPHdr) : List UInt8 :=
  bytes16 h.srcPort ++ (bytes16 h.dstPort ++ (bytes16 h.totalLen ++ bytes16 h.checksum))

def load (mem : ℕ → UInt8) (p : ℕ) : UDPHdr where
  srcPort := load16 mem p
  dstPort := load16 mem (p + 2)
  totalLen := load16 mem (p + 4)
  checksum := load16 mem (p + 6)

end UDPHdr

namespace DhcpHdr

def bytes (h : DhcpHdr) : List UInt8 :=
  [h.op, h.htype, h.hlen, h.hops] ++ (bytes32 h.xid ++ (bytes16 h.secs ++ (bytes16 h.flags ++
    (List.ofFn h.ciaddr ++ (List.ofFn h.yiaddr ++ (List.ofFn h.siaddr ++ (List.ofFn h.giaddr ++
      (List.ofFn h.chaddr ++ (List.ofFn h.sname ++ (List.ofFn h.file ++ (bytes32 h.magic ++
        List.ofFn h.options)))))))))))

def load (mem : ℕ → UInt8) (p : ℕ) : DhcpHdr where
  op := mem p
  htype := mem (p + 1)
  hlen := mem (p + 2)
  hops := mem (p + 3)
  xid := load32 mem (p + 4)
  secs := load16 mem (p + 8)
  flags := load16 mem (p + 10)
  ciaddr := loadBytes mem (p + 12) 4
  yiaddr := loadBytes mem (p + 16) 4
  siaddr := loadBytes mem (p + 20) 4
  giaddr := loadBytes mem (p + 24) 4
  chaddr := loadBytes mem (p + 28) 16
  sname := loadBytes mem (p + 44) 64
  file := loadBytes mem (p + 108) 128
  magic := load32 mem (p + 236)
  options := loadBytes mem (p + 240) 312

end DhcpHdr

@[simp] theorem EthernetHdr.length_bytes (h : EthernetHdr) : h.bytes.length = etherLen := by
  simp only [EthernetHdr.bytes, List.length_append, List.length_ofFn, length_bytes16]
  rfl

@[simp] theorem IPv4Hdr.length_bytes (h : IPv4Hdr) : h.bytes.length = ipv4Len := by
  simp only [IPv4Hdr.bytes, List.length_append, List.length_ofFn, length_bytes16,
    List.length_cons, List.length_nil]
  rfl

@[simp] theorem UDPHdr.length_bytes (h : UDPHdr) : h.bytes.length = udpLen := by
  simp only [UDPHdr.bytes, List.length_append, length_bytes16]
  rfl

@[simp] theorem DhcpHdr.length_bytes (h : DhcpHdr) : h.bytes.length = dhcpLen := by
  simp only [DhcpHdr.bytes, List.length_append, List.length_ofFn, length_bytes16, length_bytes32,
    List.length_cons, List.length_nil]
  rfl

/-! ## Reading back what was written -/

section Load

variable {mem : ℕ → UInt8} {p : ℕ}

theorem loadBytes_of_holds {n : ℕ} {f : Bytes n} (h : Holds mem p (List.ofFn f)) :
    loadBytes mem p n = f := by
  funext i
  have hread := h i.val (by simp)
  rw [loadBytes, hread, List.getD_eq_getElem _ _ (by simp), List.getElem_ofFn]

theorem holds_pair {a b : UInt8} (h : Holds mem p [a, b]) : mem p = a ∧ mem (p + 1) = b :=
  ⟨h 0 (by simp), h 1 (by simp)⟩

theorem EthernetHdr.load_of_holds {h : EthernetHdr} (hold : Holds mem p h.bytes) :
    EthernetHdr.load mem p = h := by
  simp only [EthernetHdr.bytes, holds_append, List.length_ofFn, Nat.add_assoc,
    Nat.reduceAdd] at hold
  obtain ⟨hdst, hsrc, htype⟩ := hold
  rw [EthernetHdr.load, loadBytes_of_holds hdst, loadBytes_of_holds hsrc, load16_of_reads htype]

theorem IPv4Hdr.load_of_holds {h : IPv4Hdr} (hold : Holds mem p h.bytes) :
    IPv4Hdr.load mem p = h := by
  simp only [IPv4Hdr.bytes, holds_append, List.length_ofFn, length_bytes16, List.length_cons,
    List.length_nil, Nat.zero_add, Nat.add_assoc, Nat.reduceAdd] at hold
  obtain ⟨hfirst, htotal, hident, hflags, hmiddle, hsum, hsrc, hdst⟩ := hold
  obtain ⟨hversion, htos⟩ := holds_pair hfirst
  obtain ⟨httl, hprotocol⟩ := holds_pair hmiddle
  rw [IPv4Hdr.load, hversion, htos, load16_of_reads htotal, load16_of_reads hident,
    load16_of_reads hflags, httl, hprotocol, load16_of_reads hsum, loadBytes_of_holds hsrc,
    loadBytes_of_holds hdst]

theorem UDPHdr.load_of_holds {h : UDPHdr} (hold : Holds mem p h.bytes) :
    UDPHdr.load mem p = h := by
  simp only [UDPHdr.bytes, holds_append, length_bytes16, Nat.add_assoc, Nat.reduceAdd] at hold
  obtain ⟨hsrc, hdst, htotal, hsum⟩ := hold
  rw [UDPHdr.load, load16_of_reads hsrc, load16_of_reads hdst, load16_of_reads htotal,
    load16_of_reads hsum]

theorem DhcpHdr.load_of_holds {h : DhcpHdr} (hold : Holds mem p h.bytes) :
    DhcpHdr.load mem p = h := by
  simp only [DhcpHdr.bytes, holds_append, List.length_ofFn, length_bytes16, length_bytes32,
    List.length_cons, List.length_nil, Nat.zero_add, Nat.add_assoc, Nat.reduceAdd] at hold
  obtain ⟨hfirst, hxid, hsecs, hflags, hci, hyi, hsi, hgi, hch, hsname, hfile, hmagic, hopts⟩ :=
    hold
  have hop : mem p = h.op := hfirst 0 (by simp)
  have hhtype : mem (p + 1) = h.htype := hfirst 1 (by simp)
  have hhlen : mem (p + 2) = h.hlen := hfirst 2 (by simp)
  have hhops : mem (p + 3) = h.hops := hfirst 3 (by simp)
  rw [DhcpHdr.load, hop, hhtype, hhlen, hhops, load32_of_reads hxid, load16_of_reads hsecs,
    load16_of_reads hflags, loadBytes_of_holds hci, loadBytes_of_holds hyi,
    loadBytes_of_holds hsi, loadBytes_of_holds hgi, loadBytes_of_holds hch,
    loadBytes_of_holds hsname, loadBytes_of_holds hfile, load32_of_reads hmagic,
    loadBytes_of_holds hopts]

/-- `ntohl` of four loaded bytes reads them most significant first. -/
theorem htonl_load32 (mem : ℕ → UInt8) (p : ℕ) :
    htonl (load32 mem p) = ipToUint32 (mem p) (mem (p + 1)) (mem (p + 2)) (mem (p + 3)) := by
  have h8 : (8 : UInt32).toBitVec % 32 = 8#32 := rfl
  have h16 : (16 : UInt32).toBitVec % 32 = 16#32 := rfl
  have h24 : (24 : UInt32).toBitVec % 32 = 24#32 := rfl
  apply UInt32.eq_of_toBitVec_eq
  apply BitVec.eq_of_getLsbD_eq
  intro i hi
  rw [htonl, getLsbD_be32 _ hi]
  simp only [load32, ipToUint32, UInt32.toBitVec_or, UInt32.toBitVec_shiftLeft,
    UInt8.toBitVec_toUInt32, h8, h16, h24, BitVec.shiftLeft_eq', BitVec.reduceToNat,
    BitVec.getLsbD_or, BitVec.getLsbD_shiftLeft, BitVec.getLsbD_setWidth]
  grind

/-! ## What a cast pointer reads -/

section Congr

variable {mem' : ℕ → UInt8} {size : ℕ}

/-- A window into a region on which two memories agree. -/
theorem agree_shift (h : ∀ i < size, mem (p + i) = mem' (p + i)) {k n : ℕ} (hk : k + n ≤ size) :
    ∀ i < n, mem (p + k + i) = mem' (p + k + i) := by
  intro i hi
  rw [Nat.add_assoc]
  exact h (k + i) (by omega)

theorem loadBytes_congr {n : ℕ} (h : ∀ i < n, mem (p + i) = mem' (p + i)) :
    loadBytes mem p n = loadBytes mem' p n :=
  funext fun i => h i.val i.isLt

theorem EthernetHdr.load_congr (h : ∀ i < etherLen, mem (p + i) = mem' (p + i)) :
    EthernetHdr.load mem p = EthernetHdr.load mem' p := by
  have hdst : loadBytes mem p 6 = loadBytes mem' p 6 :=
    loadBytes_congr fun i hi => h i (hi.trans (by decide))
  have hsrc : loadBytes mem (p + 6) 6 = loadBytes mem' (p + 6) 6 :=
    loadBytes_congr (agree_shift h (by decide))
  have htype : load16 mem (p + 12) = load16 mem' (p + 12) :=
    load16_congr (agree_shift h (by decide))
  rw [EthernetHdr.load, EthernetHdr.load, hdst, hsrc, htype]

theorem IPv4Hdr.load_congr (h : ∀ i < ipv4Len, mem (p + i) = mem' (p + i)) :
    IPv4Hdr.load mem p = IPv4Hdr.load mem' p := by
  have hword : ∀ k, k + 2 ≤ ipv4Len → load16 mem (p + k) = load16 mem' (p + k) :=
    fun k hk => load16_congr (agree_shift h hk)
  have hbytes : ∀ k, k + 4 ≤ ipv4Len → loadBytes mem (p + k) 4 = loadBytes mem' (p + k) 4 :=
    fun k hk => loadBytes_congr (agree_shift h hk)
  have hversion : mem p = mem' p := h 0 (by decide)
  rw [IPv4Hdr.load, IPv4Hdr.load, hversion, h 1 (by decide), hword 2 (by decide),
    hword 4 (by decide), hword 6 (by decide), h 8 (by decide), h 9 (by decide),
    hword 10 (by decide), hbytes 12 (by decide), hbytes 16 (by decide)]

theorem UDPHdr.load_congr (h : ∀ i < udpLen, mem (p + i) = mem' (p + i)) :
    UDPHdr.load mem p = UDPHdr.load mem' p := by
  have hword : ∀ k, k + 2 ≤ udpLen → load16 mem (p + k) = load16 mem' (p + k) :=
    fun k hk => load16_congr (agree_shift h hk)
  rw [UDPHdr.load, UDPHdr.load, hword 2 (by decide), hword 4 (by decide), hword 6 (by decide),
    show load16 mem p = load16 mem' p from hword 0 (by decide)]

theorem DhcpHdr.load_congr (h : ∀ i < dhcpLen, mem (p + i) = mem' (p + i)) :
    DhcpHdr.load mem p = DhcpHdr.load mem' p := by
  have hbytes : ∀ k n, k + n ≤ dhcpLen → loadBytes mem (p + k) n = loadBytes mem' (p + k) n :=
    fun k n hk => loadBytes_congr (agree_shift h hk)
  have h16 : ∀ k, k + 2 ≤ dhcpLen → load16 mem (p + k) = load16 mem' (p + k) :=
    fun k hk => load16_congr (agree_shift h hk)
  have h32 : ∀ k, k + 4 ≤ dhcpLen → load32 mem (p + k) = load32 mem' (p + k) :=
    fun k hk => load32_congr (agree_shift h hk)
  have hop : mem p = mem' p := h 0 (by decide)
  simp only [DhcpHdr.load, hop, h 1 (by decide), h 2 (by decide), h 3 (by decide),
    h32 4 (by decide), h16 8 (by decide), h16 10 (by decide), hbytes 12 4 (by decide),
    hbytes 16 4 (by decide), hbytes 20 4 (by decide), hbytes 24 4 (by decide),
    hbytes 28 16 (by decide), hbytes 44 64 (by decide), hbytes 108 128 (by decide),
    h32 236 (by decide), hbytes 240 312 (by decide)]

end Congr

/-- A store elsewhere does not touch a held string. -/
theorem holds_store16_of_disjoint {bytes : List UInt8} {a : ℕ} {v : UInt16}
    (h : Holds mem p bytes) (hapart : p + bytes.length ≤ a ∨ a + 2 ≤ p) :
    Holds (store16 mem a v) p bytes := by
  intro i hi
  rw [store16_of_disjoint (by omega)]
  exact h i hi

/-- A store to the checksum of a header in memory changes that field. -/
theorem IPv4Hdr.holds_store_checksum {h : IPv4Hdr} (hold : Holds mem p h.bytes) (v : UInt16) :
    Holds (store16 mem (p + 10) v) p { h with checksum := v }.bytes := by
  simp only [IPv4Hdr.bytes, holds_append, List.length_ofFn, length_bytes16, List.length_cons,
    List.length_nil, Nat.zero_add, Nat.add_assoc, Nat.reduceAdd] at hold ⊢
  obtain ⟨hfirst, htotal, hident, hflags, hmiddle, -, hsrc, hdst⟩ := hold
  have hbefore : ∀ {k : ℕ} {bytes : List UInt8}, Holds mem (p + k) bytes →
      k + bytes.length ≤ 10 → Holds (store16 mem (p + 10) v) (p + k) bytes :=
    fun hk hle => holds_store16_of_disjoint hk (Or.inl (by omega))
  have hbehind : ∀ {k : ℕ} {bytes : List UInt8}, Holds mem (p + k) bytes → 12 ≤ k →
      Holds (store16 mem (p + 10) v) (p + k) bytes :=
    fun hk hle => holds_store16_of_disjoint hk (Or.inr (by omega))
  exact ⟨hbefore (k := 0) hfirst (by simp), hbefore htotal (by simp), hbefore hident (by simp),
    hbefore hflags (by simp), hbefore hmiddle (by simp), fun i hi => store16_reads hi,
    hbehind hsrc (by decide), hbehind hdst (by decide)⟩

end Load

/-! ## The header checksum -/

/-- The loop `while (sum >> 16) sum = (sum & 0xFFFF) + (sum >> 16)`. -/
def carryLoop : ℕ → UInt32 → UInt32
  | 0, sum => sum
  | fuel + 1, sum =>
      if sum >>> 16 ≠ 0 then carryLoop fuel ((sum &&& (0xFFFF : UInt32)) + (sum >>> 16)) else sum

/-- The carries folded into the low 16 bits; two iterations are enough. -/
def foldCarries (sum : UInt32) : UInt32 := carryLoop 2 sum

/-- `ipChecksum`, on the header at an address. -/
def ipChecksum (mem : ℕ → UInt8) (ip : ℕ) : UInt16 :=
  let sum := (List.range (ipv4Len / 2)).foldl
    (fun sum i => sum + (load16 mem (ip + 2 * i)).toUInt32) 0
  ~~~ (foldCarries sum).toUInt16

/-- The loop of `ip_cksum`: `len` bytes from `p` on remain to be added. -/
def cksumLoop (mem : ℕ → UInt8) : ℕ → ℕ → UInt32 → UInt32
  | 0, _, cksum => cksum
  | 1, p, cksum => cksum + (mem p).toUInt32
  | len + 2, p, cksum => cksumLoop mem len (p + 2) (cksum + (load16 mem p).toUInt32)

/-- `ip_cksum`. -/
def ipCksum (mem : ℕ → UInt8) (data len : ℕ) : UInt16 :=
  (~~~ foldCarries (cksumLoop mem len data 0)).toUInt16

/-- One iteration on numbers. -/
theorem toNat_carry (sum : UInt32) :
    ((sum &&& (0xFFFF : UInt32)) + (sum >>> 16)).toNat =
      sum.toNat % 2 ^ 16 + sum.toNat / 2 ^ 16 := by
  have hlow : (sum &&& 0xFFFF).toNat = sum.toNat % 2 ^ 16 := by
    rw [UInt32.toNat_and]
    exact Nat.and_two_pow_sub_one_eq_mod _ 16
  have hhigh : (sum >>> 16).toNat = sum.toNat / 2 ^ 16 := by
    rw [UInt32.toNat_shiftRight]
    exact Nat.shiftRight_eq_div_pow _ 16
  have hlt := sum.toNat_lt
  rw [UInt32.toNat_add, hlow, hhigh, Nat.mod_eq_of_lt (by omega)]

/-- After two iterations the loop has ended. -/
theorem foldCarries_done (sum : UInt32) : foldCarries sum >>> 16 = 0 := by
  have hdone : ∀ x : UInt32, x >>> 16 = 0 ↔ x.toNat < 2 ^ 16 := by
    intro x
    rw [← UInt32.toNat_inj, UInt32.toNat_shiftRight]
    show x.toNat >>> 16 = 0 ↔ _
    rw [Nat.shiftRight_eq_div_pow]
    omega
  have hlt := sum.toNat_lt
  unfold foldCarries carryLoop carryLoop carryLoop
  split_ifs with hfirst hsecond
  · rw [hdone, toNat_carry, toNat_carry]
    omega
  · exact not_not.mp hsecond
  · exact not_not.mp hfirst

/-- **The two functions agree** on the 20 bytes of a header. -/
theorem ipCksum_eq_ipChecksum (mem : ℕ → UInt8) (p : ℕ) :
    ipCksum mem p ipv4Len = ipChecksum mem p := by
  have hsum : cksumLoop mem ipv4Len p 0 = (List.range (ipv4Len / 2)).foldl
      (fun sum i => sum + (load16 mem (p + 2 * i)).toUInt32) 0 := rfl
  rw [ipCksum, ipChecksum, hsum, UInt32.toUInt16_not]

/-- A checksum reads the 20 bytes of its header only. -/
theorem ipChecksum_congr {mem mem' : ℕ → UInt8} {p p' : ℕ}
    (h : ∀ i < ipv4Len, mem (p + i) = mem' (p' + i)) : ipChecksum mem p = ipChecksum mem' p' := by
  have hword : ∀ i ∈ List.range (ipv4Len / 2), load16 mem (p + 2 * i) =
      load16 mem' (p' + 2 * i) := by
    intro i hi
    have hlt : i < 10 := List.mem_range.mp hi
    refine load16_congr fun j hj => ?_
    rw [Nat.add_assoc, Nat.add_assoc]
    refine h (2 * i + j) ?_
    unfold ipv4Len
    omega
  have hsum : ∀ acc : UInt32, (List.range (ipv4Len / 2)).foldl
      (fun sum i => sum + (load16 mem (p + 2 * i)).toUInt32) acc =
        (List.range (ipv4Len / 2)).foldl
          (fun sum i => sum + (load16 mem' (p' + 2 * i)).toUInt32) acc := by
    intro acc
    refine List.foldl_ext _ _ _ fun sum i hi => ?_
    rw [hword i hi]
  rw [ipChecksum, ipChecksum, hsum]

end BaremetalDhcp
