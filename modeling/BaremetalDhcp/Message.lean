import Mathlib.Data.Fin.VecNotation
import BaremetalDhcp.Lib.LittleEndian

/-!
# DHCP messages and the option area

The shared half of `dhcp-lib/dhcp_server.c`: the working message
`dhcp_message_t`, the two walkers over its option area (`dhcp_add_option`,
`dhcp_get_option`) and the three reply builders.

## Reading conventions

* A C array of `n` bytes is a function `Fin n → UInt8` (`Bytes n`); every
  integer field keeps the width the source gives it.
* `dhcp_get_option` tests the byte under its cursor *before* it tests the cursor
  against the end of the array, and an option code in the last slot has its
  length byte one past the end.  Such reads return whatever lies behind the
  message in memory, so the reader takes that memory as an argument
  (`behind`) and no result below assumes anything about it.
* A pointer into the option area is its index, and the null pointer is `none`.
* The walkers advance by at least one byte per iteration and stop at index 308,
  so 309 iterations always suffice; `getOptionLoop_fuel` says so.
-/

namespace BaremetalDhcp

open LittleEndian

/-- A C array of `n` bytes. -/
abbrev Bytes (n : ℕ) := Fin n → UInt8

/-- The option array has a first byte. -/
instance neZero_optionsLen : NeZero 308 := ⟨by decide⟩

/-! ## Constants -/

def dhcpDiscover : UInt8 := 1
def dhcpOffer : UInt8 := 2
def dhcpRequest : UInt8 := 3
def dhcpDecline : UInt8 := 4
def dhcpAck : UInt8 := 5
def dhcpNak : UInt8 := 6

def dhcpOptPad : UInt8 := 0
def dhcpOptSubnetMask : UInt8 := 1
def dhcpOptRouter : UInt8 := 3
def dhcpOptDnsServer : UInt8 := 6
def dhcpOptRequestedIp : UInt8 := 50
def dhcpOptLeaseTime : UInt8 := 51
def dhcpOptMessageType : UInt8 := 53
def dhcpOptServerId : UInt8 := 54
def dhcpOptEnd : UInt8 := 255

def dhcpMagicCookie : UInt32 := 0x63825363

/-! ## Data -/

/-- `dhcp_message_t`: the in-memory message, addresses in host order. -/
@[ext]
structure DhcpMessage where
  op : UInt8
  htype : UInt8
  hlen : UInt8
  hops : UInt8
  xid : UInt32
  secs : UInt16
  flags : UInt16
  ciaddr : UInt32
  yiaddr : UInt32
  siaddr : UInt32
  giaddr : UInt32
  chaddr : Bytes 16
  sname : Bytes 64
  file : Bytes 128
  magicCookie : UInt32
  options : Bytes 308

/-- `kmemset(msg, 0, sizeof(dhcp_message_t))`. -/
def DhcpMessage.zero : DhcpMessage where
  op := 0
  htype := 0
  hlen := 0
  hops := 0
  xid := 0
  secs := 0
  flags := 0
  ciaddr := 0
  yiaddr := 0
  siaddr := 0
  giaddr := 0
  chaddr := fun _ => 0
  sname := fun _ => 0
  file := fun _ => 0
  magicCookie := 0
  options := fun _ => 0

/-- `dhcp_config_t`, addresses in host order. -/
structure DhcpConfig where
  serverIp : UInt32
  subnetMask : UInt32
  gatewayIp : UInt32
  dnsIp : UInt32
  poolStart : UInt32
  poolEnd : UInt32
  leaseTime : UInt32

/-- `dhcp_server_t`: the configuration and the pool of the selected backend. -/
structure DhcpServer (P : Type) where
  config : DhcpConfig
  pool : P

/-! ## Byte order helpers -/

/-- `uint32_to_ip`: the four bytes of an address, most significant first. -/
def uint32ToIp (ip : UInt32) : List UInt8 :=
  [((ip >>> 24) &&& 0xFF).toUInt8, ((ip >>> 16) &&& 0xFF).toUInt8,
    ((ip >>> 8) &&& 0xFF).toUInt8, (ip &&& 0xFF).toUInt8]

/-- `ip_to_uint32`: four bytes, most significant first, as one address. -/
def ipToUint32 (a b c d : UInt8) : UInt32 :=
  (a.toUInt32 <<< 24) ||| (b.toUInt32 <<< 16) ||| (c.toUInt32 <<< 8) ||| d.toUInt32

@[simp] theorem length_uint32ToIp (ip : UInt32) : (uint32ToIp ip).length = 4 := rfl

/-- Splitting an address into bytes and reassembling it is the identity. -/
theorem ipToUint32_uint32ToIp (ip : UInt32) :
    ipToUint32 ((uint32ToIp ip).getD 0 0) ((uint32ToIp ip).getD 1 0)
      ((uint32ToIp ip).getD 2 0) ((uint32ToIp ip).getD 3 0) = ip := by
  simp only [ipToUint32, uint32ToIp, List.getD_cons_zero, List.getD_cons_succ,
    toUInt8_and_mask]
  -- the same bytes, or-ed from the other end
  have hreverse : ∀ a b c d : UInt32, a ||| b ||| c ||| d = d ||| c ||| b ||| a := by
    intro a b c d
    ac_rfl
  rw [hreverse]
  exact assemble32 ip

/-- So is assembling four bytes and splitting them again. -/
theorem uint32ToIp_ipToUint32 (a b c d : UInt8) :
    uint32ToIp (ipToUint32 a b c d) = [a, b, c, d] := by
  have h8 : (8 : UInt32).toBitVec % 32 = 8#32 := rfl
  have h16 : (16 : UInt32).toBitVec % 32 = 16#32 := rfl
  have h24 : (24 : UInt32).toBitVec % 32 = 24#32 := rfl
  simp only [uint32ToIp, toUInt8_and_mask, List.cons.injEq, and_true]
  refine ⟨?_, ?_, ?_, ?_⟩ <;>
  · apply UInt8.eq_of_toBitVec_eq
    apply BitVec.eq_of_getLsbD_eq
    intro i hi
    simp only [ipToUint32, UInt32.toBitVec_toUInt8, UInt32.toBitVec_or, UInt32.toBitVec_shiftRight,
      UInt32.toBitVec_shiftLeft, UInt8.toBitVec_toUInt32, h8, h16, h24, BitVec.shiftLeft_eq',
      BitVec.ushiftRight_eq', BitVec.reduceToNat, BitVec.getLsbD_or, BitVec.getLsbD_shiftLeft,
      BitVec.getLsbD_setWidth, BitVec.getLsbD_ushiftRight]
    grind

/-- The assembled word is the number that the bytes spell. -/
theorem toNat_ipToUint32 (a b c d : UInt8) :
    (ipToUint32 a b c d).toNat =
      ((a.toNat * 256 + b.toNat) * 256 + c.toNat) * 256 + d.toNat := by
  have ha := a.toNat_lt
  have hb := b.toNat_lt
  have hc := c.toNat_lt
  have hd := d.toNat_lt
  have hshift : ∀ (x : UInt8) (k : UInt32), k.toNat ≤ 24 →
      (x.toUInt32 <<< k).toNat = x.toNat <<< k.toNat := by
    intro x k hk
    have hx := x.toNat_lt
    have hpow : 2 ^ k.toNat ≤ 2 ^ 24 := Nat.pow_le_pow_right (by decide) hk
    have hlt : x.toNat * 2 ^ k.toNat < 2 ^ 32 := by nlinarith
    rw [UInt32.toNat_shiftLeft, UInt8.toNat_toUInt32,
      Nat.mod_eq_of_lt (show k.toNat < 32 by omega), Nat.shiftLeft_eq, Nat.mod_eq_of_lt hlt]
  rw [ipToUint32, UInt32.toNat_or, UInt32.toNat_or, UInt32.toNat_or, hshift a 24 (by decide),
    hshift b 16 (by decide), hshift c 8 (by decide), UInt8.toNat_toUInt32]
  show a.toNat <<< 24 ||| b.toNat <<< 16 ||| c.toNat <<< 8 ||| d.toNat = _
  -- from the right: each shifted byte lies above all that follow it
  rw [Nat.or_assoc, Nat.or_assoc,
    ← Nat.shiftLeft_add_eq_or_of_lt (show d.toNat < 2 ^ 8 from hd),
    ← Nat.shiftLeft_add_eq_or_of_lt (show c.toNat <<< 8 + d.toNat < 2 ^ 16 by
      rw [Nat.shiftLeft_eq]
      omega),
    ← Nat.shiftLeft_add_eq_or_of_lt (show b.toNat <<< 16 + (c.toNat <<< 8 + d.toNat) < 2 ^ 24 by
      rw [Nat.shiftLeft_eq, Nat.shiftLeft_eq]
      omega)]
  simp only [Nat.shiftLeft_eq]
  omega

/-- The bytes a pointer to the start of `data` reads. -/
def bytesAt (data : List UInt8) : ℕ → UInt8 := fun i => data.getD i 0

/-! ## The option area -/

/-- The byte at `options + i`: inside the array, or in the memory behind it. -/
def DhcpMessage.optByte (msg : DhcpMessage) (behind : ℕ → UInt8) (i : ℕ) : UInt8 :=
  if h : i < 308 then msg.options ⟨i, h⟩ else behind (i - 308)

/-- The search loop of `dhcp_get_option` from index `ptr`: the index of the data
and the length byte of the first option with the given code. -/
def getOptionLoop (mem : ℕ → UInt8) (option : UInt8) : ℕ → ℕ → Option (ℕ × UInt8)
  | 0, _ => none
  | fuel + 1, ptr =>
      if mem ptr ≠ dhcpOptEnd ∧ ptr < 308 then
        if mem ptr = option then some (ptr + 2, mem (ptr + 1))
        else if mem ptr = dhcpOptPad then getOptionLoop mem option fuel (ptr + 1)
        else getOptionLoop mem option fuel (ptr + (2 + (mem (ptr + 1)).toNat))
      else none

/-- `dhcp_get_option`: data index and length of the first option with the code. -/
def dhcpGetOption (msg : DhcpMessage) (behind : ℕ → UInt8) (option : UInt8) :
    Option (ℕ × UInt8) :=
  getOptionLoop (msg.optByte behind) option 309 0

/-- `dhcp_get_message_type`: the first data byte of option 53, or 0. -/
def dhcpGetMessageType (msg : DhcpMessage) (behind : ℕ → UInt8) : UInt8 :=
  match dhcpGetOption msg behind dhcpOptMessageType with
  | some (ptr, length) => if 1 ≤ length then msg.optByte behind ptr else 0
  | none => 0

/-- The clause with which the five `REQUEST` handlers read option 50: the address
in the option when it is present with length 4. -/
def optionWord (msg : DhcpMessage) (behind : ℕ → UInt8) (option : UInt8) : Option UInt32 :=
  match dhcpGetOption msg behind option with
  | some (ptr, length) =>
      if length = 4 then
        some (ipToUint32 (msg.optByte behind ptr) (msg.optByte behind (ptr + 1))
          (msg.optByte behind (ptr + 2)) (msg.optByte behind (ptr + 3)))
      else none
  | none => none

/-- The scan of `dhcp_add_option` for the end of the options: the first END
marker at an option boundary, or an index past the array. -/
def addOptionLoop (mem : ℕ → UInt8) : ℕ → ℕ → ℕ
  | 0, ptr => ptr
  | fuel + 1, ptr =>
      if ptr < 308 ∧ mem ptr ≠ dhcpOptEnd then
        if mem ptr = dhcpOptPad then addOptionLoop mem fuel (ptr + 1)
        else addOptionLoop mem fuel (ptr + (2 + (mem (ptr + 1)).toNat))
      else ptr

/-- `dhcp_add_option`.  A length byte read past the array moves the cursor past
the array whatever it is, so what lies behind the message cannot matter and is
read as zero. -/
def dhcpAddOption (msg : DhcpMessage) (option length : UInt8)
    (data : Option (ℕ → UInt8)) : DhcpMessage :=
  let opened : DhcpMessage :=
    if msg.options 0 = 0 then
      { msg with options := Function.update msg.options 0 dhcpOptEnd }
    else msg
  let ptr := addOptionLoop (opened.optByte fun _ => 0) 309 0
  if ptr + 2 + length.toNat + 1 ≤ 308 then
    { opened with
      options := fun i =>
        if i.val = ptr then option
        else if i.val = ptr + 1 then length
        else if ptr + 2 ≤ i.val ∧ i.val < ptr + 2 + length.toNat then
          match data with
          | some bytes => bytes (i.val - (ptr + 2))
          | none => opened.options i
        else if i.val = ptr + 2 + length.toNat then dhcpOptEnd
        else opened.options i }
  else opened

/-- `dhcp_set_message_type`. -/
def dhcpSetMessageType (msg : DhcpMessage) (type : UInt8) : DhcpMessage :=
  dhcpAddOption msg dhcpOptMessageType 1 (some (bytesAt [type]))

/-! ## Reply builders -/

/-- The tail that `dhcp_build_offer` and `dhcp_build_ack` share: server id,
subnet mask, router, DNS server and lease time, in that order. -/
def addConfigOptions (config : DhcpConfig) (msg : DhcpMessage) : DhcpMessage :=
  let add (msg : DhcpMessage) (option : UInt8) (value : UInt32) :=
    dhcpAddOption msg option 4 (some (bytesAt (uint32ToIp value)))
  let msg := add msg dhcpOptServerId config.serverIp
  let msg := add msg dhcpOptSubnetMask config.subnetMask
  let msg := add msg dhcpOptRouter config.gatewayIp
  let msg := add msg dhcpOptDnsServer config.dnsIp
  add msg dhcpOptLeaseTime config.leaseTime

/-- `dhcp_build_offer`. -/
def dhcpBuildOffer {P : Type} (server : DhcpServer P) (request : DhcpMessage)
    (offeredIp : UInt32) : DhcpMessage :=
  let offer : DhcpMessage :=
    { DhcpMessage.zero with
      op := 2
      htype := request.htype
      hlen := request.hlen
      hops := 0
      xid := request.xid
      secs := 0
      flags := request.flags
      ciaddr := 0
      yiaddr := offeredIp
      siaddr := server.config.serverIp
      giaddr := request.giaddr
      chaddr := request.chaddr
      magicCookie := dhcpMagicCookie }
  addConfigOptions server.config (dhcpSetMessageType offer dhcpOffer)

/-- `dhcp_build_ack`: as the offer, but `ciaddr` is echoed. -/
def dhcpBuildAck {P : Type} (server : DhcpServer P) (request : DhcpMessage)
    (assignedIp : UInt32) : DhcpMessage :=
  let ack : DhcpMessage :=
    { DhcpMessage.zero with
      op := 2
      htype := request.htype
      hlen := request.hlen
      hops := 0
      xid := request.xid
      secs := 0
      flags := request.flags
      ciaddr := request.ciaddr
      yiaddr := assignedIp
      siaddr := server.config.serverIp
      giaddr := request.giaddr
      chaddr := request.chaddr
      magicCookie := dhcpMagicCookie }
  addConfigOptions server.config (dhcpSetMessageType ack dhcpAck)

/-- `dhcp_build_nak`: the option area is written directly. -/
def dhcpBuildNak (request : DhcpMessage) : DhcpMessage :=
  { DhcpMessage.zero with
    op := 2
    htype := request.htype
    hlen := request.hlen
    hops := 0
    xid := request.xid
    secs := 0
    flags := request.flags
    ciaddr := 0
    yiaddr := 0
    siaddr := 0
    giaddr := request.giaddr
    chaddr := request.chaddr
    magicCookie := dhcpMagicCookie
    options := fun i =>
      if i.val = 0 then dhcpOptMessageType
      else if i.val = 1 then 1
      else if i.val = 2 then dhcpNak
      else if i.val = 3 then dhcpOptEnd
      else 0 }

/-! ## The iteration bound -/

/-- Every iteration of `dhcp_get_option` moves the cursor towards index 308, so
more iterations than `309 - ptr` change nothing. -/
theorem getOptionLoop_fuel (mem : ℕ → UInt8) (option : UInt8) :
    ∀ (fuel ptr : ℕ), 309 - ptr ≤ fuel → 0 < fuel → ∀ extra,
      getOptionLoop mem option (fuel + extra) ptr = getOptionLoop mem option fuel ptr := by
  intro fuel
  induction fuel with
  | zero => intro ptr _ hpos; omega
  | succ fuel ih =>
      intro ptr hle _ extra
      rw [Nat.succ_add]
      simp only [getOptionLoop]
      split_ifs with hin hhit hpad
      · rfl
      · exact ih (ptr + 1) (by omega) (by omega) extra
      · exact ih _ (by omega) (by omega) extra
      · rfl

end BaremetalDhcp
