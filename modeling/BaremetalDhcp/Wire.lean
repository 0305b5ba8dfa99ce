import BaremetalDhcp.Options

/-!
# The wire adapter of `CDHCPServer`

`circle/sample/06-ethernet-dhcp-lib/dhcp-server.cpp` converts between the
packed wire header `DHCPHdr` and the library message with `hdrToMsg` and
`msgToHdr`.  The fixed fields travel through byte-order helpers; the option area
is copied up to a length that `msgToHdr` finds by scanning for the first byte
`0xFF`.

That scan looks at every byte, option data included, so the copy stops at a data
byte `0xFF` as it does at the END marker.  Everything behind the byte arrives as
zero, which the reader takes for padding.  `cutAfterMarker` is this effect on a
byte string, and `wirePreserves_iff_of_records` says exactly which records
survive: no record but the last may carry a data byte `0xFF`, and in the last
one only zeros may follow it.

`wirePreserves_buildReply_iff` instantiates this at the three reply builders.
-/

namespace BaremetalDhcp

/-- `DHCPHdr`: the packed wire format. -/
structure DhcpHdr where
  op : UInt8
  htype : UInt8
  hlen : UInt8
  hops : UInt8
  xid : UInt32
  secs : UInt16
  flags : UInt16
  ciaddr : Bytes 4
  yiaddr : Bytes 4
  siaddr : Bytes 4
  giaddr : Bytes 4
  chaddr : Bytes 16
  sname : Bytes 64
  file : Bytes 128
  magic : UInt32
  options : Bytes 312

/-- `DHCP_FIXED_LEN`: the BOOTP header and the magic cookie. -/
def dhcpFixedLen : ℕ := 240

/-- `unpackIP`: network order bytes to a host order address. -/
def unpackIP (p : Bytes 4) : UInt32 :=
  ((p 0).toUInt32 <<< 24) ||| ((p 1).toUInt32 <<< 16) ||| ((p 2).toUInt32 <<< 8) |||
    (p 3).toUInt32

/-- `packIP`: a host order address to network order bytes. -/
def packIP (ip : UInt32) : Bytes 4 :=
  ![((ip >>> 24) &&& 0xFF).toUInt8, ((ip >>> 16) &&& 0xFF).toUInt8,
    ((ip >>> 8) &&& 0xFF).toUInt8, (ip &&& 0xFF).toUInt8]

/-- The byte swap `BE32`. -/
def be32 (x : UInt32) : UInt32 :=
  ((x >>> 24) &&& (0xFF : UInt32)) ||| ((x >>> 8) &&& (0xFF00 : UInt32)) |||
    ((x <<< 8) &&& (0xFF0000 : UInt32)) ||| ((x <<< 24) &&& (0xFF000000 : UInt32))

/-- The option array of a header is longer than that of a message. -/
theorem optionByte_lt (i : Fin 308) : i.val < 312 := by omega

/-- `CDHCPServer::hdrToMsg`; `sname` and `file` stay zero. -/
def hdrToMsg (hdr : DhcpHdr) (nLength : ℕ) : DhcpMessage :=
  let optLen := if nLength > dhcpFixedLen then nLength - dhcpFixedLen else 0
  let optLen := if optLen > 308 then 308 else optLen
  { DhcpMessage.zero with
    op := hdr.op
    htype := hdr.htype
    hlen := hdr.hlen
    hops := hdr.hops
    xid := hdr.xid
    secs := hdr.secs
    flags := hdr.flags
    ciaddr := unpackIP hdr.ciaddr
    yiaddr := unpackIP hdr.yiaddr
    siaddr := unpackIP hdr.siaddr
    giaddr := unpackIP hdr.giaddr
    chaddr := hdr.chaddr
    magicCookie := be32 hdr.magic
    options := fun i => if i.val < optLen then hdr.options ⟨i.val, optionByte_lt i⟩ else 0 }

/-- The scan of `msgToHdr` for the END marker: `left` bytes remain from index
`i` on, and `optLen` bytes have been counted. -/
def optLenLoop (opts : ℕ → UInt8) : ℕ → ℕ → ℕ → ℕ
  | 0, _, optLen => optLen
  | left + 1, i, optLen =>
      if opts i = 0xFF then optLen + 1 else optLenLoop opts left (i + 1) (optLen + 1)

/-- `CDHCPServer::msgToHdr`: the header and the reported packet length;
`sname` and `file` stay zero. -/
def msgToHdr (msg : DhcpMessage) : DhcpHdr × ℕ :=
  let optLen := optLenLoop (msg.optByte fun _ => 0) 308 0 0
  ({ op := msg.op
     htype := msg.htype
     hlen := msg.hlen
     hops := msg.hops
     xid := msg.xid
     secs := msg.secs
     flags := msg.flags
     ciaddr := packIP msg.ciaddr
     yiaddr := packIP msg.yiaddr
     siaddr := packIP msg.siaddr
     giaddr := packIP msg.giaddr
     chaddr := msg.chaddr
     sname := fun _ => 0
     file := fun _ => 0
     magic := be32 msg.magicCookie
     options := fun i => if i.val < optLen then msg.optByte (fun _ => 0) i.val else 0 },
    dhcpFixedLen + optLen)

/-! ## Byte order -/

theorem unpackIP_packIP (ip : UInt32) : unpackIP (packIP ip) = ip :=
  ipToUint32_uint32ToIp ip

/-- The bytes of an unpacked address are those it was unpacked from. -/
theorem uint32ToIp_unpackIP (p : Bytes 4) : uint32ToIp (unpackIP p) = List.ofFn p :=
  uint32ToIp_ipToUint32 (p 0) (p 1) (p 2) (p 3)

/-- Byte `k` of the swapped word is byte `3 - k` of the word. -/
theorem getLsbD_be32 (x : UInt32) {i : ℕ} (hi : i < 32) :
    (be32 x).toBitVec.getLsbD i = x.toBitVec.getLsbD (24 - i / 8 * 8 + i % 8) := by
  have hmask : ∀ k, (0xFF#32).getLsbD k = decide (k < 8) := by
    intro k
    rw [show 0xFF#32 = BitVec.setWidth 32 (BitVec.allOnes 8) from rfl, BitVec.getLsbD_setWidth,
      BitVec.getLsbD_allOnes]
    grind
  -- each mask selects one byte
  have h0 : (0xFF : UInt32).toBitVec = 0xFF#32 := rfl
  have h1 : (0xFF00 : UInt32).toBitVec = 0xFF#32 <<< 8 := rfl
  have h2 : (0xFF0000 : UInt32).toBitVec = 0xFF#32 <<< 16 := rfl
  have h3 : (0xFF000000 : UInt32).toBitVec = 0xFF#32 <<< 24 := rfl
  have h8 : (8 : UInt32).toBitVec % 32 = 8#32 := rfl
  have h24 : (24 : UInt32).toBitVec % 32 = 24#32 := rfl
  simp only [be32, UInt32.toBitVec_or, UInt32.toBitVec_and, UInt32.toBitVec_shiftRight,
    UInt32.toBitVec_shiftLeft, h0, h1, h2, h3, h8, h24, BitVec.shiftLeft_eq',
    BitVec.ushiftRight_eq', BitVec.toNat_ofNat, Nat.reducePow, Nat.reduceMod, BitVec.getLsbD_or,
    BitVec.getLsbD_and, BitVec.getLsbD_shiftLeft, BitVec.getLsbD_ushiftRight, hmask]
  grind

theorem be32_be32 (x : UInt32) : be32 (be32 x) = x := by
  apply UInt32.eq_of_toBitVec_eq
  apply BitVec.eq_of_getLsbD_eq
  intro i hi
  rw [getLsbD_be32 _ hi, getLsbD_be32 _ (by omega)]
  congr 1
  omega

/-! ## Truncation at the first marker byte -/

/-- The bytes up to and including the first `0xFF`; the rest zeroed. -/
def cutAfterMarker : List UInt8 → List UInt8
  | [] => []
  | b :: bs => if b = 0xFF then b :: List.replicate bs.length 0 else b :: cutAfterMarker bs

/-- How many bytes the copy keeps. -/
def keptLength : List UInt8 → ℕ
  | [] => 0
  | b :: bs => if b = 0xFF then 1 else keptLength bs + 1

@[simp] theorem length_cutAfterMarker (bs : List UInt8) :
    (cutAfterMarker bs).length = bs.length := by
  induction bs with
  | nil => rfl
  | cons b bs ih => rw [cutAfterMarker]; split_ifs <;> simp [ih]

theorem keptLength_le (bs : List UInt8) : keptLength bs ≤ bs.length := by
  induction bs with
  | nil => simp [keptLength]
  | cons b bs ih => rw [keptLength, List.length_cons]; split_ifs <;> omega

theorem getD_cutAfterMarker (bs : List UInt8) (i : ℕ) :
    (cutAfterMarker bs).getD i 0 = if i < keptLength bs then bs.getD i 0 else 0 := by
  induction bs generalizing i with
  | nil => simp [cutAfterMarker]
  | cons b bs ih =>
      rw [cutAfterMarker, keptLength]
      by_cases hb : b = 0xFF
      · rw [if_pos hb, if_pos hb]
        cases i with
        | zero => simp
        | succ i => simp
      · rw [if_neg hb, if_neg hb]
        cases i with
        | zero => simp
        | succ i => simpa using ih i

theorem cutAfterMarker_append_of_notMem {as : List UInt8} (h : (0xFF : UInt8) ∉ as)
    (bs : List UInt8) : cutAfterMarker (as ++ bs) = as ++ cutAfterMarker bs := by
  induction as with
  | nil => rfl
  | cons a as ih =>
      rw [List.mem_cons, not_or] at h
      rw [List.cons_append, cutAfterMarker, if_neg (Ne.symm h.1), ih h.2, List.cons_append]

theorem cutAfterMarker_append_of_mem {as : List UInt8} (h : (0xFF : UInt8) ∈ as)
    (bs : List UInt8) :
    cutAfterMarker (as ++ bs) = cutAfterMarker as ++ List.replicate bs.length 0 := by
  induction as with
  | nil => simp at h
  | cons a as ih =>
      rw [List.cons_append, cutAfterMarker, cutAfterMarker]
      by_cases ha : a = 0xFF
      · simp [ha]
      · have hmem : (0xFF : UInt8) ∈ as := by
          rcases List.mem_cons.mp h with heq | hmem
          · exact absurd heq.symm ha
          · exact hmem
        rw [if_neg ha, if_neg ha, ih hmem, List.cons_append]

/-- Only zeros follow a marker byte. -/
def ZeroAfterMarker (bs : List UInt8) : Prop :=
  ∀ i j, i < j → bs.getD i 0 = 0xFF → bs.getD j 0 = 0

theorem cutAfterMarker_eq_self_iff (bs : List UInt8) :
    cutAfterMarker bs = bs ↔ ZeroAfterMarker bs := by
  induction bs with
  | nil => simp [cutAfterMarker, ZeroAfterMarker]
  | cons b bs ih =>
      rw [cutAfterMarker]
      by_cases hb : b = 0xFF
      · rw [if_pos hb, List.cons.injEq]
        constructor
        · rintro ⟨-, hzero⟩ i j hij -
          obtain ⟨j, rfl⟩ : ∃ k, j = k + 1 := ⟨j - 1, by omega⟩
          rw [List.getD_cons_succ, ← hzero]
          simp
        · intro h
          refine ⟨rfl, List.ext_getElem (by simp) fun i hi hi' => ?_⟩
          have hnext := h 0 (i + 1) (by omega) (by simpa using hb)
          rw [List.getD_cons_succ, List.getD_eq_getElem _ _ hi'] at hnext
          simp [hnext]
      · rw [if_neg hb, List.cons.injEq, ih]
        constructor
        · rintro ⟨-, h⟩ i j hij hi
          obtain ⟨j, rfl⟩ : ∃ k, j = k + 1 := ⟨j - 1, by omega⟩
          cases i with
          | zero => exact absurd (by simpa using hi) hb
          | succ i => exact h i j (by omega) (by simpa using hi)
        · exact fun h => ⟨rfl, fun i j hij hi =>
            h (i + 1) (j + 1) (by omega) (by simpa using hi)⟩

/-- The scan counts the kept bytes of any string that holds a marker. -/
theorem optLenLoop_eq {mem : ℕ → UInt8} :
    ∀ (bs : List UInt8) (left i acc : ℕ), bs.length ≤ left → (0xFF : UInt8) ∈ bs →
      Holds mem i bs → optLenLoop mem left i acc = acc + keptLength bs := by
  intro bs
  induction bs with
  | nil => intro left i acc _ hmem; simp at hmem
  | cons b bs ih =>
      intro left i acc hlen hmem hold
      rw [List.length_cons] at hlen
      obtain ⟨left, rfl⟩ : ∃ k, left = k + 1 := ⟨left - 1, by omega⟩
      rw [holds_cons] at hold
      rw [optLenLoop, hold.1, keptLength]
      by_cases hb : b = 0xFF
      · rw [if_pos hb, if_pos hb]
      · have hrest : (0xFF : UInt8) ∈ bs := by
          rcases List.mem_cons.mp hmem with heq | hrest
          · exact absurd heq.symm hb
          · exact hrest
        rw [if_neg hb, if_neg hb, ih left (i + 1) (acc + 1) (by omega) hrest hold.2]
        omega

/-! ## The round trip -/

/-- The message that comes back from the wire. -/
def roundTrip (msg : DhcpMessage) : DhcpMessage :=
  hdrToMsg (msgToHdr msg).1 (msgToHdr msg).2

/-- On a message that carries an area, the header holds the area cut after its first marker
byte, and zeros behind it. -/
theorem msgToHdr_optionArea {msg : DhcpMessage} {os : List OptionRecord}
    (h : msg.options = optionArea os) (hfit : (encodeAll os).length < 308) :
    (msgToHdr msg).2 = dhcpFixedLen + keptLength (encodeAll os ++ [dhcpOptEnd]) ∧
      ∀ i, (msgToHdr msg).1.options i =
        (cutAfterMarker (encodeAll os ++ [dhcpOptEnd])).getD i.val 0 := by
  set bs := encodeAll os ++ [dhcpOptEnd] with hbs
  have hlen : bs.length ≤ 308 := by
    rw [hbs, List.length_append, List.length_singleton]
    omega
  have hold : Holds (msg.optByte fun _ => 0) 0 bs := by
    intro k hk
    rw [Nat.zero_add, optByte_optionArea h _ (by omega)]
  have hscan : optLenLoop (msg.optByte fun _ => 0) 308 0 0 = keptLength bs := by
    rw [optLenLoop_eq bs 308 0 0 hlen (by simp [hbs, dhcpOptEnd]) hold, Nat.zero_add]
  have hkept := keptLength_le bs
  refine ⟨by simp only [msgToHdr, hscan], fun i => ?_⟩
  rw [getD_cutAfterMarker]
  simp only [msgToHdr, hscan]
  split_ifs with hin
  · exact optByte_optionArea h _ (by omega)
  · rfl

/-- On a message that carries an area, the option bytes come back cut after the
first marker byte of the area. -/
theorem roundTrip_optByte {msg : DhcpMessage} {os : List OptionRecord}
    (h : msg.options = optionArea os) (hfit : (encodeAll os).length < 308)
    (behind : ℕ → UInt8) {i : ℕ} (hi : i < 308) :
    (roundTrip msg).optByte behind i =
      (cutAfterMarker (encodeAll os ++ [dhcpOptEnd])).getD i 0 := by
  obtain ⟨hlength, hoptions⟩ := msgToHdr_optionArea h hfit
  set bs := encodeAll os ++ [dhcpOptEnd] with hbs
  have hkept : keptLength bs ≤ 308 := by
    refine (keptLength_le bs).trans ?_
    rw [hbs, List.length_append, List.length_singleton]
    omega
  have hcap : ¬ keptLength bs > 308 := by omega
  have hcopied : (if dhcpFixedLen + keptLength bs > dhcpFixedLen
      then dhcpFixedLen + keptLength bs - dhcpFixedLen else 0) = keptLength bs := by
    split_ifs <;> omega
  rw [DhcpMessage.optByte, dif_pos hi]
  simp only [roundTrip, hdrToMsg, hlength, hcopied, if_neg hcap, hoptions]
  split_ifs with hin
  · rfl
  · rw [getD_cutAfterMarker, if_neg hin]

/-- The fixed part of a message whose `sname` and `file` are zero comes back
unchanged. -/
theorem roundTrip_fixed {msg : DhcpMessage} (hsname : msg.sname = fun _ => 0)
    (hfile : msg.file = fun _ => 0) :
    { roundTrip msg with options := msg.options } = msg := by
  ext <;> simp [roundTrip, hdrToMsg, msgToHdr, unpackIP_packIP, be32_be32, hsname, hfile,
    DhcpMessage.zero]

/-- **The round trip preserves a message**: every option reads back with the
same presence, length and data, and the fixed header is the same.  `behind` and
`behind'` are what happens to lie in memory behind the two messages. -/
def WirePreserves (msg : DhcpMessage) (behind behind' : ℕ → UInt8) : Prop :=
  (∀ option, option ≠ dhcpOptPad → option ≠ dhcpOptEnd →
      readOption (roundTrip msg) behind' option = readOption msg behind option) ∧
    { roundTrip msg with options := msg.options } = msg

/-- A record with its data cut after the first marker byte. -/
def OptionRecord.cut (o : OptionRecord) : OptionRecord where
  code := o.code
  data := cutAfterMarker o.data
  code_ne_pad := o.code_ne_pad
  code_ne_end := o.code_ne_end
  length_lt := by simpa using o.length_lt

/-- Code and length of a record are no marker bytes, so cutting the encoding is
cutting the data. -/
theorem OptionRecord.cutAfterMarker_encode (o : OptionRecord) (hlen : o.data.length < 255) :
    cutAfterMarker o.encode = o.cut.encode := by
  have hlength : o.lengthByte ≠ 0xFF := by
    intro h
    have := o.toNat_lengthByte
    rw [h] at this
    have h255 : (0xFF : UInt8).toNat = 255 := rfl
    omega
  have hcut : o.cut.lengthByte = o.lengthByte := by
    simp [OptionRecord.lengthByte, OptionRecord.cut]
  have hcode : o.code ≠ 0xFF := o.code_ne_end
  rw [OptionRecord.encode, cutAfterMarker, if_neg hcode, cutAfterMarker,
    if_neg hlength, OptionRecord.encode, hcut]
  rfl

/-- A record holds a marker byte exactly when its data does. -/
theorem OptionRecord.mem_encode_iff (o : OptionRecord) (hlen : o.data.length < 255) :
    (0xFF : UInt8) ∈ o.encode ↔ (0xFF : UInt8) ∈ o.data := by
  have hlength : (0xFF : UInt8) ≠ o.lengthByte := by
    intro h
    have := o.toNat_lengthByte
    rw [← h] at this
    have h255 : (0xFF : UInt8).toNat = 255 := rfl
    omega
  rw [OptionRecord.encode, List.mem_cons, List.mem_cons]
  constructor
  · rintro (h | h | h)
    · exact absurd h.symm o.code_ne_end
    · exact absurd h hlength
    · exact h
  · exact fun h => Or.inr (Or.inr h)

theorem notMem_encodeAll {os : List OptionRecord}
    (hlen : ∀ o ∈ os, o.data.length < 255) (hclean : ∀ o ∈ os, (0xFF : UInt8) ∉ o.data) :
    (0xFF : UInt8) ∉ encodeAll os := by
  intro h
  obtain ⟨o, ho, hmem⟩ := List.mem_flatMap.mp h
  exact hclean o ho ((o.mem_encode_iff (hlen o ho)).mp hmem)

section Truncation

variable {msg : DhcpMessage} {pre post : List OptionRecord} {o : OptionRecord}

/-- A cut inside the data of `o` leaves the records before `o` and `o` with its data cut;
what follows is padding. -/
theorem cutAfterMarker_encodeAll_of_marker
    (hlen : ∀ r ∈ pre ++ o :: post, r.data.length < 255)
    (hclean : ∀ r ∈ pre, (0xFF : UInt8) ∉ r.data) (hmarker : (0xFF : UInt8) ∈ o.data) :
    cutAfterMarker (encodeAll (pre ++ o :: post) ++ [dhcpOptEnd]) =
      encodeAll (pre ++ [o.cut]) ++
        List.replicate ((encodeAll post ++ [dhcpOptEnd]).length) 0 := by
  have holen : o.data.length < 255 := hlen o (by simp)
  have hpre := notMem_encodeAll (fun r hr => hlen r (by simp [hr])) hclean
  rw [encodeAll_append, encodeAll_cons, List.append_assoc, List.append_assoc,
    cutAfterMarker_append_of_notMem hpre,
    cutAfterMarker_append_of_mem ((o.mem_encode_iff holen).mpr hmarker),
    o.cutAfterMarker_encode holen, encodeAll_append, encodeAll_cons, encodeAll_nil,
    List.append_nil, List.append_assoc]

/-- After a cut inside the data of `o`, the options read back are those before
`o` and `o` with its data cut; nothing behind `o` is found. -/
theorem readOption_roundTrip_of_marker (h : msg.options = optionArea (pre ++ o :: post))
    (hfit : (encodeAll (pre ++ o :: post)).length < 308)
    (hlen : ∀ r ∈ pre ++ o :: post, r.data.length < 255)
    (hclean : ∀ r ∈ pre, (0xFF : UInt8) ∉ r.data) (hmarker : (0xFF : UInt8) ∈ o.data)
    (behind : ℕ → UInt8) {option : UInt8} (hoption : option ≠ dhcpOptPad) :
    readOption (roundTrip msg) behind option =
      ((pre ++ [o.cut]).find? fun r => r.code = option).map OptionRecord.data := by
  have hcut := cutAfterMarker_encodeAll_of_marker hlen hclean hmarker
  have hsize : (encodeAll (pre ++ [o.cut])).length ≤ (encodeAll (pre ++ o :: post)).length := by
    simp [OptionRecord.cut]
  refine readOption_of_holds (fun i hi => ?_) (by omega) (Or.inr fun i hi hi' => ?_) hoption
  · rw [Nat.zero_add, roundTrip_optByte h hfit behind (by omega), hcut,
      List.getD_append _ _ _ _ hi]
  · rw [roundTrip_optByte h hfit behind hi', hcut, List.getD_append_right _ _ _ _ hi,
      dhcpOptPad]
    simp

/-- Without a marker byte in the data the area comes back unchanged. -/
theorem readOption_roundTrip_of_clean {os : List OptionRecord}
    (h : msg.options = optionArea os) (hfit : (encodeAll os).length < 308)
    (hlen : ∀ r ∈ os, r.data.length < 255) (hclean : ∀ r ∈ os, (0xFF : UInt8) ∉ r.data)
    (behind : ℕ → UInt8) (option : UInt8) :
    readOption (roundTrip msg) behind option =
      (os.find? fun r => r.code = option).map OptionRecord.data := by
  refine readOption_optionArea (funext fun i => ?_) behind hfit option
  have hbyte := roundTrip_optByte h hfit behind i.isLt
  rw [cutAfterMarker_append_of_notMem (notMem_encodeAll hlen hclean),
    DhcpMessage.optByte, dif_pos i.isLt] at hbyte
  exact hbyte

end Truncation

/-- The first record with a marker byte in its data splits the list. -/
theorem exists_first_marker {os : List OptionRecord}
    (h : ¬ ∀ r ∈ os, (0xFF : UInt8) ∉ r.data) :
    ∃ pre o post, os = pre ++ o :: post ∧ (∀ r ∈ pre, (0xFF : UInt8) ∉ r.data) ∧
      (0xFF : UInt8) ∈ o.data := by
  induction os with
  | nil => simp at h
  | cons r os ih =>
      by_cases hr : (0xFF : UInt8) ∈ r.data
      · exact ⟨[], r, os, rfl, by simp, hr⟩
      · have hrest : ¬ ∀ r ∈ os, (0xFF : UInt8) ∉ r.data := by
          intro hall
          exact h (by simpa [hr] using hall)
        obtain ⟨pre, o, post, rfl, hclean, hmarker⟩ := ih hrest
        exact ⟨r :: pre, o, post, rfl, by simpa [hr] using hclean, hmarker⟩

/-- What the wire carries of an area: records with the codes of the first ones, then END or
nothing but padding. -/
theorem exists_cutAfterMarker_eq {os : List OptionRecord}
    (hlen : ∀ r ∈ os, r.data.length < 255) :
    ∃ kept tail, cutAfterMarker (encodeAll os ++ [dhcpOptEnd]) = encodeAll kept ++ tail ∧
      kept.map OptionRecord.code <+: os.map OptionRecord.code ∧
      (tail = [dhcpOptEnd] ∨ ∃ k, tail = List.replicate k dhcpOptPad) := by
  by_cases hclean : ∀ r ∈ os, (0xFF : UInt8) ∉ r.data
  · refine ⟨os, [dhcpOptEnd], ?_, List.prefix_rfl, Or.inl rfl⟩
    rw [cutAfterMarker_append_of_notMem (notMem_encodeAll hlen hclean)]
    rfl
  · obtain ⟨pre, o, post, rfl, hpre, hmarker⟩ := exists_first_marker hclean
    refine ⟨pre ++ [o.cut], _, cutAfterMarker_encodeAll_of_marker hlen hpre hmarker,
      ⟨post.map OptionRecord.code, ?_⟩, Or.inr ⟨_, rfl⟩⟩
    simp [OptionRecord.cut]

theorem find_code_none {os : List OptionRecord} {option : UInt8}
    (h : option ∉ os.map OptionRecord.code) :
    (os.find? fun r => r.code = option) = none := by
  rw [List.find?_eq_none]
  intro r hr hcode
  exact h (List.mem_map.mpr ⟨r, hr, by simpa using hcode⟩)

/-- **Which option areas survive the wire.**  With distinct codes, the round
trip preserves a message exactly when no record before the last has a data byte
`0xFF` and only zeros follow such a byte in the last one. -/
theorem wirePreserves_iff_of_records {msg : DhcpMessage} {init : List OptionRecord}
    {last : OptionRecord} (h : msg.options = optionArea (init ++ [last]))
    (hsname : msg.sname = fun _ => 0) (hfile : msg.file = fun _ => 0)
    (hfit : (encodeAll (init ++ [last])).length < 308)
    (hlen : ∀ r ∈ init ++ [last], r.data.length < 255)
    (hcodes : ((init ++ [last]).map OptionRecord.code).Nodup)
    (behind behind' : ℕ → UInt8) :
    WirePreserves msg behind behind' ↔
      (∀ r ∈ init, (0xFF : UInt8) ∉ r.data) ∧ ZeroAfterMarker last.data := by
  have hread : ∀ option, readOption msg behind option =
      ((init ++ [last]).find? fun r => r.code = option).map OptionRecord.data :=
    fun option => readOption_optionArea h behind hfit option
  have hlast : last.code ∉ init.map OptionRecord.code := by
    rw [List.map_append, List.nodup_append] at hcodes
    exact fun hmem => hcodes.2.2 _ hmem _ (by simp) rfl
  by_cases hinit : ∀ r ∈ init, (0xFF : UInt8) ∉ r.data
  · by_cases hmarker : (0xFF : UInt8) ∈ last.data
    · -- the cut falls into the last record: compare it with its cut version
      have hback := fun option (hoption : option ≠ dhcpOptPad) =>
        readOption_roundTrip_of_marker h hfit hlen hinit hmarker behind' hoption
      rw [← cutAfterMarker_eq_self_iff]
      constructor
      · rintro ⟨hsame, -⟩
        refine ⟨hinit, ?_⟩
        have := hsame last.code last.code_ne_pad last.code_ne_end
        rw [hback _ last.code_ne_pad, hread last.code, List.find?_append,
          List.find?_append, find_code_none hlast] at this
        simpa [OptionRecord.cut] using this
      · rintro ⟨-, hcut⟩
        have hself : last.cut = last := by
          cases last
          simp only [OptionRecord.cut, OptionRecord.mk.injEq, true_and] at hcut ⊢
          exact hcut
        refine ⟨fun option hpad _ => ?_, roundTrip_fixed hsname hfile⟩
        rw [hback option hpad, hread option, hself]
    · have hclean : ∀ r ∈ init ++ [last], (0xFF : UInt8) ∉ r.data := by
        intro r hr
        rcases List.mem_append.mp hr with hr | hr
        · exact hinit r hr
        · rwa [List.mem_singleton.mp hr]
      have hzero : ZeroAfterMarker last.data := by
        rw [← cutAfterMarker_eq_self_iff]
        simpa [cutAfterMarker] using cutAfterMarker_append_of_notMem hmarker []
      refine iff_of_true ⟨fun option hpad _ => ?_, roundTrip_fixed hsname hfile⟩ ⟨hinit, hzero⟩
      rw [readOption_roundTrip_of_clean h hfit hlen hclean behind' option, hread option]
  · -- the cut falls into an earlier record: the last one is lost
    refine iff_of_false ?_ fun hsafe => hinit hsafe.1
    rintro ⟨hsame, -⟩
    obtain ⟨pre, o, post, rfl, hclean, hmarker⟩ := exists_first_marker hinit
    rw [List.append_assoc, List.cons_append] at h hfit hlen
    have hlost := hsame last.code last.code_ne_pad last.code_ne_end
    rw [readOption_roundTrip_of_marker h hfit hlen hclean hmarker behind' last.code_ne_pad,
      hread last.code] at hlost
    have hnone : ((pre ++ [o.cut]).find? fun r => r.code = last.code) = none := by
      apply find_code_none
      intro hmem
      apply hlast
      rw [List.map_append, List.mem_append] at hmem ⊢
      rcases hmem with hmem | hmem
      · exact Or.inl hmem
      · exact Or.inr (by
          rw [List.map_cons, List.mem_cons]
          exact Or.inl (by simpa [OptionRecord.cut] using hmem))
    rw [hnone, List.find?_append, find_code_none hlast] at hlost
    simp at hlost

/-! ## The three replies -/

/-- Which builder made a reply, and for which address. -/
inductive Reply where
  | offer (offeredIp : UInt32)
  | ack (assignedIp : UInt32)
  | nak

/-- The message that `dhcp_build_offer`, `dhcp_build_ack` or `dhcp_build_nak`
makes of a request. -/
def buildReply {P : Type} (server : DhcpServer P) (request : DhcpMessage) :
    Reply → DhcpMessage
  | .offer offeredIp => dhcpBuildOffer server request offeredIp
  | .ack assignedIp => dhcpBuildAck server request assignedIp
  | .nak => dhcpBuildNak request

/-- A configuration whose bytes cannot be mistaken for the END marker: no byte
`0xFF` in the server, mask, router and DNS addresses, and only zeros behind one
in the lease time, which is the last option. -/
def WireSafe (config : DhcpConfig) : Prop :=
  (∀ value ∈ [config.serverIp, config.subnetMask, config.gatewayIp, config.dnsIp],
      (0xFF : UInt8) ∉ uint32ToIp value) ∧
    ZeroAfterMarker (uint32ToIp config.leaseTime)

/-- The records of an offer or an acknowledgement, with the lease time split
off as the last one. -/
theorem wirePreserves_config_iff {msg : DhcpMessage} {config : DhcpConfig} {type : UInt8}
    (h : msg.options = optionArea (typeOption type :: configOptions config))
    (hsname : msg.sname = fun _ => 0) (hfile : msg.file = fun _ => 0)
    (htype : type ≠ 0xFF) (behind behind' : ℕ → UInt8) :
    WirePreserves msg behind behind' ↔ WireSafe config := by
  have hsplit : typeOption type :: configOptions config =
      (typeOption type :: (configOptions config).dropLast) ++
        [wordOption dhcpOptLeaseTime (by decide) (by decide) config.leaseTime] := rfl
  rw [hsplit] at h
  rw [wirePreserves_iff_of_records h hsname hfile (by simp [configOptions, typeOption, wordOption])
    (by simp [configOptions, typeOption, wordOption])
    (show [dhcpOptMessageType, dhcpOptServerId, dhcpOptSubnetMask, dhcpOptRouter,
      dhcpOptDnsServer, dhcpOptLeaseTime].Nodup by decide) behind behind', WireSafe]
  refine and_congr_left fun _ => ?_
  simp [configOptions, typeOption, wordOption, htype.symm]

/-- The configuration that the `CDHCPServer` constructor installs. -/
def circleConfig : DhcpConfig where
  serverIp := 0xC0A80401
  subnetMask := 0xFFFFFF00
  gatewayIp := 0xC0A80401
  dnsIp := 0xC0A80401
  poolStart := 0xC0A80464
  poolEnd := 0xC0A8FFFF
  leaseTime := 3600

/-- **The adapter preserves a reply exactly when its bytes cannot be mistaken
for END.**  Every refusal survives; an offer or an acknowledgement survives if
and only if the configuration is `WireSafe`. -/
theorem wirePreserves_buildReply_iff {P : Type} (server : DhcpServer P)
    (request : DhcpMessage) (reply : Reply) (behind behind' : ℕ → UInt8) :
    WirePreserves (buildReply server request reply) behind behind' ↔
      reply = .nak ∨ WireSafe server.config := by
  cases reply with
  | offer offeredIp =>
      obtain ⟨hopts, -, hsname, hfile⟩ := dhcpBuildOffer_spec server request offeredIp
      simp only [reduceCtorEq, false_or]
      exact wirePreserves_config_iff hopts hsname hfile (by decide) behind behind'
  | ack assignedIp =>
      obtain ⟨hopts, -, hsname, hfile⟩ := dhcpBuildAck_spec server request assignedIp
      simp only [reduceCtorEq, false_or]
      exact wirePreserves_config_iff hopts hsname hfile (by decide) behind behind'
  | nak =>
      have hopts : (dhcpBuildNak request).options = optionArea ([] ++ [typeOption dhcpNak]) :=
        dhcpBuildNak_options request
      refine iff_of_true ?_ (Or.inl rfl)
      refine (wirePreserves_iff_of_records hopts rfl rfl (by decide) (by decide) (by decide)
        behind behind').mpr ⟨by simp, ?_⟩
      rw [← cutAfterMarker_eq_self_iff]
      decide

/-- The adapter's own configuration is not safe: its mask starts with `0xFF`, so
the copy of every offer stops there and the router option is gone. -/
theorem circleConfig_offer_not_wirePreserves :
    ¬ WirePreserves
      (buildReply (⟨circleConfig, ()⟩ : DhcpServer Unit) DhcpMessage.zero (.offer 0xC0A80464))
      (fun _ => 0) (fun _ => 0) := by
  rintro ⟨hsame, -⟩
  have hrouter := hsame dhcpOptRouter (by decide) (by decide)
  revert hrouter
  decide +kernel

end BaremetalDhcp
