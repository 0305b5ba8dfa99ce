import Mathlib.Data.List.GetD
import BaremetalDhcp.Message

/-!
# The option area as a list of records

`dhcp_add_option` and `dhcp_get_option` walk raw bytes.  This module says what
those walks mean: an area is the concatenation of type-length-value records
followed by an END marker, adding an option appends a record, and looking a code
up returns the first record that carries it.

* `OptionRecord` — one record, never coded PAD or END and never longer than its
  length byte can say.
* `optionArea os` — the 308 bytes that hold the records `os`.
* `dhcpAddOption_optionArea` — adding an option to `optionArea os` gives
  `optionArea (os ++ [o])` when it fits.
* `readOption_of_holds` — reading from a memory that holds `os` and is then
  terminated, by END or by padding up to the end of the array, is a lookup in
  the list.

The second form of termination is what a truncated area looks like after a trip
over the wire, which is why the reader lemma covers both.
-/

namespace BaremetalDhcp

/-- One option: a code other than PAD and END, and at most 255 bytes of data. -/
structure OptionRecord where
  code : UInt8
  data : List UInt8
  code_ne_pad : code ≠ dhcpOptPad
  code_ne_end : code ≠ dhcpOptEnd
  length_lt : data.length < 256

namespace OptionRecord

/-- The length byte of a record. -/
def lengthByte (o : OptionRecord) : UInt8 := UInt8.ofNat o.data.length

@[simp] theorem toNat_lengthByte (o : OptionRecord) :
    o.lengthByte.toNat = o.data.length := by
  simp only [lengthByte, UInt8.toNat_ofNat']
  exact Nat.mod_eq_of_lt o.length_lt

/-- The record as it stands in the area: code, length, data. -/
def encode (o : OptionRecord) : List UInt8 := o.code :: o.lengthByte :: o.data

@[simp] theorem length_encode (o : OptionRecord) :
    o.encode.length = 2 + o.data.length := by
  simp only [encode, List.length_cons]
  omega

end OptionRecord

/-- The records one after the other. -/
def encodeAll (os : List OptionRecord) : List UInt8 := os.flatMap OptionRecord.encode

@[simp] theorem encodeAll_nil : encodeAll [] = [] := rfl

@[simp] theorem encodeAll_cons (o : OptionRecord) (os : List OptionRecord) :
    encodeAll (o :: os) = o.encode ++ encodeAll os := by
  simp [encodeAll]

@[simp] theorem encodeAll_append (os ps : List OptionRecord) :
    encodeAll (os ++ ps) = encodeAll os ++ encodeAll ps := by
  simp [encodeAll]

/-- Every record takes at least its code and its length byte. -/
theorem two_mul_length_le (os : List OptionRecord) :
    2 * os.length ≤ (encodeAll os).length := by
  induction os with
  | nil => simp
  | cons o os ih =>
      rw [encodeAll_cons, List.length_append, o.length_encode, List.length_cons]
      omega

/-! ## Memory that holds a byte string -/

/-- From index `ptr` on, the memory reads `bytes`. -/
def Holds (mem : ℕ → UInt8) (ptr : ℕ) (bytes : List UInt8) : Prop :=
  ∀ i, i < bytes.length → mem (ptr + i) = bytes.getD i 0

theorem holds_cons {mem : ℕ → UInt8} {ptr : ℕ} {b : UInt8} {bs : List UInt8} :
    Holds mem ptr (b :: bs) ↔ mem ptr = b ∧ Holds mem (ptr + 1) bs := by
  constructor
  · intro h
    refine ⟨by simpa using h 0 (by simp), fun i hi => ?_⟩
    have := h (i + 1) (by simpa using hi)
    rwa [List.getD_cons_succ, ← Nat.add_assoc, Nat.add_right_comm] at this
  · rintro ⟨h0, h⟩ i hi
    cases i with
    | zero => simpa using h0
    | succ i =>
        rw [List.getD_cons_succ, ← h i (by simpa using hi)]
        congr 1
        omega

theorem holds_append {mem : ℕ → UInt8} {ptr : ℕ} {as bs : List UInt8} :
    Holds mem ptr (as ++ bs) ↔ Holds mem ptr as ∧ Holds mem (ptr + as.length) bs := by
  induction as generalizing ptr with
  | nil => simp [Holds]
  | cons a as ih =>
      rw [List.cons_append, holds_cons, holds_cons, ih, and_assoc, List.length_cons,
        Nat.add_assoc, Nat.add_comm 1]

theorem holds_bytesAt (bytes : List UInt8) : Holds (bytesAt bytes) 0 bytes := by
  intro i _
  rw [Nat.zero_add, bytesAt]

/-- Reading the bytes of a held string back. -/
theorem map_range_of_holds {mem : ℕ → UInt8} {ptr : ℕ} {bytes : List UInt8}
    (h : Holds mem ptr bytes) :
    (List.range bytes.length).map (fun i => mem (ptr + i)) = bytes := by
  apply List.ext_getElem
  · simp
  · intro i hi hi'
    rw [List.getElem_map, List.getElem_range, h i hi', List.getD_eq_getElem _ _ hi']

/-! ## Looking an option up -/

/-- The data bytes behind a pointer returned by `dhcp_get_option`. -/
def dataAt (mem : ℕ → UInt8) (found : ℕ × UInt8) : List UInt8 :=
  (List.range found.2.toNat).map fun i => mem (found.1 + i)

/-- What a caller of `dhcp_get_option` sees: whether the option is there, and if
so its data, whose number of bytes is the returned length. -/
def readOption (msg : DhcpMessage) (behind : ℕ → UInt8) (option : UInt8) :
    Option (List UInt8) :=
  (dhcpGetOption msg behind option).map (dataAt (msg.optByte behind))

/-- Behind an option that is read there is a pointer of `dhcp_get_option`. -/
theorem dhcpGetOption_of_readOption {msg : DhcpMessage} {behind : ℕ → UInt8} {option : UInt8}
    {data : List UInt8} (h : readOption msg behind option = some data) :
    ∃ ptr, dhcpGetOption msg behind option = some (ptr, UInt8.ofNat data.length) ∧
      dataAt (msg.optByte behind) (ptr, UInt8.ofNat data.length) = data := by
  rw [readOption, Option.map_eq_some_iff] at h
  obtain ⟨⟨ptr, length⟩, hget, hdata⟩ := h
  have hlen : UInt8.ofNat data.length = length := by
    rw [← hdata]
    simp [dataAt]
  exact ⟨ptr, hlen ▸ hget, hlen ▸ hdata⟩

/-- The walk over one record: it is the answer, or it is skipped. -/
theorem getOptionLoop_record {mem : ℕ → UInt8} {ptr : ℕ} {o : OptionRecord}
    (h : Holds mem ptr o.encode) (hin : ptr < 308) (option : UInt8) (fuel : ℕ) :
    getOptionLoop mem option (fuel + 1) ptr =
      if o.code = option then some (ptr + 2, o.lengthByte)
      else getOptionLoop mem option fuel (ptr + o.encode.length) := by
  rw [OptionRecord.encode, holds_cons, holds_cons] at h
  obtain ⟨hcode, hlen, -⟩ := h
  rw [getOptionLoop, hcode, hlen, if_pos ⟨o.code_ne_end, hin⟩, if_neg o.code_ne_pad,
    o.toNat_lengthByte, o.length_encode]

/-- The walk over a list of records: the first one with the code, or the rest of
the area. -/
theorem getOptionLoop_records {mem : ℕ → UInt8} (option : UInt8) :
    ∀ (os : List OptionRecord) (ptr fuel : ℕ), Holds mem ptr (encodeAll os) →
      ptr + (encodeAll os).length ≤ 308 →
      (getOptionLoop mem option (os.length + fuel) ptr).map (dataAt mem) =
        ((os.find? fun o => o.code = option).map OptionRecord.data).or
          ((getOptionLoop mem option fuel (ptr + (encodeAll os).length)).map
            (dataAt mem)) := by
  intro os
  induction os with
  | nil => intro ptr fuel _ _; simp
  | cons o os ih =>
      intro ptr fuel hold hfit
      rw [encodeAll_cons, holds_append] at hold
      rw [encodeAll_cons, List.length_append, ← Nat.add_assoc] at hfit
      have hlen := o.length_encode
      have hrecord := getOptionLoop_record hold.1 (by omega) option (os.length + fuel)
      rw [List.length_cons, Nat.add_right_comm, hrecord]
      by_cases hcode : o.code = option
      · have hdata := hold.1
        rw [OptionRecord.encode, holds_cons, holds_cons] at hdata
        have hread : dataAt mem (ptr + 2, o.lengthByte) = o.data := by
          simpa only [dataAt, o.toNat_lengthByte] using map_range_of_holds hdata.2.2
        simp [hcode, hread]
      · rw [if_neg hcode, ih _ _ hold.2 hfit, encodeAll_cons, List.length_append,
          Nat.add_assoc]
        simp [hcode]

/-- Padding up to the end of the array holds no option. -/
theorem getOptionLoop_pads {mem : ℕ → UInt8} {option : UInt8}
    (hoption : option ≠ dhcpOptPad) :
    ∀ (fuel ptr : ℕ), (∀ i, ptr ≤ i → i < 308 → mem i = dhcpOptPad) →
      getOptionLoop mem option fuel ptr = none := by
  intro fuel
  induction fuel with
  | zero => intro ptr _; rfl
  | succ fuel ih =>
      intro ptr hpad
      rw [getOptionLoop]
      split_ifs with hin hhit hzero
      · exact absurd (hhit.symm.trans (hpad ptr le_rfl hin.2)) hoption
      · exact ih (ptr + 1) fun i hi => hpad i (by omega)
      · exact absurd (hpad ptr le_rfl hin.2) hzero
      · rfl

/-- The records end here: an END marker, or nothing but padding up to the end of
the array. -/
def Terminated (mem : ℕ → UInt8) (ptr : ℕ) : Prop :=
  mem ptr = dhcpOptEnd ∨ ∀ i, ptr ≤ i → i < 308 → mem i = dhcpOptPad

/-- A walk that stands at an END marker finds nothing, whatever it looks for. -/
theorem getOptionLoop_end {mem : ℕ → UInt8} {ptr : ℕ} (hend : mem ptr = dhcpOptEnd)
    (option : UInt8) (fuel : ℕ) : getOptionLoop mem option fuel ptr = none := by
  cases fuel with
  | zero => rfl
  | succ fuel => rw [getOptionLoop, if_neg (by simp [hend])]

/-- A terminated walk finds nothing more. -/
theorem getOptionLoop_of_terminated {mem : ℕ → UInt8} {ptr : ℕ} {option : UInt8}
    (hoption : option ≠ dhcpOptPad) (hterm : Terminated mem ptr) (fuel : ℕ) :
    getOptionLoop mem option fuel ptr = none := by
  rcases hterm with hend | hpad
  · exact getOptionLoop_end hend option fuel
  · exact getOptionLoop_pads hoption fuel ptr hpad

/-- **Reading is a lookup.**  On a memory that holds the records and then
terminates, `dhcp_get_option` returns the first record with the code. -/
theorem readOption_of_holds {msg : DhcpMessage} {behind : ℕ → UInt8}
    {os : List OptionRecord} (hold : Holds (msg.optByte behind) 0 (encodeAll os))
    (hfit : (encodeAll os).length ≤ 308)
    (hterm : Terminated (msg.optByte behind) (encodeAll os).length)
    {option : UInt8} (hoption : option ≠ dhcpOptPad) :
    readOption msg behind option =
      (os.find? fun o => o.code = option).map OptionRecord.data := by
  have hcount := two_mul_length_le os
  have hfuel : 309 = os.length + (309 - os.length) := by omega
  rw [readOption, dhcpGetOption, hfuel,
    getOptionLoop_records option os 0 _ hold (by omega), Nat.zero_add,
    getOptionLoop_of_terminated hoption hterm]
  simp

/-! ## The area built by `dhcp_add_option` -/

/-- The option array that holds the records, an END marker, and zeros. -/
def optionArea (os : List OptionRecord) : Bytes 308 :=
  fun i => (encodeAll os ++ [dhcpOptEnd]).getD i.val 0

/-- The bytes of an area, read through a message that carries it. -/
theorem optByte_optionArea {msg : DhcpMessage} {os : List OptionRecord}
    (h : msg.options = optionArea os) (behind : ℕ → UInt8) {i : ℕ} (hi : i < 308) :
    msg.optByte behind i = (encodeAll os ++ [dhcpOptEnd]).getD i 0 := by
  rw [DhcpMessage.optByte, dif_pos hi, h, optionArea]

/-- An area that fits holds its records and is terminated by END. -/
theorem holds_optionArea {msg : DhcpMessage} {os : List OptionRecord}
    (h : msg.options = optionArea os) (behind : ℕ → UInt8)
    (hfit : (encodeAll os).length < 308) :
    Holds (msg.optByte behind) 0 (encodeAll os) ∧
      msg.optByte behind (encodeAll os).length = dhcpOptEnd := by
  refine ⟨fun i hi => ?_, ?_⟩
  · rw [Nat.zero_add, optByte_optionArea h behind (by omega),
      List.getD_append _ _ _ _ hi]
  · rw [optByte_optionArea h behind hfit, List.getD_append_right _ _ _ _ le_rfl,
      Nat.sub_self]
    rfl

/-- Reading an area is a lookup in its records; PAD and END are no exception,
since the walk meets neither before the marker. -/
theorem readOption_optionArea {msg : DhcpMessage} {os : List OptionRecord}
    (h : msg.options = optionArea os) (behind : ℕ → UInt8)
    (hfit : (encodeAll os).length < 308) (option : UInt8) :
    readOption msg behind option =
      (os.find? fun o => o.code = option).map OptionRecord.data := by
  obtain ⟨hold, hend⟩ := holds_optionArea h behind hfit
  have hcount := two_mul_length_le os
  have hfuel : 309 = os.length + (309 - os.length) := by omega
  rw [readOption, dhcpGetOption, hfuel, getOptionLoop_records option os 0 _ hold (by omega),
    Nat.zero_add, getOptionLoop_end hend]
  simp

/-- The scan for the end of the options passes over whole records. -/
theorem addOptionLoop_records {mem : ℕ → UInt8} :
    ∀ (os : List OptionRecord) (ptr fuel : ℕ), Holds mem ptr (encodeAll os) →
      ptr + (encodeAll os).length ≤ 308 →
      addOptionLoop mem (os.length + fuel) ptr =
        addOptionLoop mem fuel (ptr + (encodeAll os).length) := by
  intro os
  induction os with
  | nil => intro ptr fuel _ _; simp
  | cons o os ih =>
      intro ptr fuel hold hfit
      rw [encodeAll_cons, holds_append] at hold
      rw [encodeAll_cons, List.length_append, ← Nat.add_assoc] at hfit
      have hlen := o.length_encode
      have hhead := hold.1
      rw [OptionRecord.encode, holds_cons, holds_cons] at hhead
      obtain ⟨hcode, hlength, -⟩ := hhead
      rw [List.length_cons, Nat.add_right_comm, addOptionLoop, hcode, hlength,
        if_pos ⟨by omega, o.code_ne_end⟩, if_neg o.code_ne_pad, o.toNat_lengthByte,
        ← hlen, ih _ _ hold.2 hfit, encodeAll_cons, List.length_append, Nat.add_assoc]

/-- The scan stops at an END marker. -/
theorem addOptionLoop_end {mem : ℕ → UInt8} {ptr : ℕ} (h : mem ptr = dhcpOptEnd)
    (fuel : ℕ) : addOptionLoop mem fuel ptr = ptr := by
  cases fuel with
  | zero => rfl
  | succ fuel => rw [addOptionLoop, if_neg (by simp [h])]

/-- On an area the scan returns the index of its END marker. -/
theorem addOptionLoop_optionArea {msg : DhcpMessage} {os : List OptionRecord}
    (h : msg.options = optionArea os) (behind : ℕ → UInt8)
    (hfit : (encodeAll os).length < 308) :
    addOptionLoop (msg.optByte behind) 309 0 = (encodeAll os).length := by
  obtain ⟨hold, hend⟩ := holds_optionArea h behind hfit
  have hcount := two_mul_length_le os
  have hfuel : 309 = os.length + (309 - os.length) := by omega
  rw [hfuel, addOptionLoop_records os 0 _ hold (by omega), Nat.zero_add,
    addOptionLoop_end hend]

/-- The first byte of an area is a code or END, never the zero that
`dhcp_add_option` takes for an uninitialised area. -/
theorem optionArea_zero_ne (os : List OptionRecord) : optionArea os 0 ≠ 0 := by
  cases os with
  | nil => decide
  | cons o os =>
      rw [optionArea, encodeAll_cons, OptionRecord.encode]
      exact o.code_ne_pad

/-- Byte by byte, appending a record and END to an area writes exactly the
record over the old END marker. -/
theorem optionArea_append (os : List OptionRecord) (o : OptionRecord) (i : Fin 308) :
    optionArea (os ++ [o]) i =
      if i.val = (encodeAll os).length then o.code
      else if i.val = (encodeAll os).length + 1 then o.lengthByte
      else if (encodeAll os).length + 2 ≤ i.val ∧
          i.val < (encodeAll os).length + 2 + o.lengthByte.toNat then
        bytesAt o.data (i.val - ((encodeAll os).length + 2))
      else if i.val = (encodeAll os).length + 2 + o.lengthByte.toNat then dhcpOptEnd
      else optionArea os i := by
  simp only [optionArea, bytesAt, encodeAll_append, encodeAll_cons, encodeAll_nil,
    List.append_nil, List.append_assoc, o.toNat_lengthByte]
  generalize hbase : (encodeAll os).length = base
  rcases lt_or_ge i.val base with hlt | hge
  · rw [List.getD_append _ _ _ _ (by omega), List.getD_append _ _ _ _ (by omega),
      if_neg (by omega), if_neg (by omega), if_neg (by omega), if_neg (by omega)]
  · have htail : ∀ bytes : List UInt8,
        (encodeAll os ++ bytes).getD i.val 0 = bytes.getD (i.val - base) 0 := by
      intro bytes
      rw [List.getD_append_right _ _ _ _ (by omega), hbase]
    rw [htail, htail]
    obtain ⟨k, hk⟩ : ∃ k, i.val = base + k := ⟨i.val - base, by omega⟩
    rw [hk, Nat.add_sub_cancel_left]
    match k with
    | 0 => simp [OptionRecord.encode]
    | 1 => simp [OptionRecord.encode]
    | k + 2 =>
        rw [if_neg (by omega), if_neg (by omega), OptionRecord.encode, List.cons_append,
          List.cons_append, List.getD_cons_succ, List.getD_cons_succ,
          show base + (k + 2) - (base + 2) = k by omega]
        rcases lt_trichotomy k o.data.length with hin | hend | hout
        · rw [List.getD_append _ _ _ _ hin, if_pos ⟨by omega, by omega⟩]
        · rw [List.getD_append_right _ _ _ _ hend.ge, if_neg (by omega),
            if_pos (by omega), hend, Nat.sub_self]
          rfl
        · rw [List.getD_append_right _ _ _ _ hout.le, if_neg (by omega),
            if_neg (by omega), List.getD_eq_default _ _ (by simp; omega),
            List.getD_eq_default _ _ (by simp)]

/-- **Adding is appending.**  On a message whose area holds `os`, adding an
option that fits gives the area of `os ++ [o]` and touches no other field. -/
theorem dhcpAddOption_optionArea {msg : DhcpMessage} {os : List OptionRecord}
    (h : msg.options = optionArea os) (o : OptionRecord)
    (hfit : (encodeAll (os ++ [o])).length < 308) :
    dhcpAddOption msg o.code o.lengthByte (some (bytesAt o.data)) =
      { msg with options := optionArea (os ++ [o]) } := by
  have hlen : (encodeAll (os ++ [o])).length =
      (encodeAll os).length + (2 + o.data.length) := by simp
  have hptr := addOptionLoop_optionArea h (fun _ => 0) (by omega)
  have hopen : ¬ msg.options 0 = 0 := by
    rw [h]
    exact optionArea_zero_ne os
  have hroom : (encodeAll os).length + 2 + o.lengthByte.toNat + 1 ≤ 308 := by
    rw [o.toNat_lengthByte]
    omega
  simp only [dhcpAddOption, if_neg hopen, hptr, if_pos hroom]
  congr 1
  funext i
  rw [optionArea_append, ← h]

/-- A zeroed array with an END marker at index 0 is the area of no options. -/
theorem update_zero_eq_optionArea :
    Function.update (fun _ => 0) 0 dhcpOptEnd = optionArea [] := by
  funext i
  rw [optionArea, encodeAll_nil, List.nil_append]
  refine Fin.cases ?_ (fun j => ?_) i
  · rfl
  · rw [Function.update_of_ne (Fin.succ_ne_zero j), Fin.val_succ, List.getD_cons_succ]
    rfl

/-- On a zeroed area the first option is added behind the END marker that
`dhcp_add_option` plants at index 0. -/
theorem dhcpAddOption_zero {msg : DhcpMessage} (h : msg.options = fun _ => 0)
    (o : OptionRecord) (hfit : o.encode.length < 308) :
    dhcpAddOption msg o.code o.lengthByte (some (bytesAt o.data)) =
      { msg with options := optionArea [o] } := by
  have harea : Function.update msg.options 0 dhcpOptEnd = optionArea [] := by
    rw [h]
    exact update_zero_eq_optionArea
  have hfirst : (encodeAll ([] ++ [o])).length < 308 := by simpa using hfit
  have hsame : dhcpAddOption { msg with options := optionArea [] } o.code o.lengthByte
      (some (bytesAt o.data)) = { msg with options := optionArea [o] } :=
    dhcpAddOption_optionArea rfl o hfirst
  rw [← hsame]
  have hzero : msg.options 0 = 0 := by rw [h]
  simp only [dhcpAddOption, if_pos hzero, harea, if_neg (optionArea_zero_ne [])]

/-! ## The replies -/

/-- An option that carries one 32-bit value, most significant byte first. -/
def wordOption (code : UInt8) (hpad : code ≠ dhcpOptPad) (hend : code ≠ dhcpOptEnd)
    (value : UInt32) : OptionRecord where
  code := code
  data := uint32ToIp value
  code_ne_pad := hpad
  code_ne_end := hend
  length_lt := by simp

theorem dhcpOptMessageType_ne_pad : dhcpOptMessageType ≠ dhcpOptPad := by decide

theorem dhcpOptMessageType_ne_end : dhcpOptMessageType ≠ dhcpOptEnd := by decide

theorem dhcpOptServerId_ne_pad : dhcpOptServerId ≠ dhcpOptPad := by decide

theorem dhcpOptServerId_ne_end : dhcpOptServerId ≠ dhcpOptEnd := by decide

theorem dhcpOptRequestedIp_ne_pad : dhcpOptRequestedIp ≠ dhcpOptPad := by decide

theorem dhcpOptRequestedIp_ne_end : dhcpOptRequestedIp ≠ dhcpOptEnd := by decide

/-- The message-type option. -/
def typeOption (type : UInt8) : OptionRecord where
  code := dhcpOptMessageType
  data := [type]
  code_ne_pad := dhcpOptMessageType_ne_pad
  code_ne_end := dhcpOptMessageType_ne_end
  length_lt := by simp

/-- The options an offer or an acknowledgement carries after its type. -/
def configOptions (config : DhcpConfig) : List OptionRecord :=
  [wordOption dhcpOptServerId dhcpOptServerId_ne_pad dhcpOptServerId_ne_end config.serverIp,
    wordOption dhcpOptSubnetMask (by decide) (by decide) config.subnetMask,
    wordOption dhcpOptRouter (by decide) (by decide) config.gatewayIp,
    wordOption dhcpOptDnsServer (by decide) (by decide) config.dnsIp,
    wordOption dhcpOptLeaseTime (by decide) (by decide) config.leaseTime]

/-- Setting the type and adding the configuration options to a zeroed area
leaves the six records, in order. -/
theorem addConfigOptions_eq {msg : DhcpMessage} (h : msg.options = fun _ => 0)
    (config : DhcpConfig) (type : UInt8) :
    addConfigOptions config (dhcpSetMessageType msg type) =
      { msg with options := optionArea (typeOption type :: configOptions config) } := by
  have htype : dhcpSetMessageType msg type =
      { msg with options := optionArea [typeOption type] } :=
    dhcpAddOption_zero h (typeOption type) (by simp [typeOption])
  -- one step per record: the option goes behind the records already there
  have hword : ∀ (os : List OptionRecord) (code : UInt8) (hpad : code ≠ dhcpOptPad)
      (hend : code ≠ dhcpOptEnd) (value : UInt32), (encodeAll os).length < 302 →
      dhcpAddOption { msg with options := optionArea os } code 4
          (some (bytesAt (uint32ToIp value))) =
        { msg with options := optionArea (os ++ [wordOption code hpad hend value]) } := by
    intro os code hpad hend value hlt
    refine dhcpAddOption_optionArea rfl (wordOption code hpad hend value) ?_
    simp only [encodeAll_append, encodeAll_cons, encodeAll_nil, List.append_nil,
      List.length_append, OptionRecord.length_encode]
    simp only [wordOption, length_uint32ToIp]
    omega
  simp only [addConfigOptions, htype]
  rw [hword _ dhcpOptServerId (by decide) (by decide) _ (by simp [typeOption]),
    hword _ dhcpOptSubnetMask (by decide) (by decide) _ (by simp [typeOption, wordOption]),
    hword _ dhcpOptRouter (by decide) (by decide) _ (by simp [typeOption, wordOption]),
    hword _ dhcpOptDnsServer (by decide) (by decide) _ (by simp [typeOption, wordOption]),
    hword _ dhcpOptLeaseTime (by decide) (by decide) _ (by simp [typeOption, wordOption])]
  rfl

/-- An offer: its options, and the fixed fields the server decides. -/
theorem dhcpBuildOffer_spec {P : Type} (server : DhcpServer P) (request : DhcpMessage)
    (offeredIp : UInt32) :
    let offer := dhcpBuildOffer server request offeredIp
    offer.options = optionArea (typeOption dhcpOffer :: configOptions server.config) ∧
      offer.yiaddr = offeredIp ∧ offer.sname = (fun _ => 0) ∧ offer.file = fun _ => 0 := by
  rw [dhcpBuildOffer, addConfigOptions_eq rfl]
  exact ⟨rfl, rfl, rfl, rfl⟩

/-- An acknowledgement: its options, and the fixed fields the server decides. -/
theorem dhcpBuildAck_spec {P : Type} (server : DhcpServer P) (request : DhcpMessage)
    (assignedIp : UInt32) :
    let ack := dhcpBuildAck server request assignedIp
    ack.options = optionArea (typeOption dhcpAck :: configOptions server.config) ∧
      ack.yiaddr = assignedIp ∧ ack.sname = (fun _ => 0) ∧ ack.file = fun _ => 0 := by
  rw [dhcpBuildAck, addConfigOptions_eq rfl]
  exact ⟨rfl, rfl, rfl, rfl⟩

/-- The options of a refusal. -/
theorem dhcpBuildNak_options (request : DhcpMessage) :
    (dhcpBuildNak request).options = optionArea [typeOption dhcpNak] := by
  funext i
  simp only [dhcpBuildNak, optionArea, typeOption, encodeAll_cons, encodeAll_nil,
    OptionRecord.encode, OptionRecord.lengthByte]
  match i with
  | ⟨0, _⟩ => rfl
  | ⟨1, _⟩ => rfl
  | ⟨2, _⟩ => rfl
  | ⟨3, _⟩ => rfl
  | ⟨i + 4, _⟩ => simp

end BaremetalDhcp
