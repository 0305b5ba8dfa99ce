import BaremetalDhcp.OptionBounds
import BaremetalDhcp.FrameValidators

/-!
# What the client reads from the options of a reply

The option loop of `parse_frame` moves an index through the bytes behind the fixed header,
and every type of option moves it on a path of its own.  This module compares the loop with
a decoder that never uses an index.

* `splitArea` — the reference: PADs and complete records from the front of a byte string, up
  to the first END or the first record that is cut off.  `splitArea_eq_iff` says that it is
  the only way to read the string like this.
* `decodeReply` — the four values the client wants, each from the last record of its type
  that has the right length.
* `parseOptionsTraced` — the loop of `parse_frame` with the indices it reads, and with `none`
  for a loop that is still running after the given number of iterations.
* `parseFrame_eq_decodeReply` — for every frame that gets past the header checks, the loop
  ends, stays inside the option bytes, and reports what the reference decodes.

A record of a wanted type with a wrong length is passed over like one of an unknown type; it
does not end the loop and does not erase an earlier value.  The index of the loop never
exceeds the number of option bytes and a length byte adds at most 255 to it, so `int` has room
for every sum that is compared.
-/

namespace BaremetalDhcp

open LittleEndian

/-! ## The reference decoder -/

/-- The items at the front of an option area. -/
def splitArea : List UInt8 → List AreaItem
  | [] => []
  | code :: rest =>
      if hpad : code = dhcpOptPad then .pad :: splitArea rest
      else if hend : code = dhcpOptEnd then []
      else
        match rest with
        -- cut off before the length byte
        | [] => []
        | length :: data =>
            if hdata : length.toNat ≤ data.length then
              .record
                { code := code
                  data := data.take length.toNat
                  code_ne_pad := hpad
                  code_ne_end := hend
                  length_lt := by
                    rw [List.length_take]
                    exact (Nat.min_le_left _ _).trans_lt length.toNat_lt } ::
                splitArea (data.drop length.toNat)
            -- cut off inside the data
            else []
termination_by area => area.length
decreasing_by
  · simp
  · simp only [List.length_cons, List.length_drop]
    omega

/-- What is left of an area behind its last complete item. -/
inductive AreaEnd : List UInt8 → Prop
  | exhausted : AreaEnd []
  | marker (rest : List UInt8) : AreaEnd (dhcpOptEnd :: rest)
  | noLength (code : UInt8) (hpad : code ≠ dhcpOptPad) (hend : code ≠ dhcpOptEnd) :
      AreaEnd [code]
  | noData (code length : UInt8) (data : List UInt8) (hpad : code ≠ dhcpOptPad)
      (hend : code ≠ dhcpOptEnd) (hshort : data.length < length.toNat) :
      AreaEnd (code :: length :: data)

theorem splitArea_pad (rest : List UInt8) :
    splitArea (dhcpOptPad :: rest) = .pad :: splitArea rest := by
  rw [splitArea, dif_pos rfl]

theorem splitArea_record (o : OptionRecord) (rest : List UInt8) :
    splitArea (o.encode ++ rest) = .record o :: splitArea rest := by
  have hfit : o.data.length ≤ (o.data ++ rest).length := by
    rw [List.length_append]
    exact Nat.le_add_right _ _
  rw [OptionRecord.encode, List.cons_append, List.cons_append, splitArea, dif_neg o.code_ne_pad,
    dif_neg o.code_ne_end]
  simp only [o.toNat_lengthByte, List.take_left, List.drop_left]
  rw [dif_pos hfit]

theorem AreaEnd.splitArea_eq {rest : List UInt8} (h : AreaEnd rest) : splitArea rest = [] := by
  cases h with
  | exhausted => rw [splitArea]
  | marker rest => rw [splitArea, dif_neg (by decide), dif_pos rfl]
  | noLength code hpad hend => rw [splitArea, dif_neg hpad, dif_neg hend]
  | noData code length data hpad hend hshort =>
      rw [splitArea, dif_neg hpad, dif_neg hend]
      exact dif_neg (not_le.mpr hshort)

theorem splitArea_items {rest : List UInt8} (h : AreaEnd rest) (items : List AreaItem) :
    splitArea (items.flatMap AreaItem.encode ++ rest) = items := by
  induction items with
  | nil => exact h.splitArea_eq
  | cons item items ih =>
      rw [List.flatMap_cons, List.append_assoc]
      cases item with
      | pad => rw [AreaItem.encode, List.singleton_append, splitArea_pad, ih]
      | record o => rw [AreaItem.encode, splitArea_record, ih]

/-- Every string is a sequence of items and an end. -/
theorem exists_areaEnd (area : List UInt8) :
    ∃ rest, AreaEnd rest ∧ (splitArea area).flatMap AreaItem.encode ++ rest = area := by
  fun_induction splitArea area with
  | case1 => exact ⟨[], .exhausted, rfl⟩
  | case2 rest ih =>
      obtain ⟨tail, htail, heq⟩ := ih
      exact ⟨tail, htail, congrArg (dhcpOptPad :: ·) heq⟩
  | case3 rest hpad => exact ⟨_, .marker rest, rfl⟩
  | case4 code hpad hend => exact ⟨_, .noLength code hpad hend, rfl⟩
  | case5 code hpad hend length data hdata ih =>
      obtain ⟨tail, htail, heq⟩ := ih
      have hlength : UInt8.ofNat (data.take length.toNat).length = length := by
        rw [List.length_take, Nat.min_eq_left hdata, UInt8.ofNat_toNat]
      refine ⟨tail, htail, ?_⟩
      rw [List.flatMap_cons, List.append_assoc, heq, AreaItem.encode, OptionRecord.encode,
        OptionRecord.lengthByte, hlength, List.cons_append, List.cons_append,
        List.take_append_drop]
  | case6 code hpad hend length data hdata =>
      exact ⟨_, .noData code length data hpad hend (not_le.mp hdata), rfl⟩

/-- **The split is the grammar**: an area reads as items followed by an end in one way. -/
theorem splitArea_eq_iff {area : List UInt8} {items : List AreaItem} :
    splitArea area = items ↔
      ∃ rest, AreaEnd rest ∧ items.flatMap AreaItem.encode ++ rest = area := by
  constructor
  · rintro rfl
    exact exists_areaEnd area
  · rintro ⟨rest, hrest, rfl⟩
    exact splitArea_items hrest items

/-! ## The values of a reply -/

/-- The records among the items. -/
def records : List AreaItem → List OptionRecord
  | [] => []
  | .pad :: items => records items
  | .record o :: items => o :: records items

/-- The data of the last record with this code and this length. -/
def lastData (os : List OptionRecord) (code : UInt8) (length : ℕ) : Option (List UInt8) :=
  ((os.filter fun o => o.code = code ∧ o.data.length = length).getLast?).map OptionRecord.data

/-- The number that bytes spell, most significant first. -/
def bigEndian (data : List UInt8) : UInt32 :=
  UInt32.ofNat (data.foldl (fun value byte => value * 256 + byte.toNat) 0)

/-- The first four bytes of some data. -/
def fourBytes (data : List UInt8) : Bytes 4 := fun i => data.getD i.val 0

/-- What the client takes from the options of a reply. -/
structure ReplyOptions where
  dhcpType : UInt8
  serverIp : Bytes 4
  leaseTime : UInt32
  subnetMask : Bytes 4

/-- The reference: for each option the last record of its type with the right length. -/
def decodeReply (siaddr : Bytes 4) (area : List UInt8) : ReplyOptions :=
  let os := records (splitArea area)
  { dhcpType := ((lastData os optMsgType 1).map fun data => data.getD 0 0).getD 0
    serverIp := ((lastData os optServerIp 4).map fourBytes).getD siaddr
    leaseTime := ((lastData os optLeaseTime 4).map bigEndian).getD 0
    subnetMask := ((lastData os optSubnetMask 4).map fourBytes).getD fun _ => 0 }

/-- The part of a report that comes from the options. -/
def ParseMeta.replyOptions (m : ParseMeta) : ReplyOptions where
  dhcpType := m.dhcpType
  serverIp := m.serverIp
  leaseTime := m.leaseTime
  subnetMask := m.subnetMask

/-- Where every element either sets a field or keeps it, a fold leaves the value of the last
element that sets it. -/
theorem foldl_last_write {σ α β : Type} {step : σ → α → σ} (field : σ → β) (value : α → β)
    (writes : α → Prop) [DecidablePred writes]
    (hstep : ∀ s a, field (step s a) = if writes a then value a else field s) (as : List α)
    (s : σ) :
    field (as.foldl step s) = (((as.filter writes).getLast?).map value).getD (field s) := by
  induction as using List.reverseRecOn with
  | nil => rfl
  | append_singleton as a ih =>
      rw [List.foldl_append, List.foldl_cons, List.foldl_nil, hstep, List.filter_append,
        List.getLast?_append]
      by_cases hwrites : writes a
      · simp [hwrites]
      · simp [hwrites, ih]

section Fields

variable (m : ParseMeta) (o : OptionRecord)

/-- `ntohl` of four bytes is the number they spell. -/
theorem htonl_load32_bytesAt {data : List UInt8} (h : data.length = 4) :
    htonl (load32 (bytesAt data) 0) = bigEndian data := by
  obtain ⟨a, b, c, d, rfl⟩ := List.length_eq_four.mp h
  have hword : htonl (load32 (bytesAt [a, b, c, d]) 0) = ipToUint32 a b c d := htonl_load32 _ 0
  have hlt := (ipToUint32 a b c d).toNat_lt
  rw [toNat_ipToUint32] at hlt
  rw [hword, ← UInt32.toNat_inj, toNat_ipToUint32, bigEndian, UInt32.toNat_ofNat']
  simp only [List.foldl_cons, List.foldl_nil, Nat.zero_mul, Nat.zero_add]
  exact (Nat.mod_eq_of_lt hlt).symm

theorem loadBytes_bytesAt (data : List UInt8) : loadBytes (bytesAt data) 0 4 = fourBytes data := by
  funext i
  rw [loadBytes, Nat.zero_add, bytesAt, fourBytes]

/-- What one record sets. -/
theorem ParseMeta.replyOptions_take : (m.take o).replyOptions =
    { dhcpType :=
        if o.code = optMsgType ∧ o.data.length = 1 then o.data.getD 0 0 else m.dhcpType
      serverIp :=
        if o.code = optServerIp ∧ o.data.length = 4 then fourBytes o.data else m.serverIp
      leaseTime :=
        if o.code = optLeaseTime ∧ o.data.length = 4 then bigEndian o.data else m.leaseTime
      subnetMask :=
        if o.code = optSubnetMask ∧ o.data.length = 4 then fourBytes o.data
        else m.subnetMask } := by
  -- the four codes differ, so at most one of the guards can hold
  have hserver : optServerIp ≠ optMsgType := by decide
  have hlease : optLeaseTime ≠ optMsgType ∧ optLeaseTime ≠ optServerIp := by decide
  have hmask : optSubnetMask ≠ optMsgType ∧ optSubnetMask ≠ optServerIp ∧
      optSubnetMask ≠ optLeaseTime := by decide
  unfold ParseMeta.take ParseMeta.takeOption ParseMeta.replyOptions
  by_cases htype : o.code = optMsgType
  · simp only [htype, hserver.symm, hlease.1.symm, hmask.1.symm, if_true, true_and, false_and,
      if_false, ite_not]
    split_ifs
    · rfl
    · rfl
  by_cases hserverId : o.code = optServerIp
  · simp only [hserverId, hserver, hlease.2.symm, hmask.2.1.symm, if_true, true_and, false_and,
      if_false, ite_not, loadBytes_bytesAt]
    split_ifs
    · rfl
    · rfl
  by_cases hleaseTime : o.code = optLeaseTime
  · simp only [hleaseTime, hlease.1, hlease.2, hmask.2.2.symm, if_true, true_and, false_and,
      if_false, ite_not]
    split_ifs with hlen
    · rw [htonl_load32_bytesAt hlen]
    · rfl
  by_cases hsubnet : o.code = optSubnetMask
  · simp only [hsubnet, hmask.1, hmask.2.1, hmask.2.2, if_true, true_and, false_and, if_false,
      ite_not, loadBytes_bytesAt]
    split_ifs
    · rfl
    · rfl
  simp only [htype, hserverId, hleaseTime, hsubnet, false_and, if_false]

end Fields

/-- What a sequence of records leaves in a field that records of one kind set. -/
theorem foldl_take_field {β : Type} (field : ParseMeta → β) (code : UInt8) (length : ℕ)
    (value : List UInt8 → β)
    (htake : ∀ (m : ParseMeta) (o : OptionRecord), field (m.take o) =
      if o.code = code ∧ o.data.length = length then value o.data else field m)
    (os : List OptionRecord) (m : ParseMeta) :
    field (os.foldl ParseMeta.take m) = ((lastData os code length).map value).getD (field m) := by
  rw [lastData, Option.map_map]
  exact foldl_last_write field (value ∘ OptionRecord.data) _ htake os m

/-- **A sequence of records leaves the values of the last ones.** -/
theorem replyOptions_foldl_take (os : List OptionRecord) (m : ParseMeta) :
    (os.foldl ParseMeta.take m).replyOptions =
      { dhcpType := ((lastData os optMsgType 1).map fun data => data.getD 0 0).getD m.dhcpType
        serverIp := ((lastData os optServerIp 4).map fourBytes).getD m.serverIp
        leaseTime := ((lastData os optLeaseTime 4).map bigEndian).getD m.leaseTime
        subnetMask := ((lastData os optSubnetMask 4).map fourBytes).getD m.subnetMask } := by
  have htype := foldl_take_field ParseMeta.dhcpType optMsgType 1 (fun data => data.getD 0 0)
    (fun m o => congrArg ReplyOptions.dhcpType (m.replyOptions_take o)) os m
  have hserver := foldl_take_field ParseMeta.serverIp optServerIp 4 fourBytes
    (fun m o => congrArg ReplyOptions.serverIp (m.replyOptions_take o)) os m
  have hlease := foldl_take_field ParseMeta.leaseTime optLeaseTime 4 bigEndian
    (fun m o => congrArg ReplyOptions.leaseTime (m.replyOptions_take o)) os m
  have hmask := foldl_take_field ParseMeta.subnetMask optSubnetMask 4 fourBytes
    (fun m o => congrArg ReplyOptions.subnetMask (m.replyOptions_take o)) os m
  rw [ParseMeta.replyOptions, htype, hserver, hlease, hmask]

/-! ## The loop on an area -/

section Loop

variable {dhcpOptions : ℕ → UInt8} {optsLen : ℕ}

/-- A PAD byte is stepped over. -/
theorem parseOptions_pad {optIdx : ℕ} (hpad : dhcpOptions optIdx = optPad)
    (hin : optIdx < optsLen) (fuel : ℕ) (m : ParseMeta) :
    parseOptions dhcpOptions optsLen (fuel + 1) optIdx m =
      parseOptions dhcpOptions optsLen fuel (optIdx + 1) m := by
  rw [parseOptions_succ, if_pos hin]
  simp only [hpad, if_true]

/-- Each way an area can end stops the loop. -/
theorem parseOptions_areaEnd {rest : List UInt8} (hrest : AreaEnd rest) {optIdx : ℕ}
    (hold : Holds dhcpOptions optIdx rest) (hlen : optIdx + rest.length = optsLen) (fuel : ℕ)
    (m : ParseMeta) : parseOptions dhcpOptions optsLen fuel optIdx m = m := by
  cases fuel with
  | zero => rfl
  | succ fuel =>
      cases hrest with
      | exhausted =>
          rw [List.length_nil] at hlen
          rw [parseOptions_succ, if_neg (by omega)]
      | marker rest => exact parseOptions_end (holds_cons.mp hold).1 _ m
      | noLength code hpad hend =>
          rw [List.length_singleton] at hlen
          rw [parseOptions_succ, if_pos (by omega)]
          simp only [(holds_cons.mp hold).1]
          rw [if_neg (show ¬ code = optPad from hpad), if_pos (Or.inr (by omega))]
      | noData code length data hpad hend hshort =>
          rw [holds_cons, holds_cons] at hold
          simp only [List.length_cons] at hlen
          have hnot : ¬ (code = optEnd ∨ optIdx + 1 ≥ optsLen) := by
            rintro (hmarker | hout)
            · exact hend hmarker
            · omega
          rw [parseOptions_succ, if_pos (by omega)]
          simp only [hold.1, hold.2.1]
          rw [if_neg (show ¬ code = optPad from hpad), if_neg hnot, if_pos (by omega)]

/-- **The loop follows the grammar**: on items and an end it takes the records among the
items. -/
theorem parseOptions_items {rest : List UInt8} (hrest : AreaEnd rest) :
    ∀ (items : List AreaItem) (optIdx fuel : ℕ) (m : ParseMeta),
      Holds dhcpOptions optIdx (items.flatMap AreaItem.encode ++ rest) →
      optIdx + (items.flatMap AreaItem.encode ++ rest).length = optsLen →
      optsLen - optIdx ≤ fuel →
      parseOptions dhcpOptions optsLen fuel optIdx m =
        (records items).foldl ParseMeta.take m := by
  intro items
  induction items with
  | nil =>
      intro optIdx fuel m hold hlen _
      exact parseOptions_areaEnd hrest hold hlen fuel m
  | cons item items ih =>
      intro optIdx fuel m hold hlen hfuel
      rw [List.flatMap_cons, List.append_assoc] at hold hlen
      rw [holds_append] at hold
      rw [List.length_append, ← Nat.add_assoc] at hlen
      cases item with
      | pad =>
          have hone : AreaItem.pad.encode.length = 1 := rfl
          obtain ⟨fuel, rfl⟩ := Nat.exists_eq_succ_of_ne_zero (show fuel ≠ 0 by omega)
          rw [parseOptions_pad (holds_cons.mp hold.1).1 (by omega)]
          exact ih (optIdx + 1) fuel m hold.2 hlen (by omega)
      | record o =>
          have htwo : (AreaItem.record o).encode.length = 2 + o.data.length := o.length_encode
          have hfit : optIdx + (AreaItem.record o).encode.length ≤ optsLen := by omega
          have hrest : optsLen - (optIdx + (AreaItem.record o).encode.length) ≤ fuel - 1 := by omega
          obtain ⟨fuel, rfl⟩ := Nat.exists_eq_succ_of_ne_zero (show fuel ≠ 0 by omega)
          rw [parseOptions_record hold.1 hfit]
          exact ih _ fuel _ hold.2 hlen hrest

/-! ## The reads of the loop -/

/-- The indices that the `switch` reads for an option of `optLen` bytes at `data`. -/
def takeOptionReads (optType : UInt8) (optLen data : ℕ) : List ℕ :=
  if optType = optMsgType then if optLen ≠ 1 then [] else [data]
  else if optType = optServerIp ∨ optType = optLeaseTime ∨ optType = optSubnetMask then
    if optLen ≠ 4 then [] else [data, data + 1, data + 2, data + 3]
  else []

/-- The option loop with the indices it reads, in order, beside the report; `none` if it has
not ended by then. -/
def parseOptionsTraced (dhcpOptions : ℕ → UInt8) (optsLen : ℕ) :
    ℕ → ℕ → ParseMeta → Option (List ℕ × ParseMeta)
  | 0, _, _ => none
  | fuel + 1, optIdx, m =>
      if optIdx < optsLen then
        let typeIdx := optIdx
        let optType := dhcpOptions optIdx
        let optIdx := optIdx + 1
        if optType = optPad then
          (parseOptionsTraced dhcpOptions optsLen fuel optIdx m).map
            fun rest => (typeIdx :: rest.1, rest.2)
        else if optType = optEnd ∨ optIdx ≥ optsLen then some ([typeIdx], m)
        else
          let lenIdx := optIdx
          let optLen := (dhcpOptions optIdx).toNat
          let optIdx := optIdx + 1
          if optIdx + optLen > optsLen then some ([typeIdx, lenIdx], m)
          else
            let done := m.switchOption dhcpOptions optType optLen optIdx
            (parseOptionsTraced dhcpOptions optsLen fuel done.2 done.1).map
              fun rest =>
                (typeIdx :: lenIdx :: takeOptionReads optType optLen optIdx ++ rest.1, rest.2)
      else some ([], m)

/-- The `switch` reads the data of the option only. -/
theorem lt_of_mem_takeOptionReads {optType : UInt8} {optLen data i : ℕ}
    (h : i ∈ takeOptionReads optType optLen data) : i < data + optLen := by
  unfold takeOptionReads at h
  split_ifs at h with htype hone hother hfour
  · cases h
  · rw [List.mem_singleton] at h
    omega
  · cases h
  · simp only [List.mem_cons, List.not_mem_nil, or_false] at h
    omega
  · cases h

/-- **The loop ends, inside the option bytes**: each iteration moves the index on, so one
iteration more than there are bytes is enough to see the loop condition fail. -/
theorem parseOptionsTraced_ends :
    ∀ (fuel optIdx : ℕ) (m : ParseMeta), optsLen - optIdx ≤ fuel →
      ∃ reads, parseOptionsTraced dhcpOptions optsLen (fuel + 1) optIdx m =
          some (reads, parseOptions dhcpOptions optsLen fuel optIdx m) ∧
        ∀ i ∈ reads, i < optsLen := by
  intro fuel
  induction fuel with
  | zero =>
      intro optIdx m hfuel
      refine ⟨[], ?_, by simp⟩
      rw [parseOptionsTraced, if_neg (by omega), parseOptions]
  | succ fuel ih =>
      intro optIdx m hfuel
      rw [parseOptionsTraced, parseOptions_succ]
      by_cases hin : optIdx < optsLen
      swap
      · rw [if_neg hin, if_neg hin]
        exact ⟨[], rfl, by simp⟩
      rw [if_pos hin, if_pos hin]
      dsimp only
      split_ifs with hpad hstop hlong
      · obtain ⟨reads, hreads, hlt⟩ := ih (optIdx + 1) m (by omega)
        refine ⟨optIdx :: reads, by rw [hreads, Option.map_some], ?_⟩
        simpa using ⟨hin, hlt⟩
      · exact ⟨[optIdx], rfl, by simpa using hin⟩
      · refine ⟨[optIdx, optIdx + 1], rfl, ?_⟩
        simp only [List.mem_cons, List.not_mem_nil, or_false, forall_eq_or_imp, forall_eq]
        omega
      · obtain ⟨reads, hreads, hlt⟩ := ih (optIdx + 2 + (dhcpOptions (optIdx + 1)).toNat)
          (m.takeOption (dhcpOptions optIdx) (dhcpOptions (optIdx + 1)).toNat
            fun i => dhcpOptions (optIdx + 2 + i)) (by omega)
        refine ⟨_, by rw [ParseMeta.switchOption_eq, hreads, Option.map_some], ?_⟩
        intro i hi
        simp only [List.cons_append, List.mem_cons, List.mem_append] at hi
        rcases hi with rfl | rfl | hdata | hrest
        · exact hin
        · omega
        · have := lt_of_mem_takeOptionReads hdata
          omega
        · exact hlt i hrest

end Loop

/-! ## The report of a reply -/

/-- The report when the option loop starts: the addresses of the headers, and the rest reset. -/
def headerReport (buf : ℕ → UInt8) (m : ParseMeta) : ParseMeta :=
  { m.reset with
    serverMac := (EthernetHdr.load buf 0).srcMAC
    serverIp := (DhcpHdr.load buf (etherLen + ipv4Len + udpLen)).siaddr
    offeredIp := (DhcpHdr.load buf (etherLen + ipv4Len + udpLen)).yiaddr }

/-- The loop on an area computes what the reference decodes, from any start. -/
theorem parseOptions_eq_foldl (dhcpOptions : ℕ → UInt8) (optsLen : ℕ) (m : ParseMeta) :
    parseOptions dhcpOptions optsLen optsLen 0 m =
      (records (splitArea ((List.range optsLen).map dhcpOptions))).foldl ParseMeta.take m := by
  obtain ⟨rest, hrest, harea⟩ := exists_areaEnd ((List.range optsLen).map dhcpOptions)
  have hold : Holds dhcpOptions 0 ((List.range optsLen).map dhcpOptions) := by
    intro i hi
    rw [List.getD_eq_getElem _ _ hi, List.getElem_map, List.getElem_range, Nat.zero_add]
  rw [← harea] at hold
  refine parseOptions_items hrest _ 0 optsLen m hold ?_ (Nat.sub_le _ _)
  rw [harea, Nat.zero_add, List.length_map, List.length_range]

/-- **The client's option parser is safe and equals the TLV grammar.**  For every frame that
gets past the header checks, whatever its option bytes are: the loop ends by itself, it reads
no index past the last option byte, and the four values it reports are those of the
reference decoder. -/
theorem parseFrame_eq_decodeReply (buf : ℕ → UInt8) (buflen : ℕ) (m : ParseMeta)
    (hparsed : parseFrameExit buf buflen m = .parsed) :
    let dhcpOptions := fun i => buf (minRecvLen + i)
    let optsLen := buflen - minRecvLen
    let report := (parseFrame buf buflen m).2
    (∃ reads, parseOptionsTraced dhcpOptions optsLen (optsLen + 1) 0 (headerReport buf m) =
        some (reads, report) ∧ ∀ i ∈ reads, i < optsLen) ∧
      report.replyOptions =
        decodeReply (DhcpHdr.load buf (etherLen + ipv4Len + udpLen)).siaddr
          ((List.range optsLen).map dhcpOptions) := by
  intro dhcpOptions optsLen report
  obtain ⟨hpasses, hxid⟩ := parseFrameExit_eq_parsed_iff.mp hparsed
  have hreport : report = parseOptions dhcpOptions optsLen optsLen 0 (headerReport buf m) := by
    rw [show report = (parseFrame buf buflen m).2 from rfl, parseFrame_of_passes hpasses hxid,
      headerReport]
  refine ⟨?_, ?_⟩
  · rw [hreport]
    exact parseOptionsTraced_ends optsLen 0 _ (Nat.sub_le _ _)
  · rw [hreport, parseOptions_eq_foldl, replyOptions_foldl_take, decodeReply]
    rfl

/-- The meta data that a client with this `xid` starts from. -/
def expecting (xid : UInt32) : ParseMeta where
  serverMac := fun _ => 0
  offeredIp := fun _ => 0
  serverIp := fun _ => 0
  subnetMask := fun _ => 0
  dhcpType := 0
  leaseTime := 0
  xid := xid

/-- It reports what the client reads of a reply. -/
theorem parseFrame_expecting (xid : UInt32) (frame : List UInt8) :
    (parseFrame (bytesAt frame) frame.length (expecting xid)).2 = parsedReply xid frame := rfl

theorem replyOptions_parsedReply (xid : UInt32) (frame : List UInt8) :
    (parsedReply xid frame).replyOptions.dhcpType = replyType xid frame := rfl

/-- The OFFER that a server builds for client 7. -/
theorem parseFrame_eq_decodeReply_offer :
    let dhcpOptions := fun i => bytesAt benchReplies.1 (minRecvLen + i)
    let optsLen := benchReplies.1.length - minRecvLen
    (∃ reads start, parseOptionsTraced dhcpOptions optsLen (optsLen + 1) 0 start =
        some (reads, parsedReply 7 benchReplies.1) ∧ ∀ i ∈ reads, i < optsLen) ∧
      ∃ siaddr, (decodeReply siaddr ((List.range optsLen).map dhcpOptions)).dhcpType =
        dhcpOffer := by
  obtain ⟨hreceived, htype⟩ := benchReplies_spec.1
  generalize benchReplies.1 = frame at hreceived htype ⊢
  have hmain := parseFrame_eq_decodeReply (bytesAt frame) frame.length (expecting 7)
    (parsed_of_received hreceived)
  dsimp only at hmain
  rw [parseFrame_expecting] at hmain
  obtain ⟨⟨reads, hreads, hlt⟩, hreport⟩ := hmain
  rw [← replyOptions_parsedReply, hreport] at htype
  exact ⟨⟨reads, _, hreads, hlt⟩, _, htype⟩

/-- A type of the wrong length is passed over, and a lease time that is cut off is not read. -/
example : (parseOptionsTraced (bytesAt [53, 2, 9, 9, 0, 53, 1, 5, 51, 4, 0, 0]) 12 13 0
    (expecting 7)).map
      (fun walk => (walk.1, walk.2.dhcpType, walk.2.leaseTime)) =
    some ([0, 1, 4, 5, 6, 7, 8, 9], 5, 0) := by decide

end BaremetalDhcp
