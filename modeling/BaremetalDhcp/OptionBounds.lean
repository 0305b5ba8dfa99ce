import BaremetalDhcp.Options

/-!
# Where the option walkers read and write

`Options` says what the two walkers of `dhcp_server.c` compute.  This module says
which bytes they touch while doing so.

* `getOptionTraced`, `addOptionTraced` — the two walks with the indices they
  read; forgetting the indices gives back `getOptionLoop` and `addOptionLoop`.
* `StaysInside` — a lookup ends, reads no index past 307, and returns data that
  end inside the array.
* `ClosedFor` — what an area has to look like for that: PAD bytes and complete
  options of other codes, and behind them, still inside the array, an END marker
  or a complete option with the wanted code.
* `addAll` — a list of `dhcp_add_option` calls on one message; `accepted` says
  which of them go through.

`dhcp_get_option` reads the byte under its cursor before it compares the cursor
with the end of the array, while `dhcp_add_option` compares first.  The two
traces keep that difference: an area that is never closed makes the first walk
read index 308, and the second one stop there.
-/

namespace BaremetalDhcp

variable {mem : ℕ → UInt8} {option : UInt8} {ptr : ℕ}

/-! ## The reads of a lookup -/

/-- The search loop of `dhcp_get_option` with the indices it reads, in order,
beside what it returns. -/
def getOptionTraced (mem : ℕ → UInt8) (option : UInt8) :
    ℕ → ℕ → List ℕ × Option (ℕ × UInt8)
  | 0, _ => ([], none)
  | fuel + 1, ptr =>
      if mem ptr ≠ dhcpOptEnd ∧ ptr < 308 then
        if mem ptr = option then ([ptr, ptr + 1], some (ptr + 2, mem (ptr + 1)))
        else if mem ptr = dhcpOptPad then
          let rest := getOptionTraced mem option fuel (ptr + 1)
          (ptr :: rest.1, rest.2)
        else
          let rest := getOptionTraced mem option fuel (ptr + (2 + (mem (ptr + 1)).toNat))
          (ptr :: (ptr + 1) :: rest.1, rest.2)
      -- the marker is looked for first, so the byte is read even at index 308
      else ([ptr], none)

/-- Without its indices the traced walk is the walk of the model. -/
theorem getOptionTraced_snd (mem : ℕ → UInt8) (option : UInt8) :
    ∀ fuel ptr, (getOptionTraced mem option fuel ptr).2 = getOptionLoop mem option fuel ptr := by
  intro fuel
  induction fuel with
  | zero => intro ptr; rfl
  | succ fuel ih =>
      intro ptr
      rw [getOptionTraced, getOptionLoop]
      split_ifs with hin hhit hpad
      · rfl
      · exact ih _
      · exact ih _
      · rfl

/-- The traced walk ends by itself: more iterations change nothing. -/
theorem getOptionTraced_fuel (mem : ℕ → UInt8) (option : UInt8) :
    ∀ (fuel ptr : ℕ), 309 - ptr ≤ fuel → 0 < fuel → ∀ extra,
      getOptionTraced mem option (fuel + extra) ptr = getOptionTraced mem option fuel ptr := by
  intro fuel
  induction fuel with
  | zero => intro ptr _ hpos; omega
  | succ fuel ih =>
      intro ptr hle _ extra
      rw [Nat.succ_add]
      simp only [getOptionTraced]
      split_ifs with hin hhit hpad
      · rfl
      · rw [ih (ptr + 1) (by omega) (by omega) extra]
      · rw [ih _ (by omega) (by omega) extra]
      · rfl

/-- The indices `dhcp_get_option` reads. -/
def dhcpGetOptionReads (msg : DhcpMessage) (behind : ℕ → UInt8) (option : UInt8) : List ℕ :=
  (getOptionTraced (msg.optByte behind) option 309 0).1

/-- A traced lookup keeps to the array: every index it reads is in it, and so is
every byte of the data it returns. -/
def Inside (walk : List ℕ × Option (ℕ × UInt8)) : Prop :=
  (∀ i ∈ walk.1, i < 308) ∧
    ∀ found length, walk.2 = some (found, length) → ∀ k < length.toNat, found + k < 308

/-- `dhcp_get_option` never leaves the option field. -/
structure StaysInside (msg : DhcpMessage) (behind : ℕ → UInt8) (option : UInt8) : Prop where
  /-- The loop ends: iterations beyond the 309th never happen. -/
  ends : ∀ extra, getOptionTraced (msg.optByte behind) option (309 + extra) 0 =
    getOptionTraced (msg.optByte behind) option 309 0
  reads : ∀ i ∈ dhcpGetOptionReads msg behind option, i < 308
  data : ∀ found length, dhcpGetOption msg behind option = some (found, length) →
    ∀ k < length.toNat, found + k < 308

theorem staysInside_iff (msg : DhcpMessage) (behind : ℕ → UInt8) (option : UInt8) :
    StaysInside msg behind option ↔
      Inside (getOptionTraced (msg.optByte behind) option 309 0) := by
  have hends := getOptionTraced_fuel (msg.optByte behind) option 309 0 (by omega) (by omega)
  have hvalue := getOptionTraced_snd (msg.optByte behind) option 309 0
  constructor
  · intro h
    refine ⟨h.reads, fun found length hfound => h.data found length ?_⟩
    rw [dhcpGetOption, ← hvalue, hfound]
  · rintro ⟨hreads, hdata⟩
    refine ⟨hends, hreads, fun found length hfound => hdata found length ?_⟩
    rw [hvalue, ← hfound, dhcpGetOption]

/-! ## Areas that close in time -/

/-- What a lookup steps over: a PAD byte, or one record. -/
inductive AreaItem where
  | pad
  | record (o : OptionRecord)

namespace AreaItem

/-- The byte the walk compares with the wanted code. -/
def code : AreaItem → UInt8
  | pad => dhcpOptPad
  | record o => o.code

/-- The bytes of an item. -/
def encode : AreaItem → List UInt8
  | pad => [dhcpOptPad]
  | record o => o.encode

end AreaItem

/-- What may stop a lookup: an END marker, or an option with the wanted code and
all of its data. -/
inductive Terminator (option : UInt8) : List UInt8 → Prop
  | marker : Terminator option [dhcpOptEnd]
  | found (data : List UInt8) (hne : option ≠ dhcpOptEnd) (hlen : data.length < 256) :
      Terminator option (option :: UInt8.ofNat data.length :: data)

/-- The array starts with items of other codes and then closes. -/
def ClosedFor (msg : DhcpMessage) (option : UInt8) : Prop :=
  ∃ (items : List AreaItem) (last : List UInt8),
    (∀ item ∈ items, item.code ≠ option) ∧ Terminator option last ∧
      items.flatMap AreaItem.encode ++ last <+: List.ofFn msg.options

/-- The same from an index on, over any memory. -/
def ClosedFrom (mem : ℕ → UInt8) (option : UInt8) (ptr : ℕ) : Prop :=
  ∃ (items : List AreaItem) (last : List UInt8),
    (∀ item ∈ items, item.code ≠ option) ∧ Terminator option last ∧
      ptr + (items.flatMap AreaItem.encode ++ last).length ≤ 308 ∧
      Holds mem ptr (items.flatMap AreaItem.encode ++ last)

/-- A prefix of the array is a string that fits and is held at index 0. -/
theorem prefix_options_iff (msg : DhcpMessage) (behind : ℕ → UInt8) (bytes : List UInt8) :
    bytes <+: List.ofFn msg.options ↔
      bytes.length ≤ 308 ∧ Holds (msg.optByte behind) 0 bytes := by
  rw [List.prefix_iff_getElem]
  constructor
  · rintro ⟨hle, hget⟩
    rw [List.length_ofFn] at hle
    refine ⟨hle, fun i hi => ?_⟩
    have hi' : i < 308 := by omega
    rw [Nat.zero_add, List.getD_eq_getElem _ _ hi, hget i hi, List.getElem_ofFn,
      DhcpMessage.optByte, dif_pos hi']
  · rintro ⟨hle, hold⟩
    refine ⟨by rwa [List.length_ofFn], fun i hi => ?_⟩
    have hi' : i < 308 := by omega
    have hbyte := hold i hi
    rw [Nat.zero_add, List.getD_eq_getElem _ _ hi, DhcpMessage.optByte, dif_pos hi'] at hbyte
    rw [List.getElem_ofFn, ← hbyte]

theorem closedFor_iff (msg : DhcpMessage) (behind : ℕ → UInt8) (option : UInt8) :
    ClosedFor msg option ↔ ClosedFrom (msg.optByte behind) option 0 := by
  simp only [ClosedFor, ClosedFrom, prefix_options_iff msg behind, Nat.zero_add]

/-- The first byte of a closing string, and what it says about the rest. -/
theorem Terminator.cases {last : List UInt8} (h : Terminator option last)
    (hfit : ptr + last.length ≤ 308) (hold : Holds mem ptr last) :
    (mem ptr = dhcpOptEnd ∧ ptr < 308) ∨
      (mem ptr ≠ dhcpOptEnd ∧ mem ptr = option ∧
        ptr + 2 + (mem (ptr + 1)).toNat ≤ 308) := by
  cases h with
  | marker =>
      rw [holds_cons] at hold
      exact Or.inl ⟨hold.1, by simpa using hfit⟩
  | found data hne hlen =>
      rw [holds_cons, holds_cons] at hold
      refine Or.inr ⟨by rw [hold.1]; exact hne, hold.1, ?_⟩
      rw [hold.2.1, UInt8.toNat_ofNat', Nat.mod_eq_of_lt hlen]
      simp only [List.length_cons] at hfit
      omega

/-- **What one iteration meets in an area that closes.**  The byte under the
cursor is the marker, the wanted code, a PAD, or the code of a record that is
wholly in the array, and what follows the last two closes as well. -/
theorem ClosedFrom.cases (h : ClosedFrom mem option ptr) :
    (mem ptr = dhcpOptEnd ∧ ptr < 308) ∨
      (mem ptr ≠ dhcpOptEnd ∧ mem ptr = option ∧
        ptr + 2 + (mem (ptr + 1)).toNat ≤ 308) ∨
      (mem ptr ≠ dhcpOptEnd ∧ mem ptr ≠ option ∧ mem ptr = dhcpOptPad ∧
        ClosedFrom mem option (ptr + 1)) ∨
      (mem ptr ≠ dhcpOptEnd ∧ mem ptr ≠ option ∧ mem ptr ≠ dhcpOptPad ∧
        ClosedFrom mem option (ptr + (2 + (mem (ptr + 1)).toNat))) := by
  obtain ⟨items, last, hcodes, hlast, hfit, hold⟩ := h
  cases items with
  | nil =>
      rcases hlast.cases hfit hold with hend | hfound
      · exact Or.inl hend
      · exact Or.inr (Or.inl hfound)
  | cons item items =>
      rw [List.flatMap_cons, List.append_assoc] at hfit hold
      rw [holds_append] at hold
      rw [List.length_append, ← Nat.add_assoc] at hfit
      have hrest : ClosedFrom mem option (ptr + item.encode.length) :=
        ⟨items, last, fun x hx => hcodes x (List.mem_cons_of_mem _ hx), hlast, hfit, hold.2⟩
      have hcode := hcodes item List.mem_cons_self
      cases item with
      | pad =>
          have hbyte : mem ptr = dhcpOptPad := (holds_cons.mp hold.1).1
          refine Or.inr (Or.inr (Or.inl ⟨?_, ?_, hbyte, hrest⟩))
          · rw [hbyte]
            decide
          · rw [hbyte]
            exact hcode
      | record o =>
          obtain ⟨hhead, hlength⟩ := hold
          rw [AreaItem.encode, OptionRecord.encode, holds_cons, holds_cons] at hhead
          refine Or.inr (Or.inr (Or.inr ⟨?_, ?_, ?_, ?_⟩))
          · rw [hhead.1]
            exact o.code_ne_end
          · rw [hhead.1]
            exact hcode
          · rw [hhead.1]
            exact o.code_ne_pad
          · rw [hhead.2.1, o.toNat_lengthByte, ← o.length_encode]
            exact hrest

/-- The byte under the cursor of an area that closes is in the array. -/
theorem ClosedFrom.lt (h : ClosedFrom mem option ptr) : ptr < 308 := by
  obtain ⟨items, last, -, hlast, hfit, -⟩ := h
  have hpos : 0 < last.length := by cases hlast <;> simp
  rw [List.length_append] at hfit
  omega

@[simp] theorem length_dataAt (mem : ℕ → UInt8) (found : ℕ × UInt8) :
    (dataAt mem found).length = found.2.toNat := by
  simp [dataAt]

theorem holds_dataAt (mem : ℕ → UInt8) (found : ℕ × UInt8) :
    Holds mem found.1 (dataAt mem found) := by
  intro i hi
  rw [List.getD_eq_getElem _ _ hi]
  simp [dataAt]

theorem closedFrom_end (hend : mem ptr = dhcpOptEnd) (hin : ptr < 308) :
    ClosedFrom mem option ptr :=
  ⟨[], [dhcpOptEnd], by simp, .marker, by simpa using hin,
    holds_cons.mpr ⟨hend, by simp [Holds]⟩⟩

theorem closedFrom_found (hne : mem ptr ≠ dhcpOptEnd)
    (hin : ptr + 2 + (mem (ptr + 1)).toNat ≤ 308) : ClosedFrom mem (mem ptr) ptr := by
  have hlen : (dataAt mem (ptr + 2, mem (ptr + 1))).length < 256 := by
    rw [length_dataAt]
    exact (mem (ptr + 1)).toNat_lt
  refine ⟨[], _, by simp, .found (dataAt mem (ptr + 2, mem (ptr + 1))) hne hlen, ?_, ?_⟩
  · simp only [List.flatMap_nil, List.nil_append, List.length_cons, length_dataAt]
    omega
  · refine holds_cons.mpr ⟨rfl, holds_cons.mpr ⟨?_, holds_dataAt _ _⟩⟩
    rw [length_dataAt, UInt8.ofNat_toNat]

/-- An item of another code may stand before an area that closes. -/
theorem ClosedFrom.cons (item : AreaItem) (hcode : item.code ≠ option)
    (hold : Holds mem ptr item.encode)
    (h : ClosedFrom mem option (ptr + item.encode.length)) : ClosedFrom mem option ptr := by
  obtain ⟨items, last, hcodes, hlast, hfit, hrest⟩ := h
  refine ⟨item :: items, last, ?_, hlast, ?_, ?_⟩
  · intro x hx
    rcases List.mem_cons.mp hx with rfl | hx
    · exact hcode
    · exact hcodes x hx
  · rw [List.flatMap_cons, List.append_assoc, List.length_append, ← Nat.add_assoc]
    exact hfit
  · rw [List.flatMap_cons, List.append_assoc, holds_append]
    exact ⟨hold, hrest⟩

/-- The record that stands at an index, read off the memory. -/
def recordAt (mem : ℕ → UInt8) (ptr : ℕ) (hpad : mem ptr ≠ dhcpOptPad)
    (hend : mem ptr ≠ dhcpOptEnd) : OptionRecord where
  code := mem ptr
  data := dataAt mem (ptr + 2, mem (ptr + 1))
  code_ne_pad := hpad
  code_ne_end := hend
  length_lt := by
    rw [length_dataAt]
    exact (mem (ptr + 1)).toNat_lt

/-- At the wanted code the area closes exactly when the option is complete. -/
theorem closedFrom_hit_iff (hend : mem ptr ≠ dhcpOptEnd) (hhit : mem ptr = option) :
    ClosedFrom mem option ptr ↔ ptr + 2 + (mem (ptr + 1)).toNat ≤ 308 := by
  constructor
  · intro h
    rcases h.cases with hmarker | hfound | hpad | hskip
    · exact absurd hmarker.1 hend
    · exact hfound.2.2
    · exact absurd hhit hpad.2.1
    · exact absurd hhit hskip.2.1
  · intro hfit
    exact hhit ▸ closedFrom_found hend hfit

/-- A PAD byte leaves the question to the next byte. -/
theorem closedFrom_pad_iff (hend : mem ptr ≠ dhcpOptEnd) (hne : mem ptr ≠ option)
    (hpad : mem ptr = dhcpOptPad) :
    ClosedFrom mem option ptr ↔ ClosedFrom mem option (ptr + 1) := by
  constructor
  · intro h
    rcases h.cases with hmarker | hfound | hrest | hskip
    · exact absurd hmarker.1 hend
    · exact absurd hfound.2.1 hne
    · exact hrest.2.2.2
    · exact absurd hpad hskip.2.2.1
  · intro h
    rw [hpad] at hne
    exact ClosedFrom.cons .pad hne (holds_cons.mpr ⟨hpad, by simp [Holds]⟩) h

/-- An option of another code leaves it to what follows the option. -/
theorem closedFrom_skip_iff (hend : mem ptr ≠ dhcpOptEnd) (hne : mem ptr ≠ option)
    (hpad : mem ptr ≠ dhcpOptPad) :
    ClosedFrom mem option ptr ↔ ClosedFrom mem option (ptr + (2 + (mem (ptr + 1)).toNat)) := by
  have hlen : (recordAt mem ptr hpad hend).encode.length = 2 + (mem (ptr + 1)).toNat := by
    rw [OptionRecord.length_encode, recordAt, length_dataAt]
  constructor
  · intro h
    rcases h.cases with hmarker | hfound | hpad' | hrest
    · exact absurd hmarker.1 hend
    · exact absurd hfound.2.1 hne
    · exact absurd hpad'.2.2.1 hpad
    · exact hrest.2.2.2
  · intro h
    refine ClosedFrom.cons (.record (recordAt mem ptr hpad hend)) hne ?_ ?_
    · refine holds_cons.mpr ⟨rfl, holds_cons.mpr ⟨?_, holds_dataAt _ _⟩⟩
      rw [OptionRecord.lengthByte, recordAt, length_dataAt, UInt8.ofNat_toNat]
    · rw [AreaItem.encode, hlen]
      exact h

/-- Where the loop stops without a hit, the area closes exactly inside the array. -/
theorem closedFrom_stop_iff (hstop : ¬ (mem ptr ≠ dhcpOptEnd ∧ ptr < 308)) :
    ClosedFrom mem option ptr ↔ ptr < 308 := by
  refine ⟨ClosedFrom.lt, fun hlt => closedFrom_end ?_ hlt⟩
  by_contra hne
  exact hstop ⟨hne, hlt⟩

/-! ## When a lookup stays inside -/

/-- A walk that goes on after reading some bytes stays inside when these bytes
and the rest of the walk do. -/
theorem inside_append (reads : List ℕ) (walk : List ℕ × Option (ℕ × UInt8)) :
    Inside (reads ++ walk.1, walk.2) ↔ (∀ i ∈ reads, i < 308) ∧ Inside walk := by
  simp only [Inside, List.forall_mem_append, and_assoc]

/-- A walk that ends with a hit stays inside when the option does. -/
theorem inside_found_iff (length : UInt8) :
    Inside ([ptr, ptr + 1], some (ptr + 2, length)) ↔ ptr + 2 + length.toNat ≤ 308 := by
  constructor
  · rintro ⟨hreads, hdata⟩
    have hlength := hreads (ptr + 1) (by simp)
    have hlast := hdata _ _ rfl (length.toNat - 1)
    omega
  · intro hfit
    refine ⟨fun i hi => ?_, fun found length' hsome k hk => ?_⟩
    · simp only [List.mem_cons, List.not_mem_nil, or_false] at hi
      omega
    · simp only [Option.some.injEq, Prod.mk.injEq] at hsome
      obtain ⟨rfl, rfl⟩ := hsome
      omega

/-- **The walk stays inside exactly when the area closes.** -/
theorem inside_getOptionTraced_iff (mem : ℕ → UInt8) (option : UInt8) :
    ∀ fuel ptr, 309 - ptr ≤ fuel → 0 < fuel →
      (Inside (getOptionTraced mem option fuel ptr) ↔ ClosedFrom mem option ptr) := by
  intro fuel
  -- one case per branch of the loop; the cursor moves towards 308, so the fuel suffices
  induction fuel with
  | zero => intro ptr _ hpos; omega
  | succ fuel ih =>
      intro ptr hle _
      rw [getOptionTraced]
      split_ifs with hin hhit hpad
      · rw [inside_found_iff, closedFrom_hit_iff hin.1 hhit]
      · have hsplit := inside_append [ptr] (getOptionTraced mem option fuel (ptr + 1))
        rw [List.singleton_append] at hsplit
        rw [hsplit, ih (ptr + 1) (by omega) (by omega), closedFrom_pad_iff hin.1 hhit hpad]
        exact and_iff_right (by simpa using hin.2)
      · have hsplit := inside_append [ptr, ptr + 1]
          (getOptionTraced mem option fuel (ptr + (2 + (mem (ptr + 1)).toNat)))
        rw [List.cons_append, List.singleton_append] at hsplit
        rw [hsplit, ih _ (by omega) (by omega), closedFrom_skip_iff hin.1 hhit hpad]
        -- both bytes stand before what closes inside
        refine and_iff_right_of_imp fun hrest i hi => ?_
        have hlt := hrest.lt
        simp only [List.mem_cons, List.not_mem_nil, or_false] at hi
        omega
      · rw [closedFrom_stop_iff hin]
        simp [Inside]

/-- **Option parsing stays in the option field exactly on areas that close in
it.**  A lookup of `option` ends, reads only indices below 308 and returns data
below 308 if and only if the array starts with PAD bytes and complete options of
other codes and these are followed, inside the array, by END or by a complete
option with the code.  What lies behind the message does not matter. -/
theorem dhcpGetOption_staysInside_iff (msg : DhcpMessage) (behind : ℕ → UInt8)
    (option : UInt8) : StaysInside msg behind option ↔ ClosedFor msg option := by
  rw [staysInside_iff, inside_getOptionTraced_iff _ _ 309 0 (by omega) (by omega),
    ← closedFor_iff]

/-- A message without options, as `kmemset` leaves it, makes every lookup of the
message type read index 308. -/
theorem dhcpGetOption_leaves_zeroed_options :
    ¬ ∀ (msg : DhcpMessage) (behind : ℕ → UInt8) (option : UInt8),
      StaysInside msg behind option := by
  intro h
  have hread := (h DhcpMessage.zero (fun _ => 0) dhcpOptMessageType).reads 308
  exact absurd (hread (by decide +kernel)) (by decide)

/-- The byte `dhcp_get_message_type` takes for the type. -/
theorem StaysInside.type_byte {msg : DhcpMessage} {behind : ℕ → UInt8}
    (h : StaysInside msg behind dhcpOptMessageType) {found : ℕ} {length : UInt8}
    (hget : dhcpGetOption msg behind dhcpOptMessageType = some (found, length))
    (hlen : 1 ≤ length) : found < 308 := by
  have hpos : 0 < length.toNat := by
    rw [UInt8.le_iff_toNat_le] at hlen
    exact hlen
  exact h.data found length hget 0 hpos

/-- The four bytes the `REQUEST` handlers take for the address. -/
theorem StaysInside.address_bytes {msg : DhcpMessage} {behind : ℕ → UInt8}
    (h : StaysInside msg behind dhcpOptRequestedIp) {found : ℕ}
    (hget : dhcpGetOption msg behind dhcpOptRequestedIp = some (found, 4)) :
    ∀ k < 4, found + k < 308 := by
  intro k hk
  exact h.data found 4 hget k hk

/-! ## The accesses of an addition -/

/-- The scan of `dhcp_add_option` with the indices it reads; this loop compares
its cursor with the end of the array before it reads. -/
def addOptionTraced (mem : ℕ → UInt8) : ℕ → ℕ → List ℕ × ℕ
  | 0, ptr => ([], ptr)
  | fuel + 1, ptr =>
      if ptr < 308 ∧ mem ptr ≠ dhcpOptEnd then
        if mem ptr = dhcpOptPad then
          let rest := addOptionTraced mem fuel (ptr + 1)
          (ptr :: rest.1, rest.2)
        else
          let rest := addOptionTraced mem fuel (ptr + (2 + (mem (ptr + 1)).toNat))
          (ptr :: (ptr + 1) :: rest.1, rest.2)
      else (if ptr < 308 then [ptr] else [], ptr)

theorem addOptionTraced_snd (mem : ℕ → UInt8) :
    ∀ fuel ptr, (addOptionTraced mem fuel ptr).2 = addOptionLoop mem fuel ptr := by
  intro fuel
  induction fuel with
  | zero => intro ptr; rfl
  | succ fuel ih =>
      intro ptr
      rw [addOptionTraced, addOptionLoop]
      split_ifs with hin hpad
      · exact ih _
      · exact ih _
      all_goals rfl

/-- The message after `dhcp_add_option` has looked at the first byte of the
options: a zero there is taken for an empty area and replaced by END. -/
def DhcpMessage.opened (msg : DhcpMessage) : DhcpMessage :=
  if msg.options 0 = 0 then
    { msg with options := Function.update msg.options 0 dhcpOptEnd }
  else msg

/-- The indices `dhcp_add_option` reads: the first byte, then those of the scan. -/
def dhcpAddOptionReads (msg : DhcpMessage) : List ℕ :=
  0 :: (addOptionTraced (msg.opened.optByte fun _ => 0) 309 0).1

/-- The indices `dhcp_add_option` writes: the marker in an empty area, then code,
length, data and a new marker when the option fits. -/
def dhcpAddOptionWrites (msg : DhcpMessage) (length : UInt8) : List ℕ :=
  let ptr := addOptionLoop (msg.opened.optByte fun _ => 0) 309 0
  (if msg.options 0 = 0 then [0] else []) ++
    if ptr + 2 + length.toNat + 1 ≤ 308 then
      [ptr, ptr + 1] ++ (List.range length.toNat).map (ptr + 2 + ·) ++
        (if ptr + 2 + length.toNat < 308 then [ptr + 2 + length.toNat] else [])
    else []

/-- `dhcp_add_option` on the opened message. -/
theorem dhcpAddOption_eq (msg : DhcpMessage) (option length : UInt8)
    (data : Option (ℕ → UInt8)) :
    dhcpAddOption msg option length data =
      let ptr := addOptionLoop (msg.opened.optByte fun _ => 0) 309 0
      if ptr + 2 + length.toNat + 1 ≤ 308 then
        { msg.opened with
          options := fun i =>
            if i.val = ptr then option
            else if i.val = ptr + 1 then length
            else if ptr + 2 ≤ i.val ∧ i.val < ptr + 2 + length.toNat then
              match data with
              | some bytes => bytes (i.val - (ptr + 2))
              | none => msg.opened.options i
            else if i.val = ptr + 2 + length.toNat then dhcpOptEnd
            else msg.opened.options i }
      else msg.opened :=
  rfl

/-- An index that is not written keeps its byte. -/
theorem dhcpAddOption_of_not_written (msg : DhcpMessage) (option length : UInt8)
    (data : Option (ℕ → UInt8)) (i : Fin 308) (h : i.val ∉ dhcpAddOptionWrites msg length) :
    (dhcpAddOption msg option length data).options i = msg.options i := by
  have hopened : msg.opened.options i = msg.options i := by
    rw [DhcpMessage.opened]
    split_ifs with hzero
    · refine Function.update_of_ne (fun hi => h ?_) _ _
      simp [dhcpAddOptionWrites, hi, hzero]
    · rfl
  rw [← hopened, dhcpAddOption_eq]
  simp only [dhcpAddOptionWrites] at h
  dsimp only
  split_ifs with hfit
  · rw [if_pos hfit] at h
    simp only [List.mem_append, List.mem_cons, List.not_mem_nil, or_false, List.mem_map,
      List.mem_range, not_or, not_exists, not_and] at h
    obtain ⟨-, ⟨⟨hcode, hlength⟩, hdata⟩, hmarker⟩ := h
    rw [if_pos (by omega), List.mem_singleton] at hmarker
    dsimp only
    rw [if_neg hcode, if_neg hlength, if_neg, if_neg hmarker]
    rintro ⟨hge, hlt⟩
    exact hdata (i.val - (addOptionLoop (msg.opened.optByte fun _ => 0) 309 0 + 2)) (by omega)
      (by omega)
  · rfl

/-! ## Lists of calls -/

/-- One `dhcp_add_option` call with a code other than PAD and END and a pointer
to data. -/
structure AddCall where
  code : UInt8
  length : UInt8
  data : ℕ → UInt8
  code_ne_pad : code ≠ dhcpOptPad
  code_ne_end : code ≠ dhcpOptEnd

namespace AddCall

/-- The option the call asks for: its code and the first `length` bytes. -/
def record (call : AddCall) : OptionRecord where
  code := call.code
  data := dataAt call.data (0, call.length)
  code_ne_pad := call.code_ne_pad
  code_ne_end := call.code_ne_end
  length_lt := by
    rw [length_dataAt]
    exact call.length.toNat_lt

@[simp] theorem length_record (call : AddCall) :
    call.record.data.length = call.length.toNat := length_dataAt _ _

@[simp] theorem lengthByte_record (call : AddCall) : call.record.lengthByte = call.length := by
  rw [OptionRecord.lengthByte, length_record, UInt8.ofNat_toNat]

/-- The call on a message. -/
def apply (msg : DhcpMessage) (call : AddCall) : DhcpMessage :=
  dhcpAddOption msg call.code call.length (some call.data)

/-- Only the first `length` bytes behind the pointer matter. -/
theorem apply_eq_record (msg : DhcpMessage) (call : AddCall) :
    call.apply msg = dhcpAddOption msg call.record.code call.record.lengthByte
      (some (bytesAt call.record.data)) := by
  rw [apply, lengthByte_record, dhcpAddOption_eq, dhcpAddOption_eq]
  dsimp only
  split_ifs with hfit
  · congr 1
    funext i
    have hdata := holds_dataAt call.data (0, call.length)
    split_ifs with hcode hlength hin hend
    · rfl
    · rfl
    · have hlt : i.val - (addOptionLoop (msg.opened.optByte fun _ => 0) 309 0 + 2) <
          (dataAt call.data (0, call.length)).length := by
        rw [length_dataAt]
        dsimp only
        omega
      have hbyte := hdata _ hlt
      rw [Nat.zero_add] at hbyte
      exact hbyte
    · rfl
    · rfl
  · rfl

/-- The call reads and writes bytes of the array only. -/
def InBounds (msg : DhcpMessage) (call : AddCall) : Prop :=
  (∀ i ∈ dhcpAddOptionReads msg, i < 308) ∧ ∀ i ∈ dhcpAddOptionWrites msg call.length, i < 308

end AddCall

/-- The calls of a list, one after the other. -/
def addAll (msg : DhcpMessage) (calls : List AddCall) : DhcpMessage :=
  calls.foldl (fun msg call => call.apply msg) msg

/-- Every call of the list is in bounds on the message the calls before it leave. -/
def AllInBounds : DhcpMessage → List AddCall → Prop
  | _, [] => True
  | msg, call :: calls => call.InBounds msg ∧ AllInBounds (call.apply msg) calls

/-- What becomes of an option behind those accepted before it: it is accepted
when its bytes and one END byte still fit, and dropped otherwise. -/
def accept (before : List OptionRecord) (o : OptionRecord) : List OptionRecord :=
  if (encodeAll before).length + (2 + o.data.length) + 1 ≤ 308 then before ++ [o] else before

/-- The options accepted from a list of calls. -/
def accepted (calls : List AddCall) : List OptionRecord :=
  (calls.map AddCall.record).foldl accept []

theorem accept_fits {before : List OptionRecord} (hfit : (encodeAll before).length < 308)
    (o : OptionRecord) : (encodeAll (accept before o)).length < 308 := by
  rw [accept]
  split_ifs with hroom
  · simp only [encodeAll_append, encodeAll_cons, encodeAll_nil, List.append_nil,
      List.length_append, o.length_encode]
    omega
  · exact hfit

/-- The message behaves as one that holds the options `os`: with the marker
planted in an empty area, its option array is theirs. -/
structure Carries (msg : DhcpMessage) (os : List OptionRecord) : Prop where
  area : msg.opened.options = optionArea os
  fits : (encodeAll os).length < 308

theorem opened_optionArea {msg : DhcpMessage} {os : List OptionRecord}
    (h : msg.options = optionArea os) : msg.opened = msg := by
  rw [DhcpMessage.opened, if_neg]
  rw [h]
  exact optionArea_zero_ne os

/-- A zeroed message carries no option. -/
theorem carries_zero {msg : DhcpMessage} (h : msg.options = fun _ => 0) : Carries msg [] := by
  refine ⟨?_, by simp⟩
  have hzero : msg.options 0 = 0 := by rw [h]
  rw [DhcpMessage.opened, if_pos hzero, h]
  exact update_zero_eq_optionArea

namespace Carries

variable {msg : DhcpMessage} {os : List OptionRecord}

theorem of_optionArea (h : msg.options = optionArea os) (hfit : (encodeAll os).length < 308) :
    Carries msg os := by
  refine ⟨?_, hfit⟩
  rw [opened_optionArea h, h]

/-- The scan of `dhcp_add_option` finds the marker behind the options. -/
theorem scan (h : Carries msg os) :
    addOptionLoop (msg.opened.optByte fun _ => 0) 309 0 = (encodeAll os).length :=
  addOptionLoop_optionArea h.area _ h.fits

/-- **One call**: the option is appended or dropped, and no other field changes. -/
theorem apply (h : Carries msg os) (call : AddCall) :
    call.apply msg = { msg with options := optionArea (accept os call.record) } := by
  have hother : ∀ area : Bytes 308,
      { msg.opened with options := area } = { msg with options := area } := by
    intro area
    rw [DhcpMessage.opened]
    split_ifs <;> rfl
  rw [accept, call.length_record]
  split_ifs with hroom
  · -- the option fits: on the opened message the call appends it
    have hfit : (encodeAll (os ++ [call.record])).length < 308 := by
      simp only [encodeAll_append, encodeAll_cons, encodeAll_nil, List.append_nil,
        List.length_append, OptionRecord.length_encode, call.length_record]
      omega
    have happend := dhcpAddOption_optionArea h.area call.record hfit
    rw [← hother, ← happend, ← call.apply_eq_record, AddCall.apply, AddCall.apply,
      dhcpAddOption_eq, dhcpAddOption_eq, opened_optionArea h.area]
  · rw [AddCall.apply, dhcpAddOption_eq, h.scan]
    dsimp only
    rw [if_neg (by omega), ← h.area, ← hother]

/-- The reads of the scan end at the marker. -/
theorem scan_reads {mem : ℕ → UInt8} :
    ∀ (os : List OptionRecord) (ptr fuel : ℕ), Holds mem ptr (encodeAll os) →
      ptr + (encodeAll os).length < 308 → mem (ptr + (encodeAll os).length) = dhcpOptEnd →
      ∀ i ∈ (addOptionTraced mem (os.length + fuel) ptr).1, i < 308 := by
  intro os
  induction os with
  | nil =>
      intro ptr fuel _ hfit hend i hi
      rw [encodeAll_nil, List.length_nil, Nat.add_zero] at hfit hend
      cases fuel with
      | zero => simp [addOptionTraced] at hi
      | succ fuel =>
          simp only [List.length_nil, addOptionTraced, hend, ne_eq, not_true_eq_false, and_false,
            if_false, if_pos hfit, List.mem_singleton] at hi
          omega
  | cons o os ih =>
      intro ptr fuel hold hfit hend i hi
      rw [encodeAll_cons, holds_append] at hold
      rw [encodeAll_cons, List.length_append, ← Nat.add_assoc] at hfit hend
      have hrest := ih (ptr + o.encode.length) fuel hold.2 hfit hend
      have hlen := o.length_encode
      have hhead := hold.1
      rw [OptionRecord.encode, holds_cons, holds_cons] at hhead
      obtain ⟨hcode, hlength, -⟩ := hhead
      rw [List.length_cons, Nat.add_right_comm, addOptionTraced, hcode, hlength,
        if_pos ⟨by omega, o.code_ne_end⟩, if_neg o.code_ne_pad, o.toNat_lengthByte, ← hlen] at hi
      simp only [List.mem_cons] at hi
      rcases hi with rfl | rfl | hi
      · omega
      · omega
      · exact hrest i hi

theorem inBounds (h : Carries msg os) (call : AddCall) : call.InBounds msg := by
  obtain ⟨hold, hend⟩ := holds_optionArea h.area (fun _ => 0) h.fits
  have hcount := two_mul_length_le os
  have hfits := h.fits
  refine ⟨fun i hi => ?_, fun i hi => ?_⟩
  · rw [dhcpAddOptionReads, List.mem_cons] at hi
    rcases hi with rfl | hi
    · omega
    · have hfuel : 309 = os.length + (309 - os.length) := by omega
      rw [hfuel] at hi
      exact scan_reads os 0 _ hold (by omega) (by simpa using hend) i hi
  · rw [dhcpAddOptionWrites, h.scan] at hi
    rcases List.mem_append.mp hi with hopen | hwrite
    · split_ifs at hopen
      · rw [List.mem_singleton] at hopen
        omega
      · simp at hopen
    · split_ifs at hwrite with hroom hmarker
      · simp only [List.mem_append, List.mem_cons, List.not_mem_nil, or_false, List.mem_map,
          List.mem_range] at hwrite
        rcases hwrite with ((hcode | hlength) | ⟨k, hk, hdata⟩) | hend'
        all_goals omega
      · omega
      · simp at hwrite

/-- **A list of calls**: its options are accepted or dropped in order, and every
call of it is in bounds. -/
theorem run (calls : List AddCall) : ∀ {msg : DhcpMessage} {os : List OptionRecord},
    Carries msg os → msg.options = optionArea os →
      addAll msg calls = { msg with
        options := optionArea ((calls.map AddCall.record).foldl accept os) } ∧
      (encodeAll ((calls.map AddCall.record).foldl accept os)).length < 308 ∧
      AllInBounds msg calls := by
  induction calls with
  | nil =>
      intro msg os h harea
      refine ⟨?_, h.fits, trivial⟩
      rw [addAll, List.foldl_nil, List.map_nil, List.foldl_nil, ← harea]
  | cons call calls ih =>
      intro msg os h harea
      have hcall := h.apply call
      have hnext : (call.apply msg).options = optionArea (accept os call.record) := by
        rw [hcall]
      obtain ⟨hlast, hfits, hbounds⟩ :=
        ih (of_optionArea hnext (accept_fits h.fits _)) hnext
      refine ⟨?_, hfits, h.inBounds call, hbounds⟩
      rw [addAll, List.foldl_cons, List.map_cons, List.foldl_cons]
      rw [addAll] at hlast
      rw [hlast, hcall]

end Carries

/-! ## Reading the options back -/

/-- **Encode, then decode.**  For every nonempty list of calls on a zeroed
message: the options accepted are those that fit, with one END byte, behind the
options accepted before them; the area is their concatenation and an END marker
inside the array; no call reads or writes outside the array; and looking up any
code gives the first accepted option with that code, or nothing.  A message no
option was ever added to keeps its zeroed area. -/
theorem addAll_roundTrip (msg : DhcpMessage) (hzero : msg.options = fun _ => 0) :
    addAll msg [] = msg ∧
    ∀ (first : AddCall) (rest : List AddCall),
      let os := accepted (first :: rest)
      let built := addAll msg (first :: rest)
      built = { msg with options := optionArea os } ∧
      (encodeAll os).length + 1 ≤ 308 ∧
      AllInBounds msg (first :: rest) ∧
      ∀ (behind : ℕ → UInt8) (option : UInt8),
        readOption built behind option =
          (os.find? fun o => o.code = option).map OptionRecord.data := by
  refine ⟨rfl, fun first rest => ?_⟩
  have hopen := carries_zero hzero
  have hcall := hopen.apply first
  have harea : (first.apply msg).options = optionArea (accept [] first.record) := by rw [hcall]
  obtain ⟨hbuilt, hfits, hbounds⟩ :=
    Carries.run rest (.of_optionArea harea (accept_fits hopen.fits _)) harea
  have heq : addAll msg (first :: rest) =
      { msg with options := optionArea (accepted (first :: rest)) } := by
    rw [addAll] at hbuilt
    rw [addAll, List.foldl_cons, hbuilt, hcall]
    rfl
  refine ⟨heq, hfits, ⟨hopen.inBounds first, hbounds⟩, fun behind option => ?_⟩
  have hoptions : (addAll msg (first :: rest)).options =
      optionArea (accepted (first :: rest)) := by rw [heq]
  exact readOption_optionArea hoptions behind hfits option

/-- The call with which `dhcp_set_message_type` writes the type of a DISCOVER. -/
def typeCall : AddCall where
  code := dhcpOptMessageType
  length := 1
  data := bytesAt [dhcpDiscover]
  code_ne_pad := dhcpOptMessageType_ne_pad
  code_ne_end := dhcpOptMessageType_ne_end

/-- A call with the given length and data that are all zero. -/
def zerosCall (code length : UInt8) (hpad : code ≠ dhcpOptPad) (hend : code ≠ dhcpOptEnd) :
    AddCall where
  code := code
  length := length
  data := fun _ => 0
  code_ne_pad := hpad
  code_ne_end := hend

/-- Behind the type and an option of 255 bytes there is no room for one of 100 bytes, but there is
for one of 2. -/
theorem addAll_roundTrip_dropped :
    let long := zerosCall 43 255 (by decide) (by decide)
    let dropped := zerosCall 12 100 (by decide) (by decide)
    let short := zerosCall 15 2 (by decide) (by decide)
    let built := addAll DhcpMessage.zero [typeCall, long, dropped, short]
    built.options = optionArea [typeCall.record, long.record, short.record] ∧
      readOption built (fun _ => 0) 12 = none ∧
      readOption built (fun _ => 0) 15 = some [0, 0] := by
  intro long dropped short built
  have haccepted : accepted [typeCall, long, dropped, short] =
      [typeCall.record, long.record, short.record] := by
    simp [accepted, accept, AddCall.record, typeCall, zerosCall, OptionRecord.length_encode, long,
      dropped, short]
  obtain ⟨hbuilt, -, -, hread⟩ :=
    (addAll_roundTrip DhcpMessage.zero rfl).2 typeCall [long, dropped, short]
  rw [haccepted] at hbuilt hread
  refine ⟨congrArg DhcpMessage.options hbuilt, (hread _ 12).trans ?_, (hread _ 15).trans ?_⟩
  · decide
  · decide

/-- Without a call there is no END marker, and PAD is found at index 0. -/
theorem addAll_nil_unmarked :
    ¬ ∀ calls : List AddCall,
      (addAll DhcpMessage.zero calls).options = optionArea (accepted calls) ∧
        ∀ (behind : ℕ → UInt8) (option : UInt8),
          readOption (addAll DhcpMessage.zero calls) behind option =
            ((accepted calls).find? fun o => o.code = option).map OptionRecord.data := by
  intro h
  have hfirst := congrFun (h []).1 0
  exact absurd hfirst (by decide)

end BaremetalDhcp
